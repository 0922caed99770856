import Mathlib.Data.List.Destutter
import Mathlib.Data.List.Lex
import Mathlib.Data.List.Sort
import Mathlib.Data.Prod.Lex
import Mathlib.Data.String.Basic
import SchemaLang.Files.Discovery

/-! Paths in order. Steps of a path are ordered by kind and then by name, paths by their
steps as words are by their letters. So a list of paths that is put in order and rid of
equal neighbours increases from each path to the next, and depends on nothing but which
paths it was made from. -/
namespace SchemaLang

namespace Path

/-! ## The order of steps -/

namespace Component

/-- The name of a step that has one. -/
def label : Component → String
  | normal name => name
  | _ => ""

/-- What the place of a step in the order depends on. -/
def key (step : Component) : ℕ ×ₗ String := toLex (step.rank, step.label)

theorem key_injective : Function.Injective key := by
  intro a b same
  obtain ⟨rank, label⟩ := Prod.ext_iff.1 (toLex.injective same)
  cases a <;> cases b <;> first | rfl | cases rank
  exact congrArg normal label

instance : LinearOrder Component := LinearOrder.lift' key key_injective

theorem le_iff (a b : Component) : a.le b = true ↔ a ≤ b := by
  show _ ↔ key a ≤ key b
  rw [key, key, Prod.Lex.toLex_le_toLex]
  cases a <;> cases b <;> simp [le, rank, label]

end Component

/-! ## The order of paths -/

/-- Paths are ordered as words are. -/
theorem componentsLe_iff (as bs : List Component) : componentsLe as bs = true ↔ as ≤ bs := by
  rw [← not_lt]
  induction as generalizing bs with
  | nil => simp [componentsLe]
  | cons a as ih =>
    cases bs with
    | nil => simp [componentsLe]
    | cons b bs =>
      rw [componentsLe, List.cons_lt_cons_iff]
      by_cases same : a = b
      · simp [same, ih]
      · simp [same, Ne.symm same, Component.le_iff]

theorem le_iff (a b : String) : Path.le a b = true ↔ components a ≤ components b :=
  componentsLe_iff _ _

theorem same_iff (a b : String) : same a b = true ↔ components a = components b := beq_iff_eq

/-- A list of paths that increases from each path to those behind it. -/
def Increasing (paths : List String) : Prop :=
  paths.Pairwise fun a b => Path.le a b = true ∧ same a b = false

theorem increasing_iff (paths : List String) :
    Increasing paths ↔ (paths.map components).Pairwise (· < ·) := by
  rw [List.pairwise_map, Increasing]
  refine iff_of_eq (congrArg (fun relation => List.Pairwise relation paths) ?_)
  funext a b
  rw [le_iff, ← Bool.not_eq_true, same_iff, lt_iff_le_and_ne]

/-- A path is among others, in this spelling or in another. -/
def Among (target : String) (paths : List String) : Prop :=
  ∃ path ∈ paths, same path target = true

theorem among_iff (target : String) (paths : List String) :
    Among target paths ↔ components target ∈ paths.map components := by
  simp only [Among, same_iff, List.mem_map]

/-- Two increasing lists of the same paths are the same list of paths. -/
theorem Increasing.eq_of_among_iff {first second : List String} (one : Increasing first)
    (other : Increasing second) (members : ∀ target, Among target first ↔ Among target second) :
    first.map components = second.map components := by
  refine ((increasing_iff first).1 one).eq_of_mem_iff ((increasing_iff second).1 other)
    fun steps => ⟨fun listed => ?_, fun listed => ?_⟩
  · obtain ⟨path, -, rfl⟩ := List.mem_map.1 listed
    exact (among_iff _ _).1 ((members path).1 ((among_iff _ _).2 listed))
  · obtain ⟨path, -, rfl⟩ := List.mem_map.1 listed
    exact (among_iff _ _).1 ((members path).2 ((among_iff _ _).2 listed))

end Path

namespace Discovery

open SchemaLang.Path

/-! ## Lists without repetition -/

/-- Of equal neighbours, one stays. -/
theorem map_mergeNeighbours (paths : List String) :
    (mergeNeighbours paths).map components = (paths.map components).destutter (· ≠ ·) := by
  fun_induction mergeNeighbours paths with
  | case1 => rfl
  | case2 path => rfl
  | case3 first second rest same ih =>
    rw [ih]
    have equal := (same_iff first second).1 same
    simp [List.destutter_cons', equal]
  | case4 first second rest other ih =>
    have different : components first ≠ components second := mt (same_iff first second).2 other
    rw [List.map_cons, ih]
    simp [List.destutter_cons', different]

/-- The paths of a list, put in order and rid of repetitions. -/
def inOrder (paths : List String) : List String := mergeNeighbours (paths.mergeSort Path.le)

theorem pairwise_mergeSort_le (paths : List String) :
    ((paths.mergeSort Path.le).map components).Pairwise (· ≤ ·) := by
  rw [List.pairwise_map]
  refine (List.pairwise_mergeSort ?_ ?_ paths).imp fun {a b} => (le_iff a b).1
  · intro a b c
    simp only [le_iff]
    exact le_trans
  · intro a b
    simp only [Bool.or_eq_true, le_iff]
    exact le_total _ _

theorem map_inOrder (paths : List String) :
    (inOrder paths).map components = ((paths.mergeSort Path.le).map components).dedup := by
  rw [inOrder, map_mergeNeighbours]
  exact (pairwise_mergeSort_le paths).destutter_eq_dedup

/-- No path is lost, and none comes in. -/
theorem among_inOrder (target : String) (paths : List String) :
    Among target (inOrder paths) ↔ Among target paths := by
  rw [among_iff, among_iff, map_inOrder, List.mem_dedup, List.mem_map, List.mem_map]
  simp only [List.mem_mergeSort]

theorem increasing_inOrder (paths : List String) : Increasing (inOrder paths) := by
  rw [increasing_iff, map_inOrder]
  refine ((pairwise_mergeSort_le paths).sublist (List.dedup_sublist _)).imp₂ ?_
    (List.nodup_dedup _)
  exact fun a b less other => lt_of_le_of_ne less other

/-- What is listed for a path alone is what a search by it finds, once it is in order. -/
theorem discover_alone {tree : FileTree} {path : String} {files : List String}
    (listed : filesAt tree path = .ok files) :
    discover tree [path] =
      if files.isEmpty then .error (.nothingFound path) else .ok (inOrder files) := by
  have lists : [path].mapM (filesAt tree) = .ok [files] := by
    rw [List.mapM_cons, listed]
    rfl
  rw [discover, lists]
  simp only [bind, Except.bind, List.flatten_cons, List.flatten_nil, List.append_nil]
  rfl

end Discovery

end SchemaLang
