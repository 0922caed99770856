import Mathlib.Algebra.Ring.Nat
import Mathlib.Data.List.Basic
import SchemaLang.Proofs.Listing
import SchemaLang.Proofs.Offsets

/-! Following paths. A piece that is put behind a path leads one step further than the path
does, and adds the step that it stands for. A search puts the pieces of a path together
again, one behind the other, so it comes to where the path leads, by a path of the same
steps. -/
namespace SchemaLang

namespace Path

/-! ## Pieces -/

/-- A piece of a path has no slash in it. -/
def Whole (piece : String) : Prop := '/' ∉ piece.toList

instance (piece : String) : Decidable (Whole piece) :=
  inferInstanceAs (Decidable ('/' ∉ piece.toList))

theorem pieces_ne_nil (path : String) : pieces path ≠ [] :=
  mt List.map_eq_nil_iff.1 (splitSlashes_ne_nil path.toList)

private theorem splitSlashes_whole {piece : List Char} (whole : '/' ∉ piece) :
    splitSlashes piece = [piece] := by
  fun_induction splitSlashes piece with
  | case1 => rfl
  | case2 rest ih => exact absurd List.mem_cons_self whole
  | case3 char rest plain empty ih => exact absurd empty (splitSlashes_ne_nil rest)
  | case4 char rest plain piece pieces split ih =>
    have behind := ih fun inside => whole (List.mem_cons_of_mem _ inside)
    rw [split] at behind
    cases behind
    rfl

theorem pieces_whole {piece : String} (whole : Whole piece) : pieces piece = [piece] := by
  rw [pieces, splitSlashes_whole whole, List.map_singleton, String.ofList_toList]

private theorem whole_of_mem_splitSlashes {text piece : List Char}
    (listed : piece ∈ splitSlashes text) : '/' ∉ piece := by
  fun_induction splitSlashes text generalizing piece with
  | case1 =>
    cases List.mem_singleton.1 listed
    exact List.not_mem_nil
  | case2 rest ih =>
    rcases List.mem_cons.1 listed with rfl | later
    · exact List.not_mem_nil
    · exact ih later
  | case3 char rest plain empty ih => exact absurd empty (splitSlashes_ne_nil rest)
  | case4 char rest plain head pieces split ih =>
    rw [split] at ih
    rcases List.mem_cons.1 listed with rfl | later
    · intro inside
      rcases List.mem_cons.1 inside with same | within
      · exact plain same.symm
      · exact ih List.mem_cons_self within
    · exact ih (List.mem_cons_of_mem _ later)

theorem whole_of_mem_pieces {path piece : String} (listed : piece ∈ pieces path) :
    Whole piece := by
  obtain ⟨inner, found, rfl⟩ := List.mem_map.1 listed
  rw [Whole, String.toList_ofList]
  exact whole_of_mem_splitSlashes found

theorem isAbsolute_whole {piece : String} (whole : Whole piece) : isAbsolute piece = false := by
  rw [isAbsolute, beq_eq_false_iff_ne]
  exact fun first => whole (List.mem_of_head? first)

/-- A path that starts at the root starts with an empty piece. -/
theorem exists_pieces_of_isAbsolute {path : String} (absolute : isAbsolute path = true) :
    ∃ others, pieces path = "" :: others := by
  obtain ⟨rest, split⟩ := List.head?_eq_some_iff.1 (beq_iff_eq.1 absolute)
  exact ⟨(splitSlashes rest).map .ofList, by rw [pieces, split]; rfl⟩

/-- The pieces of a path, and the slashes between them, take as much room as the path. -/
theorem sum_size_pieces (path : String) :
    ((pieces path).map (·.utf8ByteSize + 1)).sum = path.utf8ByteSize + 1 := by
  have spread (text : List Char) : ((splitSlashes text).map (Position.byteLength · + 1)).sum =
      Position.byteLength text + 1 := by
    fun_induction splitSlashes text with
    | case1 => rfl
    | case2 rest ih =>
      rw [List.map_cons, List.sum_cons, ih]
      show 0 + 1 + (Position.byteLength rest + 1) = 1 + Position.byteLength rest + 1
      omega
    | case3 char rest plain empty ih => exact absurd empty (splitSlashes_ne_nil rest)
    | case4 char rest plain piece pieces split ih =>
      rw [split, List.map_cons, List.sum_cons] at ih
      rw [List.map_cons, List.sum_cons]
      show char.utf8Size + Position.byteLength piece + 1 + _ =
        char.utf8Size + Position.byteLength rest + 1
      omega
  have whole := Position.utf8ByteSize_ofList path.toList
  rw [String.ofList_toList] at whole
  rw [whole, ← spread, pieces, List.map_map]
  congr 2
  funext piece
  exact congrArg (· + 1) (Position.utf8ByteSize_ofList piece)

/-! ## Joining -/

/-- A piece comes behind a path with one slash in between, the last of the path if it ends
in one. -/
theorem join_cases {path : String} (nonempty : path ≠ "") (piece : String) :
    (∃ front : String, path.toList = front.toList ++ ['/'] ∧ join path piece = path ++ piece) ∨
      join path piece = path ++ "/" ++ piece := by
  have filled : path.toList ≠ [] := by simpa using nonempty
  obtain ⟨front, last, split⟩ : ∃ front last, path.toList = front ++ [last] :=
    ⟨_, _, (List.dropLast_append_getLast filled).symm⟩
  have ends : path.toList.getLast? = some last := by rw [split, List.getLast?_concat]
  by_cases slash : last = '/'
  · left
    refine ⟨.ofList front, ?_, ?_⟩
    · rw [split, slash, String.toList_ofList]
    · rw [join, ends, slash]
      rfl
  · right
    rw [join, ends]
    split
    · rename_i empty
      cases empty
    · rename_i same
      exact absurd (Option.some.inj same) slash
    · rfl

theorem join_ne_empty {path : String} (nonempty : path ≠ "") (piece : String) :
    join path piece ≠ "" := by
  rcases join_cases nonempty piece with ⟨_, -, joined⟩ | joined
  · rw [joined]
    simp [nonempty]
  · rw [joined]
    simp

/-- Joining adds the piece. An empty piece at the end of the path, behind its last slash, makes
room for it. -/
theorem pieces_join {path piece : String} (nonempty : path ≠ "") (whole : Whole piece) :
    ∃ front, front ≠ [] ∧ pieces (join path piece) = front ++ [piece] ∧
      (pieces path = front ∨ pieces path = front ++ [""]) := by
  have alone : (splitSlashes piece.toList).map String.ofList = [piece] := pieces_whole whole
  rcases join_cases nonempty piece with ⟨front, split, joined⟩ | joined
  · refine ⟨pieces front, pieces_ne_nil front, ?_, .inr ?_⟩
    · rw [joined, pieces, String.toList_append, split, List.append_assoc, List.singleton_append,
        splitSlashes_append, List.map_append, alone]
      rfl
    · rw [pieces, split, splitSlashes_append, List.map_append]
      rfl
  · refine ⟨pieces path, pieces_ne_nil path, ?_, .inl rfl⟩
    rw [joined, pieces, String.toList_append, String.toList_append, List.append_assoc]
    rw [show "/".toList ++ piece.toList = '/' :: piece.toList from rfl, splitSlashes_append,
      List.map_append, alone]
    rfl

theorem isAbsolute_join {path : String} (nonempty : path ≠ "") (piece : String) :
    isAbsolute (join path piece) = isAbsolute path := by
  have filled : path.toList ≠ [] := by simpa using nonempty
  rcases join_cases nonempty piece with ⟨_, -, joined⟩ | joined
  · rw [joined, isAbsolute, String.toList_append, List.head?_append_of_ne_nil _ filled,
      isAbsolute]
  · rw [joined, isAbsolute, String.toList_append, String.toList_append, List.append_assoc,
      List.head?_append_of_ne_nil _ filled, isAbsolute]

/-! ## Steps -/

/-- The steps of a path, without the dot that it may begin with. -/
def steps (path : String) : List Component :=
  (if isAbsolute path then [.root] else []) ++ (pieces path).filterMap Component.ofPiece?

theorem filterMap_piece (piece : String) :
    [piece].filterMap Component.ofPiece? = (Component.ofPiece? piece).toList := by
  rw [List.filterMap_cons]
  cases Component.ofPiece? piece <;> rfl

theorem filterMap_pieces (piece : String) (others : List String) :
    (piece :: others).filterMap Component.ofPiece? =
      (Component.ofPiece? piece).toList ++ others.filterMap Component.ofPiece? := by
  rw [← List.singleton_append, List.filterMap_append, filterMap_piece]

theorem components_eq_steps {path : String} (lead : (pieces path).head? ≠ some ".") :
    components path = steps path := by
  unfold components steps
  by_cases absolute : isAbsolute path = true
  · simp [absolute]
  · simp [absolute, lead]

/-- A path as a search builds it. A dot is all of it, or it does not begin with one. -/
structure Bare (path : String) : Prop where
  nonempty : path ≠ ""
  lead : path = "." ∨ (pieces path).head? ≠ some "."

theorem bare_current : Bare "." := ⟨by decide, .inl rfl⟩

theorem bare_root : Bare "/" := ⟨by decide, .inr (by decide)⟩

/-- Only the dot itself has no other step. -/
theorem Bare.eq_current {path : String} (bare : Bare path) (dot : components path = [.current]) :
    path = "." := by
  refine bare.lead.resolve_right fun lead => ?_
  rw [components_eq_steps lead] at dot
  have inside : Component.current ∈ steps path := by
    rw [dot]
    exact List.mem_cons_self
  rw [steps, List.mem_append, List.mem_filterMap] at inside
  rcases inside with root | ⟨piece, -, step⟩
  · split at root <;> simp at root
  · unfold Component.ofPiece? at step
    split at step
    · cases step
    · split at step <;> cases step

end Path

namespace Discovery

open SchemaLang.Path

theorem extend_current (piece : String) : extend "." piece = piece := by
  rw [extend, if_pos (by decide)]

theorem extend_bare {path : String} (bare : Bare path) (more : path ≠ ".") (piece : String) :
    extend path piece = join path piece := by
  rw [extend, if_neg fun dot => more (bare.eq_current dot)]

/-- A piece that does not vanish makes a path of the same kind. -/
theorem bare_extend {path piece : String} (bare : Bare path) (whole : Whole piece)
    (apart : path = "." → piece ≠ "") : Bare (extend path piece) := by
  by_cases dot : path = "."
  · rw [dot, extend_current]
    refine ⟨apart dot, ?_⟩
    rw [pieces_whole whole]
    by_cases same : piece = "."
    · exact .inl same
    · exact .inr fun first => same (Option.some.inj first)
  · rw [extend_bare bare dot]
    refine ⟨join_ne_empty bare.nonempty piece, .inr ?_⟩
    obtain ⟨front, nonempty, joined, before⟩ := pieces_join bare.nonempty whole
    have lead := bare.lead.resolve_left dot
    rw [joined, List.head?_append_of_ne_nil _ nonempty]
    rcases before with same | same
    · rwa [same] at lead
    · rwa [same, List.head?_append_of_ne_nil _ nonempty] at lead

/-- A piece adds the step that it stands for. -/
theorem steps_extend {path piece : String} (bare : Bare path) (whole : Whole piece) :
    steps (extend path piece) = steps path ++ (Component.ofPiece? piece).toList := by
  by_cases dot : path = "."
  · rw [dot, extend_current, steps, isAbsolute_whole whole, pieces_whole whole]
    rw [filterMap_piece]
    rfl
  · rw [extend_bare bare dot]
    obtain ⟨front, -, joined, before⟩ := pieces_join bare.nonempty whole
    rw [steps, isAbsolute_join bare.nonempty, joined, List.filterMap_append, filterMap_piece,
      ← List.append_assoc, steps]
    rcases before with same | same
    · rw [same]
    · -- The empty piece at the end of the path is no step.
      rw [same, List.filterMap_append, filterMap_piece ""]
      simp [Component.ofPiece?]

end Discovery

namespace FileTree

variable {tree : FileTree} {here there : Location} {path piece : String}

/-! ## Locations -/

theorem directory_of_follow (followed : tree.follow here piece = .ok there) :
    tree.get? here = some .directory := by
  unfold follow at followed
  split at followed
  · cases followed
  · cases followed
  · assumption

/-- Pieces that stand for no step stay where they are. -/
theorem follow_still (still : piece = "" ∨ piece = ".")
    (followed : tree.follow here piece = .ok there) : there = here := by
  rw [follow, directory_of_follow followed] at followed
  simp only [still, if_true] at followed
  exact (Except.ok.inj followed).symm

theorem get?_of_follow (within : piece ≠ "..") (followed : tree.follow here piece = .ok there) :
    (tree.get? there).isSome = true := by
  have directory := directory_of_follow followed
  by_cases still : piece = "" ∨ piece = "."
  · rw [follow_still still followed, directory]
    rfl
  · rw [follow, directory] at followed
    simp only [still, within, if_false] at followed
    split at followed
    · cases followed
    · split at followed
      · cases followed
      · rename_i entry found
        cases followed
        rw [found]
        rfl

theorem follow_alone (tree : FileTree) (here : Location) (piece : String) :
    [piece].foldlM tree.follow here = tree.follow here piece := by
  rw [List.foldlM_cons]
  exact bind_pure _

/-- Pieces are followed one behind the other. -/
theorem walk_append {front back : List String} :
    (front ++ back).foldlM tree.follow here = .ok there ↔
      ∃ middle, front.foldlM tree.follow here = .ok middle ∧
        back.foldlM tree.follow middle = .ok there := by
  rw [List.foldlM_append]
  cases front.foldlM tree.follow here with
  | error fault => simp [bind, Except.bind]
  | ok middle => simp [bind, Except.bind]

theorem walk_cons {piece : String} {others : List String} :
    (piece :: others).foldlM tree.follow here = .ok there ↔
      ∃ middle, tree.follow here piece = .ok middle ∧
        others.foldlM tree.follow middle = .ok there := by
  rw [← List.singleton_append, walk_append, follow_alone]

theorem directory_of_walk {pieces : List String} (nonempty : pieces ≠ [])
    (walked : pieces.foldlM tree.follow here = .ok there) :
    tree.get? here = some .directory := by
  obtain ⟨first, others, rfl⟩ := List.exists_cons_of_ne_nil nonempty
  obtain ⟨next, followed, -⟩ := walk_cons.1 walked
  exact directory_of_follow followed

/-- Where the pieces of a path are followed from. -/
def origin (tree : FileTree) (path : String) : Location :=
  if Path.isAbsolute path then [] else tree.workingDirectory

theorem resolve_eq_ok_iff : tree.resolve path = .ok here ↔
    path ≠ "" ∧ path.utf8ByteSize ≤ maxPathSize ∧
      (Path.pieces path).foldlM tree.follow (tree.origin path) = .ok here := by
  unfold resolve
  by_cases empty : path = ""
  · simp [empty]
  · by_cases long : maxPathSize < path.utf8ByteSize
    · simp [empty, long, Nat.not_le.2 long]
    · simp [empty, long, Nat.not_lt.1 long, origin]

/-- A piece behind a path leads one step further than the path. -/
theorem resolve_extend (bare : Path.Bare path) (whole : Path.Whole piece)
    (apart : path = "." → piece ≠ "") (resolved : tree.resolve path = .ok here)
    (followed : tree.follow here piece = .ok there)
    (short : (Discovery.extend path piece).utf8ByteSize ≤ maxPathSize) :
    tree.resolve (Discovery.extend path piece) = .ok there := by
  obtain ⟨-, -, walked⟩ := resolve_eq_ok_iff.1 resolved
  refine resolve_eq_ok_iff.2 ⟨(Discovery.bare_extend bare whole apart).nonempty, short, ?_⟩
  by_cases dot : path = "."
  · subst dot
    rw [Path.pieces_whole (by decide), follow_alone] at walked
    obtain rfl := follow_still (.inr rfl) walked
    rw [Discovery.extend_current, Path.pieces_whole whole, follow_alone, origin,
      Path.isAbsolute_whole whole]
    exact followed
  · rw [Discovery.extend_bare bare dot]
    obtain ⟨front, -, joined, before⟩ := Path.pieces_join bare.nonempty whole
    rw [joined, origin, Path.isAbsolute_join bare.nonempty, ← origin]
    refine walk_append.2 ⟨here, ?_, (follow_alone tree here piece).trans followed⟩
    rcases before with same | same
    · rwa [same] at walked
    · rw [same] at walked
      obtain ⟨middle, led, still⟩ := walk_append.1 walked
      rw [follow_alone] at still
      rwa [follow_still (.inl rfl) still]

end FileTree

end SchemaLang
