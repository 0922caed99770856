import SchemaLang.Proofs.PathOrder
import SchemaLang.Proofs.Searching

/-! What a search for schema files finds. Paths of the same steps lead to the same place, so
what a path stands for depends on its steps alone. Below directories whose paths a search
takes as they are written it finds all schema files and, where a directory is named as they
are, that directory too. Main statement: otherwise what it finds is what is wanted, in
order and without repetition, in whatever order and however often the paths are given. -/
namespace SchemaLang

open SchemaLang.Path

/-! ## Where steps lead -/

/-- The location that a step leads to. -/
def Path.Component.land (here : Location) : Component → Location
  | root => []
  | current => here
  | parent => here.dropLast
  | normal name => here ++ [name]

namespace FileTree

variable {tree : FileTree} {here there : Location} {path piece target : String}

/-- The location that steps lead to, whatever there is on the way. -/
def landing (tree : FileTree) (steps : List Component) : Location :=
  steps.foldl Component.land tree.workingDirectory

theorem land_of_follow (followed : tree.follow here piece = .ok there) :
    (Component.ofPiece? piece).toList.foldl Component.land here = there := by
  have directory := directory_of_follow followed
  rw [follow, directory] at followed
  dsimp only at followed
  unfold Component.ofPiece?
  split at followed
  · rename_i still
    rw [if_pos still]
    exact Except.ok.inj followed
  · rename_i onward
    rw [if_neg onward]
    split at followed
    · rename_i dots
      rw [if_pos dots]
      exact Except.ok.inj followed
    · rename_i name
      rw [if_neg name]
      split at followed
      · cases followed
      · split at followed
        · cases followed
        · exact Except.ok.inj followed

theorem land_of_walk {pieces : List String} (walked : pieces.foldlM tree.follow here = .ok there) :
    (pieces.filterMap Component.ofPiece?).foldl Component.land here = there := by
  induction pieces generalizing here with
  | nil => exact Except.ok.inj walked
  | cons piece pieces ih =>
    obtain ⟨middle, followed, behind⟩ := walk_cons.1 walked
    rw [filterMap_pieces, List.foldl_append, land_of_follow followed, ih behind]

/-- A path leads where its steps do. -/
theorem landing_steps (resolved : tree.resolve path = .ok here) :
    tree.landing (steps path) = here := by
  obtain ⟨-, -, walked⟩ := resolve_eq_ok_iff.1 resolved
  rw [← land_of_walk walked, landing, steps, origin]
  split <;> rfl

/-- The dot that a path begins with leads nowhere else. -/
theorem landing_components (tree : FileTree) (path : String) :
    tree.landing (components path) = tree.landing (steps path) := by
  unfold components steps
  split
  · rfl
  · split <;> rfl

theorem landing_names (tree : FileTree) (trail : List Component) (names : List String) :
    tree.landing (trail ++ names.map .normal) = tree.landing trail ++ names := by
  rw [landing, List.foldl_append, ← landing]
  induction names generalizing trail with
  | nil => rw [List.append_nil]; rfl
  | cons name names ih =>
    have next := ih (trail ++ [.normal name])
    rw [landing, List.foldl_append, ← landing, List.foldl_cons, List.foldl_nil,
      Component.land, List.append_assoc] at next
    exact next

/-! ## What paths stand for -/

/-- What is below a directory is where the steps of its path lead. -/
theorem Under.get? {entry : Entry} (under : tree.Under path target entry) :
    tree.get? (tree.landing (components target)) = some entry := by
  obtain ⟨location, names, name, resolved, stands, -, trail⟩ := under
  rw [trail, landing_names, landing_steps resolved, stands]

theorem get?_of_isFile (file : tree.isFile path = true) :
    ∃ content, tree.get? (tree.landing (components path)) = some (.file content) := by
  unfold isFile at file
  split at file
  · rename_i content found
    unfold at? at found
    split at found
    · rename_i location resolved
      exact ⟨content, by rw [landing_components, landing_steps resolved, found]⟩
    · cases found
  · cases file

/-- A path stands for itself if it leads to a file, and for what is below it and named as a
schema file if it leads to a directory. -/
def Covers (tree : FileTree) (path target : String) : Prop :=
  (tree.isFile path = true ∧ same path target = true) ∨
    (tree.isDirectory path = true ∧ ∃ entry, tree.Under path target entry)

/-- What a search is for: the files among the paths that it is given, and the files below the
directories among them that are named as schema files. -/
def Wanted (tree : FileTree) (paths : List String) (target : String) : Prop :=
  (∃ path ∈ paths, tree.isFile path = true ∧ same path target = true) ∨
    ∃ path ∈ paths, tree.isDirectory path = true ∧ ∃ content, tree.Under path target (.file content)

/-- A directory that is named as a schema file, below one of the paths. -/
def Stray (tree : FileTree) (paths : List String) (target : String) : Prop :=
  ∃ path ∈ paths, tree.isDirectory path = true ∧ tree.Under path target .directory

theorem exists_covers_iff (tree : FileTree) (paths : List String) (target : String) :
    (∃ path ∈ paths, tree.Covers path target) ↔
      tree.Wanted paths target ∨ tree.Stray paths target := by
  constructor
  · rintro ⟨path, listed, ⟨file, same⟩ | ⟨directory, entry, under⟩⟩
    · exact .inl (.inl ⟨path, listed, file, same⟩)
    · cases entry with
      | file content => exact .inl (.inr ⟨path, listed, directory, content, under⟩)
      | directory => exact .inr ⟨path, listed, directory, under⟩
  · rintro ((⟨path, listed, file, same⟩ | ⟨path, listed, directory, content, under⟩) |
      ⟨path, listed, directory, under⟩)
    · exact ⟨path, listed, .inl ⟨file, same⟩⟩
    · exact ⟨path, listed, .inr ⟨directory, _, under⟩⟩
    · exact ⟨path, listed, .inr ⟨directory, _, under⟩⟩

theorem Wanted.get? {paths : List String} (wanted : tree.Wanted paths target) :
    ∃ content, tree.get? (tree.landing (components target)) = some (.file content) := by
  rcases wanted with ⟨path, -, file, same⟩ | ⟨path, -, -, content, under⟩
  · rw [← (same_iff path target).1 same]
    exact get?_of_isFile file
  · exact ⟨content, under.get?⟩

/-- No directory strays where none is named as a schema file. -/
theorem not_stray {paths : List String} (regular : ∀ entry ∈ tree.entries,
    entry.2.isDirectory = true → ∀ name ∈ entry.1.getLast?, ¬ Discovery.SchemaName name)
    (target : String) : ¬ tree.Stray paths target := by
  rintro ⟨path, -, -, location, names, name, -, stands, suffix, -⟩
  rw [← List.append_assoc] at stands
  have deep : location ++ names ++ [name] ≠ [] := by simp
  exact regular _ (mem_entries deep stands) rfl name List.getLast?_concat suffix

/-- Where a directory is, no file is wanted. -/
theorem Stray.not_wanted {paths others : List String} (stray : tree.Stray paths target) :
    ¬ tree.Wanted others target := by
  intro wanted
  obtain ⟨path, -, -, under⟩ := stray
  obtain ⟨content, file⟩ := wanted.get?
  rw [under.get?] at file
  cases file

end FileTree

namespace Discovery

/-! ## What a search finds -/

variable {tree : FileTree} {paths : List String} {path : String}

theorem not_isFile_of_isDirectory (directory : tree.isDirectory path = true) :
    tree.isFile path = false := by
  unfold FileTree.isDirectory at directory
  unfold FileTree.isFile
  cases found : tree.at? path with
  | none => rfl
  | some entry =>
    rw [found] at directory
    cases entry with
    | file content => cases directory
    | directory => rfl

/-- A path that leads somewhere lists what it stands for. -/
theorem filesAt_literal (named : tree.Named)
    (present : tree.isFile path = true ∨ tree.isDirectory path = true)
    (literal : tree.isDirectory path = true → Literal path) :
    ∃ files, filesAt tree path = .ok files ∧
      ∀ target, Among target files ↔ tree.Covers path target := by
  unfold filesAt FileTree.Covers
  rcases present with file | directory
  · have other : tree.isDirectory path = false := by
      refine Bool.eq_false_iff.2 fun directory => ?_
      rw [not_isFile_of_isDirectory directory] at file
      cases file
    rw [if_pos file]
    exact ⟨_, rfl, fun target => by simp [Among, file, other]⟩
  · have other := not_isFile_of_isDirectory directory
    obtain ⟨files, below, members⟩ := filesBelow_literal named (literal directory) directory
    rw [if_neg (Bool.eq_false_iff.1 other), if_pos directory, below]
    exact ⟨_, rfl, fun target => (members target).trans (by simp [directory, other])⟩

/-- Paths are looked up one after the other. -/
theorem mapM_filesAt (named : tree.Named)
    (present : ∀ path ∈ paths, tree.isFile path = true ∨ tree.isDirectory path = true)
    (literal : ∀ path ∈ paths, tree.isDirectory path = true → Literal path) :
    ∃ lists, paths.mapM (filesAt tree) = .ok lists ∧
      ∀ target, Among target lists.flatten ↔ ∃ path ∈ paths, tree.Covers path target := by
  induction paths with
  | nil => exact ⟨[], rfl, fun target => by simp [Among]⟩
  | cons path paths ih =>
    obtain ⟨leads, others⟩ := List.forall_mem_cons.1 present
    obtain ⟨plain, further⟩ := List.forall_mem_cons.1 literal
    obtain ⟨files, listed, members⟩ := filesAt_literal named leads plain
    obtain ⟨lists, ran, rest⟩ := ih others further
    refine ⟨files :: lists, ?_, fun target => ?_⟩
    · rw [List.mapM_cons, listed, ran]
      rfl
    · rw [List.exists_mem_cons_iff, ← members, ← rest]
      simp only [Among, List.flatten_cons, List.mem_append, or_and_right, exists_or]

/-- Where paths stand for something, all that they stand for is found, in order. -/
theorem discover_covered (named : tree.Named)
    (present : ∀ path ∈ paths, tree.isFile path = true ∨ tree.isDirectory path = true)
    (literal : ∀ path ∈ paths, tree.isDirectory path = true → Literal path)
    (covered : ∃ target, ∃ path ∈ paths, tree.Covers path target) :
    ∃ found, discover tree paths = .ok found ∧ Increasing found ∧
      ∀ target, Among target found ↔ ∃ path ∈ paths, tree.Covers path target := by
  obtain ⟨lists, ran, members⟩ := mapM_filesAt named present literal
  obtain ⟨target, covers⟩ := covered
  obtain ⟨file, listed, -⟩ := (members target).2 covers
  have nonempty : lists.flatten.isEmpty = false :=
    List.isEmpty_eq_false_iff.2 (List.ne_nil_of_mem listed)
  refine ⟨inOrder lists.flatten, ?_, increasing_inOrder _, fun target => ?_⟩
  · rw [discover, ran]
    simp only [bind, Except.bind, nonempty]
    rfl
  · rw [among_inOrder, members]

/-- **A search finds what is wanted.** Of paths that lead somewhere, the directories among
them by paths taken as they are written, what is found increases from each path to the next
and is the same for the same paths in any order and number. It is just what is wanted if
and only if no directory below is named as a schema file. -/
theorem discover_exact (named : tree.Named)
    (present : ∀ path ∈ paths, tree.isFile path = true ∨ tree.isDirectory path = true)
    (literal : ∀ path ∈ paths, tree.isDirectory path = true → Literal path)
    (wanted : ∃ target, tree.Wanted paths target) :
    ∃ found, discover tree paths = .ok found ∧ Increasing found ∧
      (∀ others, (∀ path, path ∈ others ↔ path ∈ paths) →
        ∃ again, discover tree others = .ok again ∧
          again.map components = found.map components) ∧
      ((∀ target, Among target found ↔ tree.Wanted paths target) ↔
        ∀ target, ¬ tree.Stray paths target) := by
  have covered : ∃ target, ∃ path ∈ paths, tree.Covers path target :=
    wanted.imp fun target wants => (tree.exists_covers_iff paths target).2 (.inl wants)
  obtain ⟨found, ran, increasing, members⟩ := discover_covered named present literal covered
  refine ⟨found, ran, increasing, fun others same => ?_, ?_⟩
  · have equal (target : String) : (∃ path ∈ others, tree.Covers path target) ↔
        ∃ path ∈ paths, tree.Covers path target := by simp only [same]
    obtain ⟨again, rerun, rising, contents⟩ := discover_covered named
      (fun path listed => present path ((same path).1 listed))
      (fun path listed => literal path ((same path).1 listed))
      (covered.imp fun target => (equal target).2)
    refine ⟨again, rerun, rising.eq_of_among_iff increasing fun target => ?_⟩
    rw [contents, equal, members]
  · simp only [members, FileTree.exists_covers_iff]
    constructor
    · intro agrees target stray
      exact stray.not_wanted ((agrees target).1 (.inr stray))
    · intro regular target
      exact or_iff_left (regular target)

/-- A directory with a schema file in a directory of its own, and files of other names. -/
def shelf : FileTree where
  entries :=
    [(["w"], .directory), (["w", "a"], .directory), (["w", "a", "b"], .directory),
      (["w", "a", "b", "x.prisma"], .file .empty), (["w", "a", "notes.txt"], .file .empty),
      (["w", "z.schema"], .file .empty)]
  workingDirectory := ["w"]

theorem discover_exact_shelf :
    shelf.Named ∧ shelf.Wanted ["a//", "./z.schema", "a/b/x.prisma"] "a/b/./x.prisma" ∧
    ∃ found, discover shelf ["a//", "./z.schema", "a/b/x.prisma"] = .ok found ∧
      Increasing found ∧
      (∀ target, Among target found ↔
        shelf.Wanted ["a//", "./z.schema", "a/b/x.prisma"] target) ∧
      ∃ again, discover shelf ["./z.schema", "a/b/x.prisma", "a//", "a//"] = .ok again ∧
        again.map components = found.map components := by
  have named : shelf.Named := by decide +kernel
  have present : ∀ path ∈ ["a//", "./z.schema", "a/b/x.prisma"],
      shelf.isFile path = true ∨ shelf.isDirectory path = true := by decide +kernel
  have literal : ∀ path ∈ ["a//", "./z.schema", "a/b/x.prisma"],
      shelf.isDirectory path = true → Literal path := by decide +kernel
  have under : shelf.Under "a//" "a/b/./x.prisma" (.file .empty) :=
    ⟨["w", "a"], ["b"], "x.prisma", by decide +kernel, rfl, by decide, by decide +kernel⟩
  have wanted : shelf.Wanted ["a//", "./z.schema", "a/b/x.prisma"] "a/b/./x.prisma" :=
    .inr ⟨"a//", List.mem_cons_self, by decide +kernel, _, under⟩
  obtain ⟨found, ran, increasing, again, agrees⟩ :=
    discover_exact named present literal ⟨_, wanted⟩
  refine ⟨named, wanted, found, ran, increasing, ?_, ?_⟩
  · exact agrees.2 (FileTree.not_stray (by decide +kernel))
  · exact again _ (by simp [or_comm, or_left_comm])

/-- A directory whose name is a pattern for another name, and one that holds a directory
named as a schema file. -/
def thicket : FileTree where
  entries :=
    [(["[a]"], .directory), (["[a]", "x.prisma"], .file .empty), (["b"], .directory),
      (["b", "x.prisma"], .directory), (["b", "y.prisma"], .file .empty)]
  workingDirectory := []

/-- Files that are wanted are not found where a directory's name has wildcards in it or its
path is hollow, and a directory that is named as a schema file is found among files. -/
theorem discover_inexact :
    (thicket.isDirectory "[a]" = true ∧ thicket.Wanted ["[a]"] "[a]/x.prisma" ∧
      discover thicket ["[a]"] = .error (.nothingFound "[a]")) ∧
    (thicket.isDirectory "./" = true ∧ thicket.Wanted ["./"] "b/y.prisma" ∧
      discover thicket ["./"] = .error (.nothingFound "./")) ∧
    thicket.isDirectory "b" = true ∧ thicket.Wanted ["b"] "b/y.prisma" ∧
      ¬ thicket.Wanted ["b"] "b/x.prisma" ∧
      discover thicket ["b"] = .ok ["b/x.prisma", "b/y.prisma"] := by
  refine ⟨⟨by decide +kernel, ?_, ?_⟩, ⟨by decide +kernel, ?_, ?_⟩, by decide +kernel, ?_, ?_, ?_⟩
  · exact .inr ⟨"[a]", List.mem_cons_self, by decide +kernel, .empty, ["[a]"], [], "x.prisma",
      by decide +kernel, rfl, by decide, by decide +kernel⟩
  · have nothing : filesAt thicket "[a]" = .ok [] := by decide +kernel
    rw [discover_alone nothing]
    rfl
  · exact .inr ⟨"./", List.mem_cons_self, by decide +kernel, .empty, [], ["b"], "y.prisma",
      by decide +kernel, rfl, by decide, by decide +kernel⟩
  · have nothing : filesAt thicket "./" = .ok [] := by
      rw [filesAt, if_neg (by decide +kernel), if_pos (by decide +kernel),
        filesBelow_hollow _ (by decide) (by decide +kernel) (by decide +kernel)]
      rfl
    rw [discover_alone nothing]
    rfl
  · exact .inr ⟨"b", List.mem_cons_self, by decide +kernel, .empty, ["b"], [], "y.prisma",
      by decide +kernel, rfl, by decide, by decide +kernel⟩
  · intro wanted
    obtain ⟨content, file⟩ := wanted.get?
    have location : thicket.landing (components "b/x.prisma") = ["b", "x.prisma"] := by
      decide +kernel
    rw [location] at file
    cases file
  · have both : filesAt thicket "b" = .ok ["b/x.prisma", "b/y.prisma"] := by decide +kernel
    have sorted : ["b/x.prisma", "b/y.prisma"].mergeSort Path.le = ["b/x.prisma", "b/y.prisma"] :=
      List.mergeSort_of_pairwise (by decide +kernel)
    have apart : Path.same "b/x.prisma" "b/y.prisma" = false := by decide +kernel
    rw [discover_alone both, inOrder, sorted]
    simp [mergeNeighbours, apart]

end Discovery

end SchemaLang
