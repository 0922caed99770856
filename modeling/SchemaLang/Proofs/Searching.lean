import SchemaLang.Proofs.Following

/-! Searching below a directory. A path without wildcards is a pattern of names, and these
lead a search to where the path leads, unless it begins with dots that an empty piece comes
behind. From there all that is below is found, at any depth, if its name ends as the names
of schema files do. -/
namespace SchemaLang

/-! ## Names -/

/-- A name that an entry of a tree can have: it is one step of a path. -/
structure Path.Name (name : String) : Prop where
  whole : '/' ∉ name.toList
  nonempty : name ≠ ""
  dot : name ≠ "."
  dots : name ≠ ".."

instance (name : String) : Decidable (Path.Name name) :=
  decidable_of_iff ('/' ∉ name.toList ∧ name ≠ "" ∧ name ≠ "." ∧ name ≠ "..")
    ⟨fun ⟨whole, nonempty, dot, dots⟩ => ⟨whole, nonempty, dot, dots⟩,
      fun ⟨whole, nonempty, dot, dots⟩ => ⟨whole, nonempty, dot, dots⟩⟩

theorem Path.Name.ofPiece? {name : String} (fits : Path.Name name) :
    Path.Component.ofPiece? name = some (.normal name) := by
  simp [Path.Component.ofPiece?, fits.nonempty, fits.dot, fits.dots]

namespace FileTree

/-- A tree in which every entry has a name. -/
def Named (tree : FileTree) : Prop := ∀ entry ∈ tree.entries, ∀ name ∈ entry.1, Path.Name name

instance (tree : FileTree) : Decidable tree.Named := List.decidableBAll _ tree.entries

theorem mem_entries {tree : FileTree} {location : Location} {entry : Entry}
    (deep : location ≠ []) (found : tree.get? location = some entry) :
    (location, entry) ∈ tree.entries := by
  rw [get?, if_neg deep] at found
  obtain ⟨front, back, split, -⟩ := List.lookup_eq_some_iff.1 found
  rw [split]
  exact List.mem_append_right _ List.mem_cons_self

theorem Named.name {tree : FileTree} (named : tree.Named) {location : Location} {name : String}
    (present : (tree.get? location).isSome = true) (part : name ∈ location) : Path.Name name := by
  obtain ⟨entry, found⟩ := Option.isSome_iff_exists.1 present
  exact named (location, entry) (mem_entries (List.ne_nil_of_mem part) found) name part

/-- What is below a location is what stands at a longer one. -/
theorem exists_mem_below_iff (tree : FileTree) (location : Location) {names : List String}
    (nonempty : names ≠ []) :
    (∃ entry, (names, entry) ∈ tree.below location) ↔
      (tree.get? (location ++ names)).isSome = true := by
  have more : location ++ names ≠ [] := List.append_ne_nil_of_right_ne_nil _ nonempty
  rw [get?, if_neg more, List.lookup_isSome_iff]
  simp only [below, List.mem_filterMap, Prod.exists, beq_iff_eq]
  constructor
  · rintro ⟨entry, place, found, listed, cut⟩
    split at cut
    · rename_i under
      cases cut
      obtain ⟨rest, rfl⟩ := List.isPrefixOf_iff_prefix.1 under.1
      exact ⟨_, _, listed, by rw [List.drop_left]⟩
    · cases cut
  · rintro ⟨place, entry, listed, rfl⟩
    refine ⟨entry, _, entry, listed, ?_⟩
    have longer : location.length < (location ++ names).length := by
      rw [List.length_append]
      exact Nat.lt_add_of_pos_right (List.length_pos_iff.2 nonempty)
    rw [if_pos ⟨List.isPrefixOf_iff_prefix.2 (List.prefix_append ..), longer⟩, List.drop_left]

end FileTree

namespace Discovery

open SchemaLang.Path

/-! ## Room -/

/-- The room that a path takes in front of a further piece. A dot gives way to the piece, and
the slash of the root is there already. -/
def room (path : String) : Nat :=
  if path = "." then 0 else if path = "/" then 1 else path.utf8ByteSize + 1

theorem room_le (path : String) : room path ≤ path.utf8ByteSize + 1 := by
  unfold room
  split
  · exact Nat.zero_le _
  · split
    · exact Nat.le_add_left ..
    · exact Nat.le_refl _

theorem size_le_of_room {path : String} (fits : room path ≤ FileTree.maxPathSize + 1) :
    path.utf8ByteSize ≤ FileTree.maxPathSize := by
  unfold room at fits
  split at fits
  · rename_i dot
    rw [dot]
    decide
  · split at fits
    · rename_i root
      rw [root]
      decide
    · exact Nat.le_of_succ_le_succ fits

theorem room_extend {path : String} (bare : Bare path) (piece : String) :
    room (extend path piece) ≤ room path + (piece.utf8ByteSize + 1) := by
  have whole := room_le (extend path piece)
  by_cases dot : path = "."
  · rw [dot, extend_current] at whole ⊢
    exact Nat.le_trans whole (Nat.le_add_left ..)
  · rw [extend_bare bare dot] at whole ⊢
    have slash : "/".utf8ByteSize = 1 := rfl
    by_cases root : path = "/"
    · have joined : join "/" piece = "/" ++ piece := rfl
      rw [root, joined, String.utf8ByteSize_append] at whole
      rw [root, joined, show room "/" = 1 from rfl]
      omega
    · have here : room path = path.utf8ByteSize + 1 := by rw [room, if_neg dot, if_neg root]
      rcases join_cases bare.nonempty piece with ⟨-, -, joined⟩ | joined
      · rw [joined, String.utf8ByteSize_append] at whole
        rw [joined]
        omega
      · rw [joined, String.utf8ByteSize_append, String.utf8ByteSize_append] at whole
        rw [joined]
        omega

/-! ## Going down by names -/

variable {tree : FileTree} {path piece : String} {here there : Location}

/-- A path as a search builds it, with its steps and the location that it leads to. -/
structure Reaches (tree : FileTree) (path : String) (steps : List Component)
    (location : Location) : Prop where
  bare : Bare path
  steps_eq : Path.steps path = steps
  resolved : tree.resolve path = .ok location

theorem Reaches.extend {trail : List Component} (reaches : Reaches tree path trail here)
    (whole : Whole piece) (apart : path = "." → piece ≠ "")
    (followed : tree.follow here piece = .ok there)
    (fits : room (Discovery.extend path piece) ≤ FileTree.maxPathSize + 1) :
    Reaches tree (Discovery.extend path piece) (trail ++ (Component.ofPiece? piece).toList)
      there where
  bare := bare_extend reaches.bare whole apart
  steps_eq := by rw [steps_extend reaches.bare whole, reaches.steps_eq]
  resolved := FileTree.resolve_extend reaches.bare whole apart reaches.resolved followed
    (size_le_of_room fits)

/-- A search goes on by a name that leads on. -/
theorem search_name {trail onward : List Component} (reaches : Reaches tree path trail here)
    (followed : tree.follow here piece = .ok there)
    (next : Reaches tree (extend path piece) onward there) (others : List PatternPiece) :
    search tree (.name piece :: others) path = search tree others (extend path piece) := by
  have found : (if piece = "." ∨ piece = ".." then tree.isDirectory path
      else tree.pathExists (extend path piece)) = true := by
    split
    · rw [FileTree.isDirectory, FileTree.at?, reaches.resolved]
      show (tree.get? here).any _ = true
      rw [FileTree.directory_of_follow followed]
      rfl
    · rename_i plain
      rw [FileTree.pathExists, FileTree.at?, next.resolved]
      exact FileTree.get?_of_follow (fun dots => plain (.inr dots)) followed
  rw [search]
  exact if_pos found

/-- A path that begins with dots that an empty piece comes behind. -/
def Hollow (path : String) : Prop :=
  isAbsolute path = false ∧ ((pieces path).dropWhile (· == ".")).head? = some ""

instance (path : String) : Decidable (Hollow path) := inferInstanceAs (Decidable (_ ∧ _))

/-- Only dots keep a search at the dot, so what comes behind them is no emptier than it was. -/
theorem apart_extend {names : List String} (bare : Bare path) (whole : Whole piece)
    (apart : path = "." → ((piece :: names).dropWhile (· == ".")).head? ≠ some "")
    (still : extend path piece = ".") : (names.dropWhile (· == ".")).head? ≠ some "" := by
  by_cases dot : path = "."
  · rw [dot, extend_current] at still
    have kept := apart dot
    rwa [still, List.dropWhile_cons_of_pos (by decide)] at kept
  · -- Elsewhere a piece makes a path of two pieces at least.
    rw [extend_bare bare dot] at still
    obtain ⟨front, nonempty, joined, -⟩ := pieces_join bare.nonempty whole
    have short := congrArg List.length joined
    have long := List.length_pos_iff.2 nonempty
    rw [still, List.length_append] at short
    change 1 = front.length + 1 at short
    omega

/-- The names of a path lead a search to where they lead from the location it is at. -/
theorem search_names {trail : List Component} {names : List String}
    (reaches : Reaches tree path trail here) (whole : ∀ name ∈ names, Whole name)
    (apart : path = "." → (names.dropWhile (· == ".")).head? ≠ some "")
    (walked : names.foldlM tree.follow here = .ok there)
    (fits : room path + (names.map (·.utf8ByteSize + 1)).sum ≤ FileTree.maxPathSize + 1)
    (others : List PatternPiece) :
    search tree (names.map .name ++ others) path = search tree others (extendAll path names) ∧
      Reaches tree (extendAll path names) (trail ++ names.filterMap Component.ofPiece?) there := by
  induction names generalizing path here trail with
  | nil =>
    cases walked
    rw [List.filterMap_nil, List.append_nil]
    exact ⟨rfl, reaches⟩
  | cons name names ih =>
    obtain ⟨single, further⟩ := List.forall_mem_cons.1 whole
    rw [List.map_cons, List.sum_cons] at fits
    obtain ⟨middle, followed, behind⟩ := FileTree.walk_cons.1 walked
    have nonempty : path = "." → name ≠ "" := by
      rintro dot rfl
      exact apart dot rfl
    have size := room_extend reaches.bare name
    have next := reaches.extend single nonempty followed (by omega)
    have apart := apart_extend reaches.bare single apart
    obtain ⟨led, there⟩ := ih next further apart behind (by omega)
    rw [List.map_cons, List.cons_append, search_name reaches followed next]
    refine ⟨led, ?_⟩
    rwa [filterMap_pieces, ← List.append_assoc]

/-- A search that begins at the dot comes nowhere by names that begin hollow. -/
theorem search_hollow (tree : FileTree) {names : List String}
    (hollow : (names.dropWhile (· == ".")).head? = some "") (others : List PatternPiece) :
    search tree (names.map .name ++ others) "." = [] := by
  induction names with
  | nil => cases hollow
  | cons name names ih =>
    rw [List.map_cons, List.cons_append, search]
    by_cases dot : name = "."
    · subst dot
      rw [List.dropWhile_cons_of_pos (by decide)] at hollow
      rw [if_pos (show components "." = [.current] by decide), ih hollow, ite_self]
    · rw [List.dropWhile_cons_of_neg (by simpa using dot)] at hollow
      obtain rfl := Option.some.inj hollow
      have nowhere : tree.pathExists "" = false := by
        rw [FileTree.pathExists, FileTree.at?, FileTree.resolve, if_pos rfl]
        rfl
      rw [if_pos (show components "." = [.current] by decide)]
      exact if_neg (by simp [nowhere])

/-! ## What names end with -/

theorem someRest_iff (fits : List Char → Bool) (text : List Char) :
    Pattern.someRest fits text = true ↔ ∃ rest, rest <:+ text ∧ fits rest = true := by
  induction text with
  | nil => simp [Pattern.someRest]
  | cons char text ih =>
    simp only [Pattern.someRest, Bool.or_eq_true, ih, List.suffix_cons_iff]
    constructor
    · rintro (whole | ⟨rest, behind, accepted⟩)
      · exact ⟨_, .inl rfl, whole⟩
      · exact ⟨rest, .inr behind, accepted⟩
    · rintro ⟨rest, rfl | behind, accepted⟩
      · exact .inl accepted
      · exact .inr ⟨rest, behind, accepted⟩

theorem accepts_literals (expected text : List Char) :
    Pattern.accepts (expected.map .literal) text = true ↔ text = expected := by
  induction expected generalizing text with
  | nil => cases text <;> simp [Pattern.accepts]
  | cons char expected ih =>
    cases text with
    | nil => simp [Pattern.accepts]
    | cons first text =>
      simp only [List.map_cons, Pattern.accepts, Bool.and_eq_true, beq_iff_eq, ih,
        List.cons.injEq]
      exact and_congr_left' eq_comm

/-- A name ends as those of schema files do. -/
def SchemaName (name : String) : Prop := ".prisma".toList <:+ name.toList

instance (name : String) : Decidable (SchemaName name) :=
  inferInstanceAs (Decidable (".prisma".toList <:+ name.toList))

theorem fits_suffixPiece (name : String) : fits suffixPiece name = true ↔ SchemaName name := by
  show Pattern.someRest (Pattern.accepts (".prisma".toList.map .literal)) name.toList = true ↔ _
  rw [someRest_iff]
  simp only [accepts_literals, exists_eq_right, SchemaName]

/-! ## All that is below -/

theorem reaches_extendAll {trail : List Component} {names : List String}
    (reaches : Reaches tree path trail here) (fits : ∀ name ∈ names, Name name) :
    Bare (extendAll path names) ∧
      Path.steps (extendAll path names) = trail ++ names.map .normal := by
  have bare := reaches.bare
  have same := reaches.steps_eq
  clear reaches
  induction names generalizing path trail with
  | nil => exact ⟨bare, by rw [List.map_nil, List.append_nil]; exact same⟩
  | cons name names ih =>
    obtain ⟨single, further⟩ := List.forall_mem_cons.1 fits
    have next := steps_extend bare single.whole
    rw [single.ofPiece?, same] at next
    obtain ⟨kept, led⟩ := ih further (bare_extend bare single.whole fun _ => single.nonempty) next
    exact ⟨kept, by rw [List.map_cons, List.append_cons]; exact led⟩

/-- The path of an entry below, as a search puts it together. -/
theorem components_extendAll {trail : List Component} {names : List String}
    (reaches : Reaches tree path trail here) (fits : ∀ name ∈ names, Name name)
    (nonempty : names ≠ []) : components (extendAll path names) = trail ++ names.map .normal := by
  obtain ⟨bare, same⟩ := reaches_extendAll reaches fits
  have more : extendAll path names ≠ "." := by
    intro dot
    rw [dot] at same
    have still : [] = trail ++ names.map Component.normal := same
    exact nonempty (List.map_eq_nil_iff.1 (List.append_eq_nil_iff.1 still.symm).2)
  rw [components_eq_steps (bare.lead.resolve_left more), same]

/-- From where a search is, all that is below and is named as a schema file is found. -/
theorem mem_search_below {trail : List Component} (reaches : Reaches tree path trail here)
    (file : String) :
    file ∈ search tree [.directories, suffixPiece] path ↔
      ∃ names name, (tree.get? (here ++ (names ++ [name]))).isSome = true ∧ SchemaName name ∧
        file = extendAll path (names ++ [name]) := by
  have alone : search tree [] = fun path => [path] := rfl
  have named : suffixPiece ≠ .directories := by rintro ⟨⟩
  rw [search, alone]
  case x_2 => exact named
  simp only [List.flatMap_singleton', List.mem_filterMap, Prod.exists]
  rw [FileTree.descend, reaches.resolved]
  constructor
  · rintro ⟨below, entry, listed, chosen⟩
    cases last : below.getLast? with
    | none =>
      rw [last] at chosen
      cases chosen
    | some name =>
      rw [last] at chosen
      obtain ⟨names, rfl⟩ := List.getLast?_eq_some_iff.1 last
      obtain ⟨suffix, same⟩ := Option.ite_none_right_eq_some.1 chosen
      refine ⟨names, name, ?_, (fits_suffixPiece name).1 suffix, (Option.some.inj same).symm⟩
      exact (tree.exists_mem_below_iff here (by simp)).1 ⟨entry, listed⟩
  · rintro ⟨names, name, present, suffix, rfl⟩
    obtain ⟨entry, listed⟩ := (tree.exists_mem_below_iff here (by simp)).2 present
    refine ⟨names ++ [name], entry, listed, ?_⟩
    rw [List.getLast?_concat]
    exact if_pos ((fits_suffixPiece name).2 suffix)

/-! ## Directories -/

/-- The path of a directory that a search takes as it is written. -/
structure Literal (path : String) : Prop where
  plain : Pattern.Plain path.toList
  solid : ¬ Hollow path

instance (path : String) : Decidable (Literal path) :=
  decidable_of_iff (Pattern.Plain path.toList ∧ ¬ Hollow path)
    ⟨fun ⟨plain, solid⟩ => ⟨plain, solid⟩, fun ⟨plain, solid⟩ => ⟨plain, solid⟩⟩

theorem isAbsolute_patternBelow (nonempty : path ≠ "") :
    isAbsolute (patternBelow path) = isAbsolute path := by
  have filled : path.toList ≠ [] := by simpa using nonempty
  rw [patternBelow, isAbsolute, String.toList_append, List.head?_append_of_ne_nil _ filled,
    isAbsolute]

theorem reaches_root (tree : FileTree) : Reaches tree "/" [.root] [] where
  bare := bare_root
  steps_eq := by decide
  resolved := by
    have still : tree.follow [] "" = .ok [] := by simp [FileTree.follow, FileTree.get?]
    have pieces : Path.pieces "/" = [""] ++ [""] := by decide
    have origin : tree.origin "/" = [] := if_pos (by decide)
    refine FileTree.resolve_eq_ok_iff.2 ⟨by decide, by decide, ?_⟩
    rw [pieces, origin, List.foldlM_append, FileTree.follow_alone, still]
    exact (FileTree.follow_alone tree [] "").trans still

/-- The dot leads to the directory that commands run in, if it is one. -/
theorem reaches_current (home : tree.get? tree.workingDirectory = some .directory) :
    Reaches tree "." [] tree.workingDirectory where
  bare := bare_current
  steps_eq := by decide
  resolved := by
    have still : tree.follow tree.workingDirectory "." = .ok tree.workingDirectory := by
      rw [FileTree.follow, home]
      exact if_pos (.inr rfl)
    have origin : tree.origin "." = tree.workingDirectory := if_neg (by decide)
    refine FileTree.resolve_eq_ok_iff.2 ⟨by decide, by decide, ?_⟩
    rw [pieces_whole (by decide), origin, FileTree.follow_alone, still]

/-- A search below a directory begins where the directory is, at a path of the same steps. -/
theorem exists_reaches (literal : Literal path) (resolved : tree.resolve path = .ok here) :
    ∃ root, Reaches tree root (Path.steps path) here ∧
      filesBelow tree path = .ok (search tree [.directories, suffixPiece] root) := by
  obtain ⟨nonempty, short, walked⟩ := FileTree.resolve_eq_ok_iff.1 resolved
  have whole (name : String) (listed : name ∈ pieces path) : Whole name :=
    whole_of_mem_pieces listed
  have size := sum_size_pieces path
  obtain ⟨elements, parsed⟩ := exists_parse_patternBelow literal.plain
  rw [filesBelow_eq, parsed, leadingPieces_plain literal.plain,
    isAbsolute_patternBelow nonempty]
  by_cases absolute : isAbsolute path = true
  · obtain ⟨others, split⟩ := exists_pieces_of_isAbsolute absolute
    have still : tree.follow [] "" = .ok [] := by simp [FileTree.follow, FileTree.get?]
    rw [FileTree.origin, if_pos absolute, split, List.foldlM_cons, still] at walked
    rw [split] at whole size
    have fits : room "/" + (others.map (·.utf8ByteSize + 1)).sum ≤ FileTree.maxPathSize + 1 := by
      rw [List.map_cons, List.sum_cons] at size
      rw [show room "/" = 1 from rfl]
      have empty : "".utf8ByteSize = 0 := rfl
      omega
    obtain ⟨led, there⟩ := search_names (reaches_root tree)
      (fun name listed => whole name (List.mem_cons_of_mem _ listed))
      (fun dot => absurd dot (by decide)) walked fits [.directories, suffixPiece]
    refine ⟨extendAll "/" others, ?_, ?_⟩
    · rw [Path.steps, if_pos absolute, split]
      exact there
    · rw [if_pos absolute, if_pos absolute, split, ← led]
      rfl
  · rw [FileTree.origin, if_neg absolute] at walked
    have home := FileTree.directory_of_walk (pieces_ne_nil path) walked
    have fits : room "." + ((pieces path).map (·.utf8ByteSize + 1)).sum ≤
        FileTree.maxPathSize + 1 := by
      rw [show room "." = 0 from rfl]
      omega
    obtain ⟨led, there⟩ := search_names (reaches_current home) whole
      (fun _ hollow => literal.solid ⟨Bool.eq_false_iff.2 absolute, hollow⟩) walked fits
      [.directories, suffixPiece]
    refine ⟨extendAll "." (pieces path), ?_, ?_⟩
    · rw [Path.steps, if_neg absolute]
      exact there
    · rw [if_neg absolute, if_neg absolute, ← led]
      rfl

/-- Nothing is listed below a directory whose path is hollow, whatever is there. -/
theorem filesBelow_hollow (tree : FileTree) (nonempty : path ≠ "")
    (plain : Pattern.Plain path.toList) (hollow : Hollow path) :
    filesBelow tree path = .ok [] := by
  obtain ⟨elements, parsed⟩ := exists_parse_patternBelow plain
  rw [filesBelow_eq, parsed, leadingPieces_plain plain, isAbsolute_patternBelow nonempty,
    hollow.1]
  exact congrArg Except.ok (search_hollow tree hollow.2 _)

end Discovery

/-- An entry below a directory that is named as a schema file, and a path that names it: the
steps of the directory's path, and then the names that lead down. -/
def FileTree.Under (tree : FileTree) (directory path : String) (entry : Entry) : Prop :=
  ∃ location names name, tree.resolve directory = .ok location ∧
    tree.get? (location ++ (names ++ [name])) = some entry ∧ Discovery.SchemaName name ∧
    Path.components path = Path.steps directory ++ (names ++ [name]).map .normal

/-- What is listed for a directory is what is below it and named as a schema file. -/
theorem Discovery.filesBelow_literal {tree : FileTree} (named : tree.Named) {path : String}
    (literal : Literal path) (directory : tree.isDirectory path = true) :
    ∃ files, filesBelow tree path = .ok files ∧ ∀ target,
      (∃ file ∈ files, Path.same file target = true) ↔ ∃ entry, tree.Under path target entry := by
  obtain ⟨location, resolved⟩ : ∃ location, tree.resolve path = .ok location := by
    cases led : tree.resolve path with
    | error fault =>
      rw [FileTree.isDirectory, FileTree.at?, led] at directory
      cases directory
    | ok location => exact ⟨location, rfl⟩
  obtain ⟨root, reaches, listed⟩ := exists_reaches literal resolved
  have trail {names : List String} {name : String}
      (present : (tree.get? (location ++ (names ++ [name]))).isSome = true) :
      Path.components (extendAll root (names ++ [name])) =
        Path.steps path ++ (names ++ [name]).map .normal :=
    components_extendAll reaches
      (fun part inside => named.name present (List.mem_append_right _ inside)) (by simp)
  refine ⟨_, listed, fun target => ⟨?_, ?_⟩⟩
  · rintro ⟨file, found, same⟩
    obtain ⟨names, name, present, suffix, rfl⟩ := (mem_search_below reaches file).1 found
    obtain ⟨entry, stands⟩ := Option.isSome_iff_exists.1 present
    refine ⟨entry, location, names, name, resolved, stands, suffix, ?_⟩
    rw [← trail present]
    exact (beq_iff_eq.1 same).symm
  · rintro ⟨entry, place, names, name, led, stands, suffix, same⟩
    obtain rfl : location = place := Except.ok.inj (resolved.symm.trans led)
    have present : (tree.get? (location ++ (names ++ [name]))).isSome = true := by
      rw [stands]
      rfl
    refine ⟨_, (mem_search_below reaches _).2 ⟨names, name, present, suffix, rfl⟩, ?_⟩
    rw [Path.same, trail present, same]
    exact beq_self_eq_true _

end SchemaLang
