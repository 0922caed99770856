import SchemaLang.Files.Discovery

/-! Finding files by shape. Paths are followed and files are found by names and by what is
a directory; what the files hold does not count. So a search gives the same list in trees
of one shape. A directory whose name has no wildcards in it makes a pattern without
mistakes. -/
namespace SchemaLang

namespace FileTree

/-! ## Shapes -/

/-- Trees with files and directories at the same places. What the files hold may differ. -/
structure SameShape (tree other : FileTree) : Prop where
  home : other.workingDirectory = tree.workingDirectory
  places : other.entries.map Prod.fst = tree.entries.map Prod.fst
  kinds : ∀ location,
    (other.get? location).map Entry.isDirectory = (tree.get? location).map Entry.isDirectory

/-- The names below a place are cut from the names of the tree. -/
private theorem below_names (tree : FileTree) (location : Location) :
    (tree.below location).map Prod.fst = (tree.entries.map Prod.fst).filterMap fun place =>
      if location.isPrefixOf place ∧ location.length < place.length then
        some (place.drop location.length)
      else none := by
  rw [below, List.map_filterMap, List.filterMap_map]
  congr 1
  funext ⟨place, entry⟩
  simp only [Function.comp]
  split <;> rfl

namespace SameShape

theorem refl (tree : FileTree) : SameShape tree tree := ⟨rfl, rfl, fun _ => rfl⟩

variable {tree other third : FileTree}

theorem trans (first : SameShape tree other) (second : SameShape other third) :
    SameShape tree third :=
  ⟨second.home.trans first.home, second.places.trans first.places,
    fun location => (second.kinds location).trans (first.kinds location)⟩

variable (shape : SameShape tree other)
include shape

/-- A place is a directory in one of the trees, a file or empty, as it is in the other. -/
theorem get?_cases (location : Location) :
    (tree.get? location = none ∧ other.get? location = none) ∨
    (tree.get? location = some .directory ∧ other.get? location = some .directory) ∨
    ∃ content content', tree.get? location = some (.file content) ∧
      other.get? location = some (.file content') := by
  have kind := shape.kinds location
  cases here : tree.get? location with
  | none =>
    rw [here] at kind
    exact .inl ⟨rfl, Option.map_eq_none_iff.1 kind⟩
  | some entry =>
    rw [here] at kind
    obtain ⟨entry', there, same⟩ := Option.map_eq_some_iff.1 kind
    cases entry <;> cases entry' <;> cases same
    · exact .inr (.inr ⟨_, _, rfl, there⟩)
    · exact .inr (.inl ⟨rfl, there⟩)

theorem follow (location : Location) (piece : String) :
    other.follow location piece = tree.follow location piece := by
  have next : other.get? (location ++ [piece]) = none ↔ tree.get? (location ++ [piece]) = none := by
    rcases shape.get?_cases (location ++ [piece]) with ⟨a, b⟩ | ⟨a, b⟩ | ⟨_, _, a, b⟩
    all_goals simp [a, b]
  unfold FileTree.follow
  rcases shape.get?_cases location with ⟨a, b⟩ | ⟨a, b⟩ | ⟨_, _, a, b⟩
  · rw [a, b]
  · rw [a, b]
    cases c : tree.get? (location ++ [piece]) with
    | none => rw [next.2 c]
    | some entry =>
      cases d : other.get? (location ++ [piece]) with
      | none => rw [next.1 d] at c; cases c
      | some entry' => rfl
  · rw [a, b]

theorem resolve (path : String) : other.resolve path = tree.resolve path := by
  have same : other.follow = tree.follow := funext fun location => funext (shape.follow location)
  unfold FileTree.resolve
  rw [same, shape.home]

theorem at?_kind (path : String) :
    (other.at? path).map Entry.isDirectory = (tree.at? path).map Entry.isDirectory := by
  unfold at?
  rw [shape.resolve]
  cases tree.resolve path with
  | error fault => rfl
  | ok location => exact shape.kinds location

theorem isDirectory (path : String) : other.isDirectory path = tree.isDirectory path := by
  have kind := shape.at?_kind path
  unfold FileTree.isDirectory
  cases a : tree.at? path <;> cases b : other.at? path <;> simp_all

theorem isFile (path : String) : other.isFile path = tree.isFile path := by
  have kind := shape.at?_kind path
  unfold FileTree.isFile
  cases a : tree.at? path with
  | none => simp_all
  | some entry =>
    rw [a] at kind
    obtain ⟨entry', there, same⟩ := Option.map_eq_some_iff.1 kind
    rw [there]
    cases entry <;> cases entry' <;> first | rfl | cases same

theorem pathExists (path : String) : other.pathExists path = tree.pathExists path := by
  have kind := congrArg Option.isSome (shape.at?_kind path)
  rwa [Option.isSome_map, Option.isSome_map] at kind

/-- What lies below a path has the same names. -/
theorem descend (path : String) :
    (other.descend path).map Prod.fst = (tree.descend path).map Prod.fst := by
  unfold FileTree.descend
  rw [shape.resolve]
  cases tree.resolve path with
  | error fault => rfl
  | ok location =>
    show (other.below location).map Prod.fst = (tree.below location).map Prod.fst
    rw [below_names, below_names, shape.places]

end SameShape

end FileTree

namespace Discovery

open FileTree

/-! ## Searches -/

/-- A choice that looks at names only is the same wherever the names are. -/
private theorem filterMap_names {α : Type} {choose : List String × Entry → Option α}
    {entries entries' : List (List String × Entry)}
    (only : ∀ names entry, choose (names, entry) = choose (names, .directory))
    (same : entries'.map Prod.fst = entries.map Prod.fst) :
    entries'.filterMap choose = entries.filterMap choose := by
  have split : choose = (fun names => choose (names, .directory)) ∘ Prod.fst :=
    funext fun (names, entry) => only names entry
  rw [split, ← List.filterMap_map, ← List.filterMap_map, same]

/-- What comes behind a piece ends as the whole does. -/
private theorem getLast?_tail {piece : PatternPiece} {others : List PatternPiece}
    (last : (piece :: others).getLast? ≠ some .directories) :
    others.getLast? ≠ some .directories := by
  cases others with
  | nil => simp
  | cons next others => rwa [List.getLast?_cons_cons] at last

/-- Trees of one shape are searched alike, unless directories are what is searched for. -/
theorem search_congr {tree other : FileTree} (shape : SameShape tree other) :
    (pieces : List PatternPiece) → pieces.getLast? ≠ some .directories →
      search other pieces = search tree pieces
  | [], _ => rfl
  | .name text :: others, last => by
    have further := search_congr shape others (getLast?_tail last)
    funext path
    simp only [search, shape.isDirectory, shape.pathExists, further]
  | .wild elements :: others, last => by
    have further := search_congr shape others (getLast?_tail last)
    funext path
    simp only [search, shape.isDirectory, further]
    rw [filterMap_names (fun _ _ => rfl) (shape.descend path)]
  | [.directories], last => absurd rfl last
  | .directories :: .directories :: others, last => by
    have further := search_congr shape (.directories :: others) (getLast?_tail last)
    funext path
    simp only [search, further]
  | .directories :: .name text :: others, last => by
    have further := search_congr shape others (getLast?_tail (getLast?_tail last))
    funext path
    simp only [search, further]
    rw [filterMap_names (fun _ _ => rfl) (shape.descend path)]
  | .directories :: .wild elements :: others, last => by
    have further := search_congr shape others (getLast?_tail (getLast?_tail last))
    funext path
    simp only [search, further]
    rw [filterMap_names (fun _ _ => rfl) (shape.descend path)]

end Discovery

/-! ## Patterns below a directory -/

namespace Path

theorem splitSlashes_ne_nil (text : List Char) : splitSlashes text ≠ [] := by
  fun_cases splitSlashes text <;> simp

theorem splitSlashes_append (front back : List Char) :
    splitSlashes (front ++ '/' :: back) = splitSlashes front ++ splitSlashes back := by
  fun_induction splitSlashes front with
  | case1 => rfl
  | case2 rest ih => rw [List.cons_append, splitSlashes, ih, List.cons_append]
  | case3 char rest plain empty ih => exact absurd empty (splitSlashes_ne_nil rest)
  | case4 char rest plain piece pieces split ih =>
    rw [List.cons_append, splitSlashes, ih, split]
    · rfl
    · exact plain

/-- The pieces of a text have no other characters than the text. -/
theorem mem_of_mem_splitSlashes {text piece : List Char} {char : Char}
    (found : piece ∈ splitSlashes text) (inside : char ∈ piece) : char ∈ text := by
  fun_induction splitSlashes text generalizing piece with
  | case1 =>
    cases List.mem_singleton.1 found
    cases inside
  | case2 rest ih =>
    rcases List.mem_cons.1 found with rfl | later
    · cases inside
    · exact List.mem_cons_of_mem _ (ih later inside)
  | case3 first rest plain empty ih => exact absurd empty (splitSlashes_ne_nil rest)
  | case4 first rest plain head pieces split ih =>
    rw [split] at ih
    rcases List.mem_cons.1 found with rfl | later
    · rcases List.mem_cons.1 inside with rfl | within
      · exact List.mem_cons_self
      · exact List.mem_cons_of_mem _ (ih List.mem_cons_self within)
    · exact List.mem_cons_of_mem _ (ih (List.mem_cons_of_mem _ later) inside)

end Path

namespace Pattern

/-- A text without wildcards. -/
def Plain (text : List Char) : Prop := ∀ char ∈ text, char ∉ ['*', '?', '[']

instance (text : List Char) : Decidable (Plain text) := List.decidableBAll _ text

/-- A text without wildcards in front of another is taken as it is. -/
theorem elements_plain {front : List Char} (plain : Plain front) (rest : List Char) (index : Nat)
    (starts : Bool) : ∃ starts', elements index starts (front ++ rest).length (front ++ rest) =
      (elements (index + front.length) starts' rest.length rest).map
        (front.map .literal ++ ·) := by
  induction front generalizing index starts with
  | nil =>
    refine ⟨starts, ?_⟩
    cases found : elements index starts rest.length rest <;> simp [found, Except.map]
  | cons char front ih =>
    obtain ⟨here, others⟩ := List.forall_mem_cons.1 plain
    simp only [List.mem_cons, List.not_mem_nil, or_false, not_or] at here
    obtain ⟨star, mark, bracket⟩ := here
    obtain ⟨starts', same⟩ := ih others (index + 1) (char == '/')
    refine ⟨starts', ?_⟩
    have next : index + 1 + front.length = index + (char :: front).length := by
      rw [List.length_cons]
      omega
    rw [List.cons_append, List.length_cons, elements, same, next]
    · cases elements (index + (char :: front).length) starts' rest.length rest <;> rfl
    · exact mark
    · exact fun _ same => absurd same star
    · exact fun _ same => absurd same star
    · exact star
    · exact bracket

/-- A text without wildcards is a pattern. -/
theorem parse_plain {text : List Char} (plain : Plain text) :
    parse text = .ok (text.map .literal) := by
  obtain ⟨starts, same⟩ := elements_plain plain [] 0 true
  rw [List.append_nil] at same
  rw [parse, same]
  simp [elements, Except.map]

end Pattern

namespace Discovery

open FileTree

theorem plainText?_literals (text : List Char) :
    plainText? (text.map .literal) = some text := by
  induction text with
  | nil => rfl
  | cons char text ih => rw [List.map_cons, plainText?, ih, Option.map_some]

theorem piece_plain {text : String} (plain : Pattern.Plain text.toList) :
    piece text = .ok (.name text) := by
  rw [piece, Pattern.parse_plain plain]
  simp only [bind, Except.bind, plainText?_literals, String.ofList_toList]
  rfl

theorem mapM_piece_plain {texts : List String}
    (plain : ∀ text ∈ texts, Pattern.Plain text.toList) :
    texts.mapM piece = .ok (texts.map .name) := by
  induction texts with
  | nil => rfl
  | cons text texts ih =>
    obtain ⟨here, others⟩ := List.forall_mem_cons.1 plain
    rw [List.mapM_cons, piece_plain here, ih others]
    rfl

/-- The last piece of the pattern for schema files: anything that ends as they do. -/
def suffixPiece : PatternPiece := .wild (.anyRun :: ".prisma".toList.map .literal)

theorem pieces_patternBelow (path : String) :
    Path.pieces (patternBelow path) = Path.pieces path ++ ["**", "*.prisma"] := by
  have split : (patternBelow path).toList = path.toList ++ '/' :: "**/*.prisma".toList := by
    rw [patternBelow, String.toList_append]
    rfl
  rw [Path.pieces, split, Path.splitSlashes_append, List.map_append]
  rfl

/-- The pieces of a directory's pattern, in front of the two that every such pattern has. -/
def leadingPieces (path : String) : Except PatternError (List PatternPiece) :=
  ((Path.pieces path).drop (if Path.isAbsolute (patternBelow path) then 1 else 0)).mapM piece

theorem filesBelow_eq (tree : FileTree) (path : String) :
    filesBelow tree path = do
      let _ ← Pattern.parse (patternBelow path).toList
      let pieces ← leadingPieces path
      return search tree (pieces ++ [.directories, suffixPiece])
        (if Path.isAbsolute (patternBelow path) then "/" else ".") := by
  have last : ["**", "*.prisma"].mapM piece = .ok [.directories, suffixPiece] := rfl
  have nonempty : 1 ≤ (Path.pieces path).length := by
    rw [Path.pieces, List.length_map]
    exact List.length_pos_iff.2 (Path.splitSlashes_ne_nil _)
  unfold filesBelow leadingPieces
  simp only [pieces_patternBelow]
  split
  · simp only [List.drop_append_of_le_length nonempty, List.mapM_append, last]
    cases ((Path.pieces path).drop 1).mapM piece <;> rfl
  · simp only [List.drop_zero, List.mapM_append, last]
    cases (Path.pieces path).mapM piece <;> rfl

/-- Trees of one shape have the same files below a directory. -/
theorem filesBelow_congr {tree other : FileTree} (shape : SameShape tree other) (path : String) :
    filesBelow other path = filesBelow tree path := by
  rw [filesBelow_eq, filesBelow_eq]
  have same (pieces : List PatternPiece) :
      search other (pieces ++ [.directories, suffixPiece]) =
        search tree (pieces ++ [.directories, suffixPiece]) :=
    search_congr shape _ (by simp [suffixPiece])
  simp only [same]

/-- Trees of one shape have the same schema files. -/
theorem discover_congr {tree other : FileTree} (shape : SameShape tree other)
    (paths : List String) : discover other paths = discover tree paths := by
  have same : filesAt other = filesAt tree := by
    funext path
    simp only [filesAt, shape.isFile, shape.isDirectory, filesBelow_congr shape]
  rw [discover, discover, same]

/-- A directory without wildcards in its name makes a pattern. -/
theorem exists_parse_patternBelow {path : String} (plain : Pattern.Plain path.toList) :
    ∃ elements, Pattern.parse (patternBelow path).toList = .ok elements := by
  obtain ⟨starts, same⟩ := Pattern.elements_plain plain "/**/*.prisma".toList 0 true
  rw [patternBelow, String.toList_append, Pattern.parse, same]
  exact ⟨_, rfl⟩

/-- The pieces of such a pattern are names. -/
theorem leadingPieces_plain {path : String} (plain : Pattern.Plain path.toList) :
    leadingPieces path = .ok (((Path.pieces path).drop
      (if Path.isAbsolute (patternBelow path) then 1 else 0)).map .name) := by
  refine mapM_piece_plain fun text listed => ?_
  obtain ⟨inner, found, rfl⟩ := List.mem_map.1 (List.mem_of_mem_drop listed)
  rw [String.toList_ofList]
  exact fun char inside => plain char (Path.mem_of_mem_splitSlashes found inside)

/-- Files can be listed below a directory without wildcards in its name. -/
theorem filesBelow_plain {path : String} (plain : Pattern.Plain path.toList) (tree : FileTree) :
    ∃ files, filesBelow tree path = .ok files := by
  obtain ⟨elements, parsed⟩ := exists_parse_patternBelow plain
  rw [filesBelow_eq, parsed, leadingPieces_plain plain]
  exact ⟨_, rfl⟩

end Discovery

end SchemaLang
