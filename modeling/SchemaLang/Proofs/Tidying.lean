import SchemaLang.Proofs.Listing
import SchemaLang.Proofs.RoundTrip

/-! Trees whose files are replaced by their canonical texts. A tree is tidied file by file;
files that cannot be read or do not parse stay as they are. What a tidied tree holds under a
path is what the path led to before, or its canonical text, so tidying never spoils a file
that comes later under the same or another name, and a second round finds nothing to do. -/
namespace SchemaLang

/-- The canonical text of a text that parses. -/
def canonical? (source : String) : Option String :=
  match Document.parse source with
  | .ok document => document.print.toOption
  | .error _ => none

theorem canonical?_of_error {source : String} {error : ParseError}
    (parsed : Document.parse source = .error error) : canonical? source = none := by
  unfold canonical?
  rw [parsed]

/-- Every text that parses has a canonical text, the one its tree is printed as. -/
theorem canonical?_of_ok {source : String} {document : Document}
    (parsed : Document.parse source = .ok document) :
    ∃ canonical, document.print = .ok canonical ∧ canonical? source = some canonical := by
  obtain ⟨canonical, -, wrote, -⟩ := Document.print_stable parsed
  refine ⟨canonical, wrote, ?_⟩
  unfold canonical?
  rw [parsed]
  simp only [wrote]
  rfl

/-- A canonical text is its own canonical text. -/
theorem canonical?_canonical {source canonical : String}
    (found : canonical? source = some canonical) : canonical? canonical = some canonical := by
  cases parsed : Document.parse source with
  | error error =>
    rw [canonical?_of_error parsed] at found
    cases found
  | ok document =>
    obtain ⟨text, read, wrote, reparsed, -, again⟩ := Document.print_stable parsed
    obtain ⟨text', wrote', found'⟩ := canonical?_of_ok parsed
    cases wrote.symm.trans wrote'
    cases found'.symm.trans found
    unfold canonical?
    rw [reparsed]
    simp only [again]
    rfl

/-- Text is stored so that it can be read again. -/
theorem fromUTF8?_toUTF8 (text : String) : String.fromUTF8? text.toUTF8 = some text :=
  dif_pos text.isValidUTF8

theorem fromUTF8?_eq_some {content : ByteArray} {text : String}
    (read : String.fromUTF8? content = some text) : content = text.toUTF8 := by
  unfold String.fromUTF8? at read
  split at read
  · cases read
    rfl
  · cases read

/-- A place holds one text. -/
theorem text_unique {entry : Option Entry} {text text' : String}
    (here : entry = some (.file text.toUTF8)) (there : entry = some (.file text'.toUTF8)) :
    text = text' := by
  have same := Entry.file.inj (Option.some.inj (here.symm.trans there))
  have read := fromUTF8?_toUTF8 text
  rw [same, fromUTF8?_toUTF8] at read
  exact (Option.some.inj read).symm

namespace FileTree

variable {tree : FileTree} {file source canonical : String} {location : Location}

/-! ## Reading and writing -/

/-- A file that can be read leads to the place that holds its text. -/
theorem read_eq_ok : tree.read file = .ok source ↔
    ∃ location, tree.resolve file = .ok location ∧
      tree.get? location = some (.file source.toUTF8) := by
  unfold read
  cases resolved : tree.resolve file with
  | error fault => exact ⟨nofun, nofun⟩
  | ok location =>
    simp only [bind, Except.bind, Except.ok.injEq, exists_eq_left']
    constructor
    · intro found
      split at found
      · cases found
      · cases found
      · rename_i content here
        split at found
        · rename_i decoded
          cases found
          rw [here, fromUTF8?_eq_some decoded]
        · cases found
    · intro here
      rw [here]
      simp only [fromUTF8?_toUTF8]

/-- Reading depends on where a path leads and on what stands there. -/
theorem read_congr {after : FileTree} (same : after.resolve file = tree.resolve file)
    (kept : ∀ location, tree.resolve file = .ok location →
      after.get? location = tree.get? location) :
    after.read file = tree.read file := by
  unfold read
  rw [same]
  cases resolved : tree.resolve file with
  | error fault => rfl
  | ok location =>
    simp only [bind, Except.bind]
    rw [kept location resolved]

/-- Changing what stands at each place changes what is found there. -/
private theorem lookup_map (change : Location → Entry → Entry)
    (entries : List (Location × Entry)) (place : Location) :
    (entries.map fun entry => (entry.1, change entry.1 entry.2)).lookup place =
      (entries.lookup place).map (change place) := by
  induction entries with
  | nil => rfl
  | cons first entries ih =>
    obtain ⟨name, entry⟩ := first
    by_cases here : place = name
    · simp [here]
    · have apart : (place == name) = false := beq_eq_false_iff_ne.2 here
      simp [List.lookup_cons, apart, ih]

/-- Putting a content replaces what stands at its place, if anything does. -/
theorem get?_put (location place : Location) (content : ByteArray) :
    (tree.put location content).get? place =
      if place = location ∧ place ≠ [] then (tree.get? place).map fun _ => .file content
      else tree.get? place := by
  have moved : (tree.put location content).entries = tree.entries.map fun entry =>
      (entry.1, if entry.1 = location then Entry.file content else entry.2) := by
    apply List.map_congr_left
    rintro ⟨name, entry⟩ -
    dsimp only
    split <;> rfl
  unfold get?
  rw [moved, lookup_map fun name entry => if name = location then Entry.file content else entry]
  by_cases root : place = []
  · simp [root]
  · by_cases here : place = location
    · subst here
      simp [root]
    · simp [root, here]

theorem places_put (tree : FileTree) (location : Location) (content : ByteArray) :
    (tree.put location content).entries.map Prod.fst = tree.entries.map Prod.fst := by
  rw [put, List.map_map]
  apply List.map_congr_left
  rintro ⟨name, entry⟩ -
  simp only [Function.comp]
  split <;> rfl

/-! ## How files stand -/

/-- Whether a path leads to a text. -/
def readable (tree : FileTree) (file : String) : Bool := (tree.read file).toBool

/-- Whether a path leads to a text that does not parse. -/
def broken (tree : FileTree) (file : String) : Bool :=
  match tree.read file with
  | .ok source => !(Document.parse source).toBool
  | .error _ => false

/-- Whether a path leads to a text that parses and is not canonical. -/
def unformatted (tree : FileTree) (file : String) : Bool :=
  match tree.read file with
  | .ok source => (canonical? source).any (· != source)
  | .error _ => false

/-- The part of a list in front of the first file that cannot be read. -/
def reached (tree : FileTree) (files : List String) : List String :=
  files.takeWhile tree.readable

theorem readable_of_ok {source : String} (read : tree.read file = .ok source) :
    tree.readable file = true := by
  rw [readable, read]
  rfl

theorem readable_of_error {fault : ReadFault} (read : tree.read file = .error fault) :
    tree.readable file = false := by
  rw [readable, read]
  rfl

theorem broken_of_ok {source : String} (read : tree.read file = .ok source) :
    tree.broken file = (canonical? source).isNone := by
  unfold broken
  rw [read]
  cases parsed : Document.parse source with
  | error error =>
    rw [canonical?_of_error parsed]
    simp only [parsed]
    rfl
  | ok document =>
    obtain ⟨canonical, -, found⟩ := canonical?_of_ok parsed
    rw [found]
    simp only [parsed]
    rfl

theorem broken_of_error {fault : ReadFault} (read : tree.read file = .error fault) :
    tree.broken file = false := by
  unfold broken
  rw [read]

theorem unformatted_of_ok {source : String} (read : tree.read file = .ok source) :
    tree.unformatted file = (canonical? source).any (· != source) := by
  unfold unformatted
  rw [read]

theorem unformatted_of_error {fault : ReadFault} (read : tree.read file = .error fault) :
    tree.unformatted file = false := by
  unfold unformatted
  rw [read]

/-! ## Tidied trees -/

/-- A tree of the same shape in which every file holds what it held before, or the
canonical text of that. -/
structure Tidied (tree after : FileTree) : Prop extends SameShape tree after where
  kept : ∀ location, after.get? location = tree.get? location ∨
    ∃ source canonical, canonical? source = some canonical ∧
      tree.get? location = some (.file source.toUTF8) ∧
      after.get? location = some (.file canonical.toUTF8)

namespace Tidied

variable {after third : FileTree}

theorem refl (tree : FileTree) : Tidied tree tree := ⟨.refl tree, fun _ => .inl rfl⟩

/-- Tidying twice is tidying once, since a canonical text has no other. -/
theorem trans (first : Tidied tree after) (second : Tidied after third) : Tidied tree third := by
  refine ⟨first.toSameShape.trans second.toSameShape, fun location => ?_⟩
  rcases second.kept location with same | ⟨source, canonical, found, here, there⟩
  · rw [same]
    exact first.kept location
  · rcases first.kept location with same | ⟨source', canonical', found', here', there'⟩
    · exact .inr ⟨source, canonical, found, same ▸ here, there⟩
    · obtain rfl := text_unique there' here
      cases found.symm.trans (canonical?_canonical found')
      exact .inr ⟨source', _, found', here', there⟩

variable (tidied : Tidied tree after)
include tidied

/-- What could be read is read as it was, or as its canonical text. -/
theorem read_ok (read : tree.read file = .ok source) : after.read file = .ok source ∨
    ∃ canonical, canonical? source = some canonical ∧ after.read file = .ok canonical := by
  obtain ⟨location, resolved, here⟩ := read_eq_ok.1 read
  rw [← tidied.resolve] at resolved
  rcases tidied.kept location with same | ⟨source', canonical, found, here', there⟩
  · exact .inl (read_eq_ok.2 ⟨location, resolved, same.trans here⟩)
  · obtain rfl := text_unique here' here
    exact .inr ⟨canonical, found, read_eq_ok.2 ⟨location, resolved, there⟩⟩

/-- What could not be read cannot be read, for the same reason. -/
theorem read_error {fault : ReadFault} (read : tree.read file = .error fault) :
    after.read file = .error fault := by
  rw [← read]
  refine read_congr (tidied.resolve file) fun location resolved => ?_
  rcases tidied.kept location with same | ⟨source, canonical, -, here, -⟩
  · exact same
  · cases read.symm.trans (read_eq_ok.2 ⟨location, resolved, here⟩)

/-- A canonical text under a path stays there. -/
theorem read_canonical (read : tree.read file = .ok canonical)
    (found : canonical? canonical = some canonical) : after.read file = .ok canonical := by
  rcases tidied.read_ok read with same | ⟨text, found', same⟩
  · exact same
  · cases found.symm.trans found'
    exact same

theorem broken (file : String) : after.broken file = tree.broken file := by
  cases read : tree.read file with
  | error fault => rw [broken_of_error read, broken_of_error (tidied.read_error read)]
  | ok source =>
    rw [broken_of_ok read]
    rcases tidied.read_ok read with same | ⟨canonical, found, same⟩
    · rw [broken_of_ok same]
    · rw [broken_of_ok same, found, canonical?_canonical found]

theorem readable : after.readable = tree.readable := by
  funext file
  cases read : tree.read file with
  | error fault =>
    rw [readable_of_error read, readable_of_error (tidied.read_error read)]
  | ok source =>
    rw [readable_of_ok read]
    rcases tidied.read_ok read with same | ⟨_, -, same⟩
    · exact readable_of_ok same
    · exact readable_of_ok same

end Tidied

/-! ## Tidying -/

/-- Replaces a file by its canonical text, if it has one and does not hold it already. -/
def tidy (tree : FileTree) (file : String) : FileTree :=
  match tree.read file with
  | .error _ => tree
  | .ok source =>
    match canonical? source with
    | none => tree
    | some canonical => if canonical != source then tree.write file canonical else tree

/-- Tidies files one after the other. -/
def tidyAll (tree : FileTree) (files : List String) : FileTree := files.foldl tidy tree

theorem tidy_of_error {fault : ReadFault} (read : tree.read file = .error fault) :
    tree.tidy file = tree := by
  unfold tidy
  rw [read]

theorem tidy_of_none (read : tree.read file = .ok source) (broken : canonical? source = none) :
    tree.tidy file = tree := by
  unfold tidy
  rw [read]
  simp only [broken]

theorem tidy_of_some (read : tree.read file = .ok source)
    (found : canonical? source = some canonical) :
    tree.tidy file = if canonical != source then tree.write file canonical else tree := by
  unfold tidy
  rw [read]
  simp only [found]

/-- Writing a file that can be read changes what stands at its place, and nothing else. -/
theorem get?_write (resolved : tree.resolve file = .ok location)
    (here : tree.get? location = some (.file source.toUTF8)) (canonical : String)
    (place : Location) :
    (tree.write file canonical).get? place =
      if place = location then some (.file canonical.toUTF8) else tree.get? place := by
  have below : location ≠ [] := by
    rintro rfl
    cases here
  rw [write, resolved]
  simp only [get?_put]
  by_cases same : place = location
  · subst same
    simp [below, here]
  · simp [same]

/-- Writing the canonical text of a file tidies a tree. -/
theorem tidied_write (read : tree.read file = .ok source)
    (found : canonical? source = some canonical) : Tidied tree (tree.write file canonical) := by
  obtain ⟨location, resolved, here⟩ := read_eq_ok.1 read
  have changed := get?_write resolved here canonical
  refine ⟨⟨?_, ?_, fun place => ?_⟩, fun place => ?_⟩
  · rw [write, resolved]
    rfl
  · rw [write, resolved]
    exact places_put ..
  · rw [changed]
    split
    · rename_i same
      rw [same, here]
      rfl
    · rfl
  · rw [changed]
    split
    · rename_i same
      rw [same]
      exact .inr ⟨source, canonical, found, here, rfl⟩
    · exact .inl rfl

theorem tidied_tidy (tree : FileTree) (file : String) : Tidied tree (tree.tidy file) := by
  cases read : tree.read file with
  | error fault =>
    rw [tidy_of_error read]
    exact .refl tree
  | ok source =>
    cases found : canonical? source with
    | none =>
      rw [tidy_of_none read found]
      exact .refl tree
    | some canonical =>
      rw [tidy_of_some read found]
      split
      · exact tidied_write read found
      · exact .refl tree

theorem tidied_tidyAll (tree : FileTree) (files : List String) :
    Tidied tree (tree.tidyAll files) := by
  induction files generalizing tree with
  | nil => exact .refl tree
  | cons file files ih => exact (tree.tidied_tidy file).trans (ih (tree.tidy file))

/-- A file that parses holds its canonical text once it is tidied. -/
theorem read_tidy (read : tree.read file = .ok source)
    (found : canonical? source = some canonical) : (tree.tidy file).read file = .ok canonical := by
  rw [tidy_of_some read found]
  split
  · obtain ⟨location, resolved, here⟩ := read_eq_ok.1 read
    refine read_eq_ok.2 ⟨location, ?_, ?_⟩
    · rw [(tidied_write read found).resolve, resolved]
    · rw [get?_write resolved here, if_pos rfl]
  · rename_i same
    have equal : canonical = source := by simpa using same
    rw [read, equal]

/-- The same for every file of a list. -/
theorem read_tidyAll {files : List String} (listed : file ∈ files)
    (read : tree.read file = .ok source) (found : canonical? source = some canonical) :
    (tree.tidyAll files).read file = .ok canonical := by
  induction files generalizing tree source with
  | nil => cases listed
  | cons first files ih =>
    have again := canonical?_canonical found
    rcases List.mem_cons.1 listed with rfl | later
    · exact (tidied_tidyAll _ files).read_canonical (read_tidy read found) again
    · rcases (tree.tidied_tidy first).read_ok read with same | ⟨text, found', same⟩
      · exact ih later same found
      · cases found.symm.trans found'
        exact ih later same again

/-- A file that does not lead to a place, or does not parse, leaves the place alone. -/
theorem get?_tidy (spared : ∀ source, tree.read file = .ok source →
      canonical? source = none ∨ tree.resolve file ≠ .ok location) :
    (tree.tidy file).get? location = tree.get? location := by
  cases read : tree.read file with
  | error fault => rw [tidy_of_error read]
  | ok source =>
    cases found : canonical? source with
    | none => rw [tidy_of_none read found]
    | some canonical =>
      have elsewhere : tree.resolve file ≠ .ok location :=
        (spared source read).resolve_left (by simp [found])
      obtain ⟨place, resolved, here⟩ := read_eq_ok.1 read
      rw [tidy_of_some read found]
      split
      · rw [get?_write resolved here, if_neg]
        rintro rfl
        exact elsewhere resolved
      · rfl

/-- Places to which no file of a list leads stay as they are, and so do those of files that
do not parse. -/
theorem get?_tidyAll {files : List String} (spared : ∀ file ∈ files, ∀ source,
      tree.read file = .ok source → canonical? source = none ∨ tree.resolve file ≠ .ok location) :
    (tree.tidyAll files).get? location = tree.get? location := by
  induction files generalizing tree with
  | nil => rfl
  | cons first files ih =>
    obtain ⟨here, others⟩ := List.forall_mem_cons.1 spared
    have tidied := tree.tidied_tidy first
    refine (ih fun file listed source read => ?_).trans (get?_tidy here)
    rw [tidied.resolve]
    cases before : tree.read file with
    | error fault => cases (tidied.read_error before).symm.trans read
    | ok text =>
      refine (others file listed text before).imp_left fun broken => ?_
      rcases tidied.read_ok before with same | ⟨canonical, found, -⟩
      · cases same.symm.trans read
        exact broken
      · cases broken.symm.trans found

/-- Tidied files are formatted, as far as they parse. -/
theorem unformatted_tidyAll {files : List String} (listed : file ∈ files) :
    (tree.tidyAll files).unformatted file = false := by
  have tidied := tree.tidied_tidyAll files
  cases read : tree.read file with
  | error fault => exact unformatted_of_error (tidied.read_error read)
  | ok source =>
    cases found : canonical? source with
    | none =>
      rcases tidied.read_ok read with same | ⟨canonical, found', -⟩
      · rw [unformatted_of_ok same, found]
        rfl
      · cases found.symm.trans found'
    | some canonical =>
      rw [unformatted_of_ok (read_tidyAll listed read found), canonical?_canonical found]
      simp

/-- A file that is formatted or does not parse needs no tidying. -/
theorem tidy_eq_self (neat : tree.unformatted file = false) : tree.tidy file = tree := by
  cases read : tree.read file with
  | error fault => exact tidy_of_error read
  | ok source =>
    cases found : canonical? source with
    | none => exact tidy_of_none read found
    | some canonical =>
      rw [unformatted_of_ok read, found] at neat
      rw [tidy_of_some read found, if_neg]
      exact ne_true_of_eq_false neat

theorem tidyAll_eq_self {files : List String}
    (neat : ∀ file ∈ files, tree.unformatted file = false) : tree.tidyAll files = tree := by
  induction files with
  | nil => rfl
  | cons first files ih =>
    obtain ⟨here, others⟩ := List.forall_mem_cons.1 neat
    show (tree.tidy first).tidyAll files = tree
    rw [tidy_eq_self here]
    exact ih others

end FileTree

end SchemaLang
