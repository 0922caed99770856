import Mathlib.Order.Bounds.Defs
import SchemaLang.Proofs.RoundTrip

/-! The shape of a canonical text, told by what a reader sees of it: its lines, the blank
ones among them, where a line begins and ends, and at which column the types of a model
stand. Trees that can be written have texts of this shape, and the text of blocks in front
of others is put together from both texts with a line feed between. -/
namespace SchemaLang

namespace Layout

/-! ## Lines -/

/-- A visible character of the plain alphabet. No blank and no line break, of whichever
kind, is one. -/
def Visible (char : Char) : Prop := '!'.toNat ≤ char.toNat ∧ char.toNat ≤ '~'.toNat

instance (char : Char) : Decidable (Visible char) :=
  inferInstanceAs (Decidable ('!'.toNat ≤ char.toNat ∧ char.toNat ≤ '~'.toNat))

/-- There is no line feed in a line, and it ends in a visible character. -/
structure Trimmed (line : List Char) : Prop where
  whole : '\n' ∉ line
  ends : ∃ char, line.getLast? = some char ∧ Visible char

/-- A line begins with two spaces and then a visible character. -/
def Indented (line : List Char) : Prop :=
  ∃ char others, line = ' ' :: ' ' :: char :: others ∧ Visible char

/-- The line of a field among others. In front of its type there are its name and spaces,
up to the column two behind the longest name. -/
structure FieldLine (fields : List Field) (field : Field) (line : List Char) : Prop where
  indented : Indented line
  aligned : ∃ longest gap behind,
    IsGreatest {length | ∃ other ∈ fields, other.name.name.length = length} longest ∧
    let front := "  ".toList ++ field.name.name.toList ++ List.replicate gap ' '
    line = front ++ field.type.name.name.toList ++ field.type.modifier.suffix.toList ++ behind ∧
      front.length = 2 + longest + 2 ∧ ∀ char, behind.head? = some char → char = ' '

/-- The lines of a block: its header, one line for each field or option, and the closing
brace. -/
inductive Shape : Definition → List (List Char) → Prop where
  | model {block : Model} {body : List (List Char)}
      (lines : List.Forall₂ (FieldLine block.fields) block.fields body) :
      Shape (.model block) (("model " ++ block.name.name ++ " \x7b").toList :: body ++ [['\x7d']])
  | config {block : Config} {body : List (List Char)}
      (lines : List.Forall₂ (fun _ => Indented) block.options body) :
      Shape (.config block)
        ((block.kind.keyword ++ " " ++ block.name.name ++ " \x7b").toList :: body ++ [['\x7d']])

/-! ## Ends of lines -/

theorem visible_of_part {char : Char} (part : isNamePart char = true) : Visible char := by
  simp only [isNamePart, isNameStart, Bool.or_eq_true, Bool.and_eq_true, decide_eq_true_eq,
    beq_iff_eq] at part
  rcases part with ((⟨low, high⟩ | ⟨low, high⟩) | ⟨low, high⟩) | rfl
  · exact ⟨Nat.le_trans (by decide) low, Nat.le_trans high (by decide)⟩
  · exact ⟨Nat.le_trans (by decide) low, Nat.le_trans high (by decide)⟩
  · exact ⟨Nat.le_trans (by decide) low, Nat.le_trans high (by decide)⟩
  · exact ⟨by decide, by decide⟩

theorem not_visible_lineFeed : ¬ Visible '\n' := by decide

theorem Trimmed.behind {back : List Char} (trimmed : Trimmed back) {front : List Char}
    (whole : '\n' ∉ front) : Trimmed (front ++ back) where
  whole := by simp [whole, trimmed.whole]
  ends := by
    obtain ⟨char, last, visible⟩ := trimmed.ends
    exact ⟨char, by simp [last], visible⟩

/-- What ends in a visible character can be ended with another one. -/
theorem trimmed_snoc {front : List Char} (whole : '\n' ∉ front) {char : Char}
    (visible : Visible char) : Trimmed (front ++ [char]) where
  whole := by
    rw [List.mem_append, List.mem_singleton]
    rintro (feed | rfl)
    · exact whole feed
    · exact not_visible_lineFeed visible
  ends := ⟨char, by simp, visible⟩

theorem trimmed_of_visible {text : List Char} (filled : text ≠ [])
    (visible : ∀ char ∈ text, Visible char) : Trimmed text where
  whole feed := not_visible_lineFeed (visible _ feed)
  ends := ⟨text.getLast filled, List.getLast?_eq_some_getLast filled,
    visible _ (List.getLast_mem filled)⟩

theorem visible_of_name {name : List Char} (named : isName name = true) :
    ∀ char ∈ name, Visible char := fun char found =>
  visible_of_part (List.all_eq_true.1 (isName_parts named) char found)

theorem trimmed_name {name : List Char} (named : isName name = true) : Trimmed name := by
  obtain ⟨first, others, rfl, -⟩ := isName_start named
  exact trimmed_of_visible (List.cons_ne_nil _ _) (visible_of_name named)

private theorem visible_of_dotted {name : List Char} (dotted : DottedName name) :
    ∀ char ∈ name, Visible char := by
  induction dotted with
  | one named => exact visible_of_name named
  | more named _ ih =>
    intro char found
    rcases List.mem_append.1 found with first | later
    · exact visible_of_name named char first
    · rcases List.mem_cons.1 later with rfl | others
      · exact ⟨by decide, by decide⟩
      · exact ih char others

theorem trimmed_markerName {name : List Char} (marked : MarkerName name) : Trimmed name := by
  obtain ⟨dotted⟩ := marked
  refine trimmed_of_visible (List.cons_ne_nil _ _) (List.forall_mem_cons.2 ⟨?_, ?_⟩)
  · exact ⟨by decide, by decide⟩
  · exact visible_of_dotted dotted

private theorem whole_of_isBody {body : List Char} (fits : Literal.isBody body = true) :
    '\n' ∉ body := by
  fun_induction Literal.isBody body with
  | case1 => simp
  | case2 | case3 | case4 | case5 => cases fits
  | case6 char rest line ih =>
    rw [List.mem_cons, List.mem_cons]
    rintro (feed | feed | feed)
    · cases feed
    · exact line feed.symm
    · exact ih fits feed
  | case7 char rest _ line _ _ _ ih =>
    rw [List.mem_cons]
    rintro (feed | feed)
    · exact line feed.symm
    · exact ih fits feed

/-! ## Values -/

theorem trimmed_inParens {texts : List (List Char)} (whole : ∀ text ∈ texts, '\n' ∉ text) :
    Trimmed (inParens texts) := by
  have inner : '\n' ∉ (texts.intersperse [',', ' ']).flatten := by
    cases texts with
    | nil => simp
    | cons first others =>
      rw [Printer.flatten_intersperse]
      simp_all
  have opened : '\n' ∉ '(' :: (texts.intersperse [',', ' ']).flatten := by simp [inner]
  exact trimmed_snoc opened ⟨by decide, by decide⟩

mutual

/-- The text of a value is a part of one line that can end it. -/
theorem expression_trimmed : (value : Expression) → value.Writable →
    ∃ text, expression value = .ok text ∧ Trimmed text
  | .string value _, printable => by
    replace printable : Literal.isPrintable value.toList = true := printable
    refine ⟨Literal.write value.toList, ?_, ?_⟩
    · rw [expression, literal, if_pos printable]
    · exact trimmed_snoc (by simp [whole_of_isBody printable]) ⟨by decide, by decide⟩
  | .boolean value _, _ => ⟨_, rfl, by cases value <;> exact trimmed_name rfl⟩
  | .call name arguments _, writable => by
    obtain ⟨texts, wrote, whole⟩ := expressions_whole arguments writable.2
    refine ⟨name.name.toList ++ inParens texts, by rw [expression, wrote]; rfl, ?_⟩
    exact (trimmed_inParens whole).behind (trimmed_name writable.1).whole

theorem expressions_whole : (values : List Expression) → Expression.AllWritable values →
    ∃ texts, expressions values = .ok texts ∧ ∀ text ∈ texts, '\n' ∉ text
  | [], _ => ⟨[], rfl, List.forall_mem_nil _⟩
  | value :: values, writable => by
    obtain ⟨text, wrote, trimmed⟩ := expression_trimmed value writable.1
    obtain ⟨texts, wroteAll, whole⟩ := expressions_whole values writable.2
    refine ⟨text :: texts, ?_, List.forall_mem_cons.2 ⟨trimmed.whole, whole⟩⟩
    rw [expressions, wrote, wroteAll]
    rfl

end

theorem marker_trimmed (mark : Attribute) (writable : mark.Writable) :
    ∃ text, marker mark = .ok text ∧ Trimmed text := by
  obtain ⟨name, arguments, span⟩ := mark
  obtain ⟨marked, writable⟩ := writable
  cases arguments with
  | nil => exact ⟨name.toList, rfl, trimmed_markerName marked⟩
  | cons argument arguments =>
    obtain ⟨texts, wrote, whole⟩ := expressions_whole _ writable
    refine ⟨name.toList ++ inParens texts, ?_, ?_⟩
    · rw [marker, if_neg (by simp), wrote]
      rfl
    · exact (trimmed_inParens whole).behind (trimmed_markerName marked).whole

/-! ## Lines of a body -/

private theorem foldl_longest (fields : List Field) (start : Nat) :
    let longest := fields.foldl (fun longest field => max longest field.name.name.length) start
    start ≤ longest ∧ (∀ field ∈ fields, field.name.name.length ≤ longest) ∧
      (longest = start ∨ ∃ field ∈ fields, field.name.name.length = longest) := by
  induction fields generalizing start with
  | nil => exact ⟨Nat.le_refl _, List.forall_mem_nil _, .inl rfl⟩
  | cons first others ih =>
    obtain ⟨above, each, reached⟩ := ih (max start first.name.name.length)
    rw [List.foldl_cons]
    refine ⟨by omega, List.forall_mem_cons.2 ⟨by omega, each⟩, ?_⟩
    rcases reached with same | ⟨field, found, same⟩
    · rcases Nat.le_total start first.name.name.length with less | more
      · exact .inr ⟨first, List.mem_cons_self, by omega⟩
      · exact .inl (by omega)
    · exact .inr ⟨field, List.mem_cons_of_mem _ found, same⟩

/-- The length that is aligned to is the greatest there is. -/
theorem isGreatest_longestName {fields : List Field} {field : Field} (found : field ∈ fields) :
    IsGreatest {length | ∃ other ∈ fields, other.name.name.length = length}
      (longestName fields) := by
  obtain ⟨-, each, reached⟩ := foldl_longest fields 0
  refine ⟨?_, ?_⟩
  · rcases reached with zero | attained
    · have zero : longestName fields = 0 := zero
      exact ⟨field, found, Nat.le_antisymm (each field found) (zero ▸ Nat.zero_le _)⟩
    · exact attained
  · rintro _ ⟨other, held, rfl⟩
    exact each other held

/-- A line that begins with a name gets its two spaces. -/
theorem indented_name {name : List Char} (named : isName name = true) (behind : List Char) :
    Indented (spaces indentWidth ++ (name ++ behind)) := by
  obtain ⟨first, others, rfl, start⟩ := isName_start named
  exact ⟨first, others ++ behind, rfl, visible_of_part (isNamePart_of_start start)⟩

theorem visible_of_suffix (modifier : TypeModifier) :
    ∀ char ∈ modifier.suffix.toList, Visible char := by
  have bracket : Visible '[' ∧ Visible ']' := by decide
  cases modifier with
  | none => exact List.forall_mem_nil _
  | array => exact List.forall_mem_cons.2 ⟨bracket.1, List.forall_mem_singleton.2 bracket.2⟩
  | optional => exact List.forall_mem_singleton.2 (by decide)

private theorem whole_spaces (count : Nat) : '\n' ∉ spaces count := by
  simp [spaces, List.mem_replicate]

/-- Markers behind a trimmed text leave it trimmed. -/
private theorem Trimmed.marked {front : List Char} (trimmed : Trimmed front)
    {marks : List (List Char)} (each : ∀ mark ∈ marks, Trimmed mark) :
    Trimmed (front ++ marks.flatMap (' ' :: ·)) := by
  induction marks generalizing front with
  | nil => rwa [List.flatMap_nil, List.append_nil]
  | cons mark marks ih =>
    have spaced : '\n' ∉ front ++ [' '] := by simp [trimmed.whole]
    have here := (each mark List.mem_cons_self).behind spaced
    have all := ih here fun other found => each other (List.mem_cons_of_mem _ found)
    simpa using all

theorem field_line {fields : List Field} {line : Field} (found : line ∈ fields)
    (writable : line.Writable) :
    ∃ text, field (longestName fields) line = .ok text ∧
      FieldLine fields line (spaces indentWidth ++ text) ∧ Trimmed (spaces indentWidth ++ text) := by
  obtain ⟨named, typed, marked⟩ := writable
  obtain ⟨marks, wrote, each⟩ := mapM_ok fun mark found => marker_trimmed mark (marked mark found)
  have greatest := isGreatest_longestName found
  have fits : line.name.name.length ≤ longestName fields := greatest.2 ⟨line, found, rfl⟩
  have type : Trimmed (line.type.name.name.toList ++ line.type.modifier.suffix.toList) := by
    obtain ⟨first, others, start, -⟩ := isName_start typed
    refine trimmed_of_visible (by simp [start]) fun char held => ?_
    exact (List.mem_append.1 held).elim (visible_of_name typed char) (visible_of_suffix _ char)
  refine ⟨_, by rw [field, wrote]; rfl, ⟨?_, longestName fields,
    longestName fields - line.name.name.length + typeGap, marks.flatMap (' ' :: ·), greatest,
    ?_, ?_, ?_⟩, ?_⟩
  · simpa only [List.append_assoc] using indented_name named _
  · simp [spaces, indentWidth]
  · simp only [List.length_append, List.length_replicate, String.length_toList, typeGap]
    have margin : "  ".length = 2 := rfl
    omega
  · intro char first
    cases marks with
    | nil => cases first
    | cons mark marks => exact (Option.some.inj first).symm
  · have front : '\n' ∉ spaces indentWidth ++ line.name.name.toList ++
        spaces (longestName fields - line.name.name.length + typeGap) := by
      simp [whole_spaces, (trimmed_name named).whole]
    have each := ((List.forall₂_and_left (R := fun _ _ => True) _ _).1
      (each.imp fun _ _ trimmed => ⟨trimmed, trivial⟩)).1
    have whole := (type.behind front).marked each
    simpa only [List.append_assoc] using whole

theorem option_line (line : ConfigOption) (writable : line.Writable) :
    ∃ text, option line = .ok text ∧
      Indented (spaces indentWidth ++ text) ∧ Trimmed (spaces indentWidth ++ text) := by
  obtain ⟨named, writable⟩ := writable
  obtain ⟨text, wrote, trimmed⟩ := expression_trimmed line.value writable
  refine ⟨_, by rw [option, wrote]; rfl, ?_, ?_⟩
  · simpa only [List.append_assoc] using indented_name named _
  · have front : '\n' ∉ spaces indentWidth ++ line.key.name.toList ++ " = ".toList := by
      simp [whole_spaces, (trimmed_name named).whole]
    simpa only [List.append_assoc] using trimmed.behind front

/-! ## Blocks -/

private theorem block_trimmed {header : List Char} (whole : '\n' ∉ header)
    {body : List (List Char)} (each : ∀ text ∈ body, Trimmed (spaces indentWidth ++ text)) :
    ∀ line ∈ block header body, Trimmed line := by
  have spaced : '\n' ∉ header ++ [' '] := by simp [whole]
  have brace : Visible '\x7b' ∧ Visible '\x7d' := by decide
  have opening : Trimmed (header ++ [' ', '\x7b']) := by simpa using trimmed_snoc spaced brace.1
  have closing : Trimmed ['\x7d'] := trimmed_snoc (List.not_mem_nil) brace.2
  rw [block, List.cons_append, List.forall_mem_cons, List.forall_mem_append, List.forall_mem_map]
  exact ⟨opening, each, List.forall_mem_singleton.2 closing⟩

/-- Elements on one side that all have a property can be taken apart from what is known of
them and those on the other side. -/
private theorem forall₂_split {α β : Type} {good : α → Prop} {rel : β → α → Prop}
    {texts : List α} {trees : List β}
    (each : List.Forall₂ (fun text tree => rel tree text ∧ good text) texts trees) :
    List.Forall₂ rel trees texts ∧ ∀ text ∈ texts, good text := by
  have each := (List.forall₂_and_left (R := fun text tree => rel tree text) _ _).1
    (each.imp fun _ _ both => both.symm)
  exact ⟨List.Forall₂.flip each.2, each.1⟩

/-- A block that can be written has a layout of its shape, in trimmed lines. -/
theorem definition_shape (tree : Definition) (writable : tree.Writable) :
    ∃ lines, definition tree = .ok lines ∧ Shape tree lines ∧ ∀ line ∈ lines, Trimmed line := by
  cases tree with
  | model model =>
    obtain ⟨named, writable⟩ := writable
    obtain ⟨texts, wrote, each⟩ := mapM_ok fun line found => field_line found (writable line found)
    obtain ⟨placed, trimmed⟩ := forall₂_split each
    refine ⟨_, by rw [definition, wrote]; rfl, ?_, block_trimmed ?_ trimmed⟩
    · have shape := @Shape.model model _ (List.forall₂_map_right_iff.2 placed)
      simpa [block] using shape
    · simp [(trimmed_name named).whole]
  | config config =>
    obtain ⟨named, writable⟩ := writable
    obtain ⟨texts, wrote, each⟩ := mapM_ok fun line found => option_line line (writable line found)
    obtain ⟨placed, trimmed⟩ := forall₂_split each
    refine ⟨_, by rw [definition, wrote]; rfl, ?_, block_trimmed ?_ trimmed⟩
    · have shape := @Shape.config config _ (List.forall₂_map_right_iff.2 placed)
      simpa [block] using shape
    · have worded : isName config.kind.keyword.toList = true := by cases config.kind <;> rfl
      simp [(trimmed_name named).whole, (trimmed_name worded).whole]

theorem Shape.closed {tree : Definition} {lines : List (List Char)} (shape : Shape tree lines) :
    ∃ front, lines = front ++ [['\x7d']] := by
  cases shape with
  | model => exact ⟨_, rfl⟩
  | config => exact ⟨_, rfl⟩

/-! ## Texts -/

/-- The text of some blocks, with a line feed behind each of their lines. -/
def laid (blocks : List (List (List Char))) : List Char :=
  (blocks.intersperse [[]]).flatten.flatMap (· ++ ['\n'])

theorem laid_append {front back : List (List (List Char))} (filled : front ≠ [])
    (more : back ≠ []) : laid (front ++ back) = laid front ++ '\n' :: laid back := by
  obtain ⟨first, others, rfl⟩ := List.exists_cons_of_ne_nil filled
  obtain ⟨next, further, rfl⟩ := List.exists_cons_of_ne_nil more
  simp [laid, Printer.flatten_intersperse]

/-- The line feeds of a text are those behind its lines. -/
theorem splitOn_laid {blocks : List (List (List Char))}
    (each : ∀ block ∈ blocks, ∀ line ∈ block, Trimmed line) :
    (laid blocks).splitOn '\n' = (blocks.intersperse [[]]).flatten ++ [[]] := by
  rw [laid, ← Printer.intercalate_lines]
  refine List.splitOn_intercalate _ ?_ (by simp)
  have whole : ∀ line ∈ (blocks.intersperse [[]]).flatten, '\n' ∉ line := by
    cases blocks with
    | nil => exact List.forall_mem_nil _
    | cons first others =>
      rw [Printer.flatten_intersperse, List.forall_mem_append]
      refine ⟨fun line found => (each _ List.mem_cons_self line found).whole, fun line found => ?_⟩
      obtain ⟨block, held, found⟩ := List.mem_flatMap.1 found
      rcases List.mem_append.1 found with blank | found
      · simp [List.mem_singleton.1 blank]
      · exact (each _ (List.mem_cons_of_mem _ held) line found).whole
  rw [List.forall_mem_append]
  exact ⟨whole, List.forall_mem_singleton.2 (List.not_mem_nil)⟩

/-- The text of a list of blocks ends with the closing brace of the last one. -/
theorem laid_closed {blocks : List (List (List Char))} (filled : blocks ≠ [])
    (each : ∀ block ∈ blocks, ∃ front, block = front ++ [['\x7d']]) :
    ∃ front, laid blocks = front ++ ['\x7d', '\n'] := by
  obtain ⟨front, last, rfl⟩ := (List.eq_nil_or_concat blocks).resolve_left filled
  obtain ⟨lines, rfl⟩ := each last (by simp)
  have closed : laid [lines ++ [['\x7d']]] = lines.flatMap (· ++ ['\n']) ++ ['\x7d', '\n'] := by
    simp [laid]
  cases front with
  | nil => exact ⟨_, closed⟩
  | cons first others =>
    rw [List.concat_eq_append, laid_append (List.cons_ne_nil _ _) (List.cons_ne_nil _ _), closed]
    exact ⟨laid (first :: others) ++ '\n' :: lines.flatMap (· ++ ['\n']), by simp⟩

private theorem filled_of_shapes {trees : List Definition} {blocks : List (List (List Char))}
    (shapes : List.Forall₂ Shape trees blocks) (filled : trees ≠ []) : blocks ≠ [] := by
  cases shapes with
  | nil => exact absurd rfl filled
  | cons => exact List.cons_ne_nil _ _

/-- Blocks that can be written have layouts of their shapes, and a document with them is
printed as these. -/
theorem print_laid {document : Document}
    (writable : ∀ block ∈ document.definitions, block.Writable) :
    ∃ blocks, document.print = .ok (.ofList (laid blocks)) ∧
      document.definitions.mapM definition = .ok blocks ∧
      List.Forall₂ Shape document.definitions blocks ∧
      ∀ block ∈ blocks, ∀ line ∈ block, Trimmed line := by
  obtain ⟨blocks, wrote, each⟩ := mapM_ok fun block found =>
    definition_shape block (writable block found)
  obtain ⟨shapes, trimmed⟩ := forall₂_split each
  refine ⟨blocks, ?_, wrote, shapes, trimmed⟩
  rw [Document.print_eq, lines, wrote]
  rfl

/-- What a canonical text looks like. Without blocks it is empty. Otherwise its lines are
those of the blocks, each of its block's shape, with one empty line between two blocks; none
of the blocks' lines ends in a blank; there is one line feed behind the last line; and where
the blocks are split in two, the texts of both parts stand with one more line feed between
them. -/
structure Canonical (document : Document) (text : String) : Prop where
  empty : document.definitions = [] → text = ""
  lined : document.definitions ≠ [] → ∃ blocks,
    List.Forall₂ Shape document.definitions blocks ∧
      text.toList.splitOn '\n' = (blocks.intersperse [[]]).flatten ++ [[]] ∧
      ∀ block ∈ blocks, ∀ line ∈ block, ∃ char, line.getLast? = some char ∧ Visible char
  ended : document.definitions ≠ [] →
    ∃ front char, text.toList = front ++ [char, '\n'] ∧ Visible char
  joined : ∀ first second : Document,
    document.definitions = first.definitions ++ second.definitions →
    first.definitions ≠ [] → second.definitions ≠ [] →
    ∃ front back, first.print = .ok front ∧ second.print = .ok back ∧
      text = front ++ "\n" ++ back

end Layout

open Layout

/-- **Every tree that can be written is printed in the canonical form.** -/
theorem Document.print_canonical {document : Document}
    (writable : ∀ block ∈ document.definitions, block.Writable) :
    ∃ text, document.print = .ok text ∧ Canonical document text := by
  obtain ⟨blocks, printed, wrote, shapes, trimmed⟩ := print_laid writable
  refine ⟨_, printed, ?_, fun filled => ?_, fun filled => ?_, ?_⟩
  · intro empty
    rw [empty] at shapes
    rw [List.forall₂_nil_left_iff.1 shapes]
    rfl
  · rw [String.toList_ofList]
    exact ⟨blocks, shapes, splitOn_laid trimmed,
      fun block found line held => (trimmed block found line held).ends⟩
  · have closed := forall₂_split (shapes.flip.imp fun _ _ shape => ⟨shape, shape.closed⟩)
    obtain ⟨front, ends⟩ := laid_closed (filled_of_shapes shapes filled) closed.2
    exact ⟨front, '\x7d', by rw [String.toList_ofList, ends], by decide⟩
  · intro first second same filledFirst filledSecond
    rw [same] at writable wrote
    obtain ⟨front, printedFront, wroteFront, shapesFront, -⟩ :=
      @print_laid first fun block found => writable block (List.mem_append_left _ found)
    obtain ⟨back, printedBack, wroteBack, shapesBack, -⟩ :=
      @print_laid second fun block found => writable block (List.mem_append_right _ found)
    refine ⟨_, _, printedFront, printedBack, ?_⟩
    rw [List.mapM_append, wroteFront, wroteBack] at wrote
    obtain rfl : front ++ back = blocks := Except.ok.inj wrote
    rw [laid_append (filled_of_shapes shapesFront filledFirst)
      (filled_of_shapes shapesBack filledSecond)]
    simp [String.append_assoc]

theorem Document.print_canonical_blocks :
    ∃ document, parse "model A\x7bbb C?@d()eee F\x7d datasource g\x7b\x7d" = .ok document ∧
      ∃ text, document.print = .ok text ∧ Canonical document text := by
  have accepted : (parse "model A\x7bbb C?@d()eee F\x7d datasource g\x7b\x7d").toBool = true := by
    decide +kernel
  cases parsed : parse "model A\x7bbb C?@d()eee F\x7d datasource g\x7b\x7d" with
  | error error => rw [parsed] at accepted; cases accepted
  | ok document => exact ⟨document, rfl, print_canonical (wellFormed_of_parse parsed).writable⟩

example :
    ((Document.parse "model A\x7bbb C?@d()eee F\x7d datasource g\x7b\x7d").toOption.bind
      fun document => document.print.toOption) =
    some "model A \x7b\n  bb   C? @d\n  eee  F\n\x7d\n\ndatasource g \x7b\n\x7d\n" := by
  decide +kernel

end SchemaLang
