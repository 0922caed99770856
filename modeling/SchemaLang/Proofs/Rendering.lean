import Mathlib.Data.List.Forall2
import SchemaLang.Proofs.WellFormed

/-! Canonical texts. Each part of a tree that can be written is laid out as a text that
is scanned as a phrase for that part, as long as what follows it is kept apart. The
parts are put together as the layout puts their texts together. -/
namespace SchemaLang.Layout

open Phrase

variable {α : Type} {part : List Terminal → α → List Terminal → Prop}

/-- A text is scanned as a phrase for a tree. -/
def Renders (part : List Terminal → α → List Terminal → Prop) (text : List Char) (tree : α) :
    Prop :=
  ∃ terminals, (∀ after, part (terminals ++ after) tree after) ∧
    ∀ rest others, Apart rest → Yields rest others → Yields (text ++ rest) (terminals ++ others)

/-- Texts that can be had for all elements can be had for the list. -/
theorem mapM_ok {ε β : Type} {write : α → Except ε β} {good : β → α → Prop} {trees : List α}
    (each : ∀ tree ∈ trees, ∃ text, write tree = .ok text ∧ good text tree) :
    ∃ texts, trees.mapM write = .ok texts ∧ List.Forall₂ good texts trees := by
  induction trees with
  | nil => exact ⟨[], rfl, .nil⟩
  | cons tree trees ih =>
    obtain ⟨text, wrote, here⟩ := each tree List.mem_cons_self
    obtain ⟨texts, wroteAll, others⟩ := ih fun other found => each other (List.mem_cons_of_mem _ found)
    refine ⟨text :: texts, ?_, .cons here others⟩
    rw [List.mapM_cons, wrote, wroteAll]
    rfl

/-! ## Values -/

/-- Values with commas between them. -/
private theorem separated_renders {text : List Char} {texts : List (List Char)}
    {value : Expression} {values : List Expression} (first : Renders Value text value)
    (others : List.Forall₂ (Renders Value) texts values) :
    Renders Values ((text :: texts).intersperse [',', ' ']).flatten (value :: values) := by
  induction others generalizing text value with
  | nil =>
    obtain ⟨terminals, said, scanned⟩ := first
    refine ⟨terminals, fun after => .one (said after), fun rest others apart yields => ?_⟩
    simpa using scanned rest others apart yields
  | @cons next _ texts values second _ ih =>
    obtain ⟨terminals, said, scanned⟩ := first
    obtain ⟨more, listed, scannedMore⟩ := ih second
    refine ⟨terminals ++ .comma :: more, fun after => ?_, fun rest others apart yields => ?_⟩
    · rw [List.append_assoc]
      exact .more (said _) (listed after)
    · have behind := ((scannedMore rest others apart yields).blank ' ' rfl).punctuation ',' .comma rfl
      have whole := scanned _ _ (apart_punctuation rfl _) behind
      simpa using whole

private theorem inParens_renders {texts : List (List Char)} {values : List Expression}
    (each : List.Forall₂ (Renders Value) texts values) :
    Renders Arguments (inParens texts) values := by
  cases each with
  | nil =>
    refine ⟨[.leftParen, .rightParen], fun after => .none, fun rest others apart yields => ?_⟩
    exact (yields.punctuation ')' .rightParen rfl).punctuation '(' .leftParen rfl
  | cons first others =>
    obtain ⟨terminals, listed, scanned⟩ := separated_renders first others
    refine ⟨.leftParen :: terminals ++ [.rightParen], fun after => ?_, fun rest others _ yields => ?_⟩
    · rw [List.append_assoc]
      exact .some (listed _)
    · have closed := yields.punctuation ')' .rightParen rfl
      have inner := scanned _ _ (apart_punctuation rfl _) closed
      simpa [inParens] using inner.punctuation '(' .leftParen rfl

mutual

/-- Every value that can be written is laid out as a phrase for it. -/
theorem expression_renders : (value : Expression) → value.Writable →
    ∃ text, expression value = .ok text ∧ Renders Value text (value.mapSpans unplaced)
  | .string value _, printable => by
    replace printable : Literal.isPrintable value.toList = true := printable
    refine ⟨Literal.write value.toList, ?_, [.string (.ofList (Literal.write value.toList))],
      fun after => ?_, fun rest others _ yields => yields.literal printable⟩
    · rw [expression, literal, if_pos printable]
    · have said := @Value.string (.ofList (Literal.write value.toList)) after
      rw [String.toList_ofList, Literal.read_write, String.ofList_toList] at said
      exact said
  | .boolean value _, _ => by
    refine ⟨_, rfl, [.identifier (if value then "true" else "false")], fun after => ?_,
      fun rest others apart yields => yields.name apart (by cases value <;> decide)⟩
    cases value
    · exact .no
    · exact .yes
  | .call name arguments _, writable => by
    obtain ⟨texts, wrote, each⟩ := expressions_render arguments writable.2
    obtain ⟨terminals, listed, scanned⟩ := inParens_renders each
    refine ⟨name.name.toList ++ inParens texts, ?_, .identifier name.name :: terminals,
      fun after => .call (listed after), fun rest others apart yields => ?_⟩
    · rw [expression, wrote]
      rfl
    · rw [List.append_assoc]
      exact (scanned rest others apart yields).name (apart_punctuation rfl _) writable.1

theorem expressions_render : (values : List Expression) → Expression.AllWritable values →
    ∃ texts, expressions values = .ok texts ∧
      List.Forall₂ (Renders Value) texts (Expression.mapSpansList unplaced values)
  | [], _ => ⟨[], rfl, .nil⟩
  | value :: values, writable => by
    obtain ⟨text, wrote, here⟩ := expression_renders value writable.1
    obtain ⟨texts, wroteAll, others⟩ := expressions_render values writable.2
    refine ⟨text :: texts, ?_, .cons here others⟩
    rw [expressions, wrote, wroteAll]
    rfl

end

/-! ## Lines -/

theorem marker_renders (mark : Attribute) (writable : mark.Writable) :
    ∃ text, marker mark = .ok text ∧ Renders Marker text (mark.mapSpans unplaced) := by
  obtain ⟨name, arguments, span⟩ := mark
  obtain ⟨marked, writable⟩ := writable
  cases arguments with
  | nil =>
    exact ⟨name.toList, rfl, [.marker name], fun after => .plain,
      fun rest others apart yields => yields.marker apart marked⟩
  | cons argument arguments =>
    obtain ⟨texts, wrote, each⟩ := expressions_render _ writable
    obtain ⟨terminals, listed, scanned⟩ := inParens_renders each
    refine ⟨name.toList ++ inParens texts, ?_, .marker name :: terminals,
      fun after => .applied (listed after), fun rest others apart yields => ?_⟩
    · rw [marker, if_neg (by simp), wrote]
      rfl
    · rw [List.append_assoc]
      exact (scanned rest others apart yields).marker (apart_punctuation rfl _) marked

/-- Markers with a space in front of each. -/
private theorem markers_render {texts : List (List Char)} {marks : List Attribute}
    (each : List.Forall₂ (Renders Marker) texts marks) :
    Renders (Many Marker) (texts.flatMap (' ' :: ·)) marks ∧
      ∀ rest, Apart rest → Apart (texts.flatMap (' ' :: ·) ++ rest) := by
  induction each with
  | nil =>
    exact ⟨⟨[], fun _ => .none, fun _ _ _ yields => yields⟩, fun _ apart => apart⟩
  | @cons text mark texts marks first _ ih =>
    obtain ⟨terminals, said, scanned⟩ := first
    obtain ⟨⟨more, listed, scannedMore⟩, apartMore⟩ := ih
    refine ⟨⟨terminals ++ more, fun after => ?_, fun rest others apart yields => ?_⟩,
      fun rest _ => apart_blank rfl _⟩
    · rw [List.append_assoc]
      exact .more (said _) (listed after)
    · have behind := scanned _ _ (apartMore rest apart) (scannedMore rest others apart yields)
      simpa using behind.blank ' ' rfl

/-- The sign of a type. -/
private theorem suffix_renders (modifier : TypeModifier) :
    Renders Sign modifier.suffix.toList modifier ∧
      ∀ rest, Apart rest → Apart (modifier.suffix.toList ++ rest) := by
  cases modifier with
  | none => exact ⟨⟨[], fun _ => .none, fun _ _ _ yields => yields⟩, fun _ apart => apart⟩
  | array =>
    exact ⟨⟨[.brackets], fun _ => .array, fun _ _ _ yields => yields.brackets⟩,
      fun rest _ => apart_brackets _⟩
  | optional =>
    exact ⟨⟨[.question], fun _ => .optional,
      fun _ _ _ yields => yields.punctuation '?' .question rfl⟩,
      fun rest _ => apart_punctuation rfl _⟩

theorem field_renders (longest : Nat) (line : Field) (writable : line.Writable) :
    ∃ text, field longest line = .ok text ∧ Renders Line text (line.mapSpans unplaced) := by
  obtain ⟨named, typed, marked⟩ := writable
  obtain ⟨texts, wrote, each⟩ := mapM_ok fun mark found => marker_renders mark (marked mark found)
  obtain ⟨⟨marks, listed, scannedMarks⟩, apartMarks⟩ :=
    markers_render (List.forall₂_map_right_iff.2 each)
  obtain ⟨⟨sign, signed, scannedSign⟩, apartSign⟩ := suffix_renders line.type.modifier
  refine ⟨_, by rw [field, wrote]; rfl,
    .identifier line.name.name :: .identifier line.type.name.name :: (sign ++ marks),
    fun after => ?_, fun rest others apart yields => ?_⟩
  · simp only [List.cons_append, List.append_assoc]
    exact .mk (.mk (signed _)) (listed after)
  · have marked := scannedMarks rest others apart yields
    have kept := apartMarks rest apart
    have typed := (scannedSign _ _ kept marked).name (apartSign _ kept) typed
    have spaced := typed.spaces (longest - line.name.name.length + typeGap)
    have named := spaced.name (apart_blank rfl _) named
    simpa [spaces] using named

theorem option_renders (line : ConfigOption) (writable : line.Writable) :
    ∃ text, option line = .ok text ∧ Renders Setting text (line.mapSpans unplaced) := by
  obtain ⟨named, writable⟩ := writable
  obtain ⟨text, wrote, terminals, said, scanned⟩ := expression_renders line.value writable
  refine ⟨_, by rw [option, wrote]; rfl, .identifier line.key.name :: .equals :: terminals,
    fun after => .mk (said after), fun rest others apart yields => ?_⟩
  have given := (scanned rest others apart yields).blank ' ' rfl
  have equals := (given.punctuation '=' .equals rfl).blank ' ' rfl
  have whole := equals.name (apart_blank rfl _) named
  simpa using whole

/-! ## Blocks -/

/-- Lines one below the other, one level deeper. -/
private theorem body_renders {texts : List (List Char)} {trees : List α}
    (each : List.Forall₂ (Renders part) texts trees) :
    Renders (Many part) ((texts.map (spaces indentWidth ++ ·)).flatMap (· ++ ['\n'])) trees := by
  induction each with
  | nil => exact ⟨[], fun _ => .none, fun _ _ _ yields => yields⟩
  | @cons text tree texts trees first _ ih =>
    obtain ⟨terminals, said, scanned⟩ := first
    obtain ⟨more, listed, scannedMore⟩ := ih
    refine ⟨terminals ++ more, fun after => ?_, fun rest others apart yields => ?_⟩
    · rw [List.append_assoc]
      exact .more (said _) (listed after)
    · have behind := (scannedMore rest others apart yields).blank '\n' rfl
      have line := (scanned _ _ (apart_blank rfl _) behind).spaces indentWidth
      simpa [spaces] using line

/-- A block around its lines. -/
private theorem block_renders {texts : List (List Char)} {trees : List α}
    (each : List.Forall₂ (Renders part) texts trees) {word name : String}
    (worded : isName word.toList = true) (named : isName name.toList = true) :
    Renders (fun before trees after => ∃ inner,
        before = .identifier word :: .identifier name :: .leftBrace :: inner ∧
          Many part inner trees (.rightBrace :: after))
      ((block (word.toList ++ ' ' :: name.toList) texts).flatMap (· ++ ['\n'])) trees := by
  obtain ⟨terminals, listed, scanned⟩ := body_renders each
  refine ⟨.identifier word :: .identifier name :: .leftBrace :: terminals ++ [.rightBrace],
    fun after => ⟨terminals ++ .rightBrace :: after, by simp, listed _⟩,
    fun rest others _ yields => ?_⟩
  have closed := (yields.blank '\n' rfl).punctuation '\x7d' .rightBrace rfl
  have inner := (scanned _ _ (apart_punctuation rfl _) closed).blank '\n' rfl
  have braced := (inner.punctuation '\x7b' .leftBrace rfl).blank ' ' rfl
  have titled := (braced.name (apart_blank rfl _) named).blank ' ' rfl
  have whole := titled.name (apart_blank rfl _) worded
  simpa [block] using whole

theorem definition_renders (tree : Definition) (writable : tree.Writable) :
    ∃ lines, definition tree = .ok lines ∧
      Renders Block (lines.flatMap (· ++ ['\n'])) (tree.mapSpans unplaced) := by
  cases tree with
  | model model =>
    obtain ⟨named, writable⟩ := writable
    obtain ⟨texts, wrote, each⟩ := mapM_ok fun line found =>
      field_renders (longestName model.fields) line (writable line found)
    have worded : isName "model".toList = true := rfl
    obtain ⟨terminals, said, scanned⟩ :=
      block_renders (List.forall₂_map_right_iff.2 each) worded named
    refine ⟨_, by rw [definition, wrote]; rfl, terminals, fun after => ?_, scanned⟩
    obtain ⟨inner, same, lines⟩ := said after
    rw [same]
    exact .model lines
  | config config =>
    obtain ⟨named, writable⟩ := writable
    obtain ⟨texts, wrote, each⟩ := mapM_ok fun line found =>
      option_renders line (writable line found)
    have worded : isName config.kind.keyword.toList = true := by cases config.kind <;> rfl
    obtain ⟨terminals, said, scanned⟩ :=
      block_renders (List.forall₂_map_right_iff.2 each) worded named
    refine ⟨_, by rw [definition, wrote]; rfl, terminals, fun after => ?_, scanned⟩
    obtain ⟨inner, same, settings⟩ := said after
    rw [same]
    exact .config settings

/-- Blocks with a blank line between them. -/
private theorem blocks_render {blocks : List (List (List Char))} {trees : List Definition}
    (each : List.Forall₂ (fun lines tree => Renders Block (lines.flatMap (· ++ ['\n'])) tree)
      blocks trees) :
    Renders (Many Block) ((blocks.intersperse [[]]).flatten.flatMap (· ++ ['\n'])) trees := by
  induction each with
  | nil => exact ⟨[], fun _ => .none, fun _ _ _ yields => yields⟩
  | @cons lines tree blocks trees first rest ih =>
    obtain ⟨terminals, said, scanned⟩ := first
    obtain ⟨more, listed, scannedMore⟩ := ih
    refine ⟨terminals ++ more, fun after => ?_, fun rest others apart yields => ?_⟩
    · rw [List.append_assoc]
      exact .more (said _) (listed after)
    · have behind := scannedMore rest others apart yields
      cases blocks with
      | nil => simpa using scanned _ _ apart behind
      | cons next blocks =>
        have whole := scanned _ _ (apart_blank rfl _) (behind.blank '\n' rfl)
        simpa using whole

/-- A tree that can be written has a canonical text, and it is scanned as a sentence
for that tree. -/
theorem print_yields {document : Document}
    (writable : ∀ block ∈ document.definitions, block.Writable) :
    ∃ text terminals, document.print = .ok text ∧ Yields text.toList terminals ∧
      Sentence terminals document.eraseSpans := by
  obtain ⟨blocks, wrote, each⟩ := mapM_ok fun block found =>
    definition_renders block (writable block found)
  obtain ⟨terminals, listed, scanned⟩ := blocks_render (List.forall₂_map_right_iff.2 each)
  refine ⟨.ofList ((blocks.intersperse [[]]).flatten.flatMap (· ++ ['\n'])),
    terminals ++ [.endOfInput], ?_, ?_, .mk (listed _)⟩
  · rw [Document.print_eq, lines, wrote]
    rfl
  · have whole := scanned [] [.endOfInput] (by rintro _ ⟨⟩) yields_nil
    rw [List.append_nil] at whole
    rw [String.toList_ofList]
    exact whole

end SchemaLang.Layout
