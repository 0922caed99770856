import SchemaLang.Proofs.Counterparts
import SchemaLang.Proofs.LineBreak

/-! Places inside a text. Whatever is scanned starts and ends between two characters of
the text, its offset is at most the length of the text in bytes, and its line and column
exceed that length by at most one. So all counters fit their words, and every part that
is cut out of the text can be. Trees and failures have no other places than those of the
tokens they are made from, since two readings of one feed stay alike when places are
kept on one side and checked on the other. -/
namespace SchemaLang

namespace Position

/-! ## Bounds -/

/-- A place that a text can have. -/
structure Within (text : List Char) (position : Position) : Prop where
  offset : position.offset ≤ byteLength text
  line : position.line ≤ byteLength text + 1
  column : position.column ≤ byteLength text + 1

instance (text : List Char) (position : Position) : Decidable (position.Within text) :=
  decidable_of_iff (position.offset ≤ byteLength text ∧ position.line ≤ byteLength text + 1 ∧
    position.column ≤ byteLength text + 1)
    ⟨fun ⟨offset, line, column⟩ => ⟨offset, line, column⟩,
      fun ⟨offset, line, column⟩ => ⟨offset, line, column⟩⟩

theorem byteLength_append (first others : List Char) :
    byteLength (first ++ others) = byteLength first + byteLength others := by
  induction first with
  | nil => exact (Nat.zero_add _).symm
  | cons char first ih =>
    show char.utf8Size + byteLength (first ++ others) = char.utf8Size + byteLength first + _
    rw [ih, Nat.add_assoc]

/-- Every character takes a byte at least. -/
theorem length_le_byteLength (text : List Char) : text.length ≤ byteLength text := by
  induction text with
  | nil => exact Nat.le_refl _
  | cons char text ih =>
    have wide := char.utf8Size_pos
    show text.length + 1 ≤ char.utf8Size + byteLength text
    omega

/-- Reading a character begins one line or one column at most. -/
theorem step_le (position : Position) (char : Char) :
    (position.step char).line ≤ position.line + 1 ∧
      (position.step char).column ≤ position.column + 1 := by
  unfold step
  split
  · exact ⟨Nat.le_refl _, Nat.le_add_left ..⟩
  · exact ⟨Nat.le_succ _, Nat.le_refl _⟩

theorem advance_le (position : Position) (text : List Char) :
    (position.advance text).line ≤ position.line + text.length ∧
      (position.advance text).column ≤ position.column + text.length := by
  induction text generalizing position with
  | nil => exact ⟨Nat.le_refl _, Nat.le_refl _⟩
  | cons char text ih =>
    obtain ⟨line, column⟩ := position.step_le char
    obtain ⟨lines, columns⟩ := ih (position.step char)
    rw [List.length_cons]
    constructor
    · show ((position.step char).advance text).line ≤ _
      omega
    · show ((position.step char).advance text).column ≤ _
      omega

theorem offset_advance_start (front : List Char) :
    (start.advance front).offset = byteLength front :=
  (offset_advance start front).trans (Nat.zero_add _)

theorem advance_start_le (front : List Char) :
    (start.advance front).line ≤ byteLength front + 1 ∧
      (start.advance front).column ≤ byteLength front + 1 := by
  obtain ⟨line, column⟩ := start.advance_le front
  have fewer := length_le_byteLength front
  have first : start.line = 1 ∧ start.column = 1 := ⟨rfl, rfl⟩
  omega

/-- Behind any part that a text begins with there is a place of the text. -/
theorem within_advance (front back : List Char) :
    (start.advance front).Within (front ++ back) := by
  obtain ⟨line, column⟩ := advance_start_le front
  have offset := offset_advance_start front
  constructor <;> rw [byteLength_append] <;> omega

/-! ## Checked counting -/

/-- Lines and columns do not depend on where the bytes are counted from. -/
theorem advance_offset (position : Position) (offset : Nat) (text : List Char) :
    Position.advance { position with offset } text =
      { position.advance text with offset := offset + byteLength text } := by
  induction text generalizing position offset with
  | nil => rfl
  | cons char text ih =>
    have moved : Position.step { position with offset } char =
        { position.step char with offset := offset + char.utf8Size } := by
      unfold step
      split <;> rfl
    show (Position.step { position with offset } char).advance text = _
    rw [moved, ih (position.step char) (offset + char.utf8Size), Nat.add_assoc]
    rfl

/-- Lines and columns are counted through as long as there is room for one more of each
behind every character. -/
theorem foldlM_stepLine? (position : Position) (text : List Char)
    (lines : position.line + text.length < wordLimit)
    (columns : position.column + text.length < wordLimit) :
    text.foldlM stepLine? position =
      some { position.advance text with offset := position.offset } := by
  induction text generalizing position with
  | nil => rfl
  | cons char text ih =>
    rw [List.length_cons] at lines columns
    have moved : stepLine? position char =
        some { position.step char with offset := position.offset } := by
      unfold stepLine? step
      split
      · rw [add?, if_pos (by omega)]
        rfl
      · rw [add?, if_pos (by omega)]
        rfl
    obtain ⟨line, column⟩ := position.step_le char
    have rest := ih { position.step char with offset := position.offset }
      (show (position.step char).line + text.length < wordLimit by omega)
      (show (position.step char).column + text.length < wordLimit by omega)
    rw [List.foldlM_cons, moved]
    show text.foldlM stepLine? { position.step char with offset := position.offset } = _
    rw [rest, advance_offset]
    rfl

/-- Inside a text that leaves room for one more line and column, no counter leaves its
word. -/
theorem advance?_within (front part back : List Char)
    (small : byteLength (front ++ part ++ back) + 1 < wordLimit) :
    (start.advance front).advance? part = some (start.advance (front ++ part)) := by
  obtain ⟨line, column⟩ := advance_start_le front
  have offset := offset_advance_start front
  have fewer := length_le_byteLength part
  rw [byteLength_append, byteLength_append] at small
  rw [advance?, foldlM_stepLine? _ _ (by omega) (by omega), add?, offset,
    if_pos (by omega), advance_append]
  have whole := offset_advance (start.advance front) part
  rw [offset] at whole
  rw [← whole]
  rfl

/-! ## Slices -/

/-- The characters before a byte and those behind it, if the text goes that far and the
byte is not inside a character. -/
def splitBytes? : Nat → List Char → Option (List Char × List Char)
  | 0, text => some ([], text)
  | _ + 1, [] => none
  | count + 1, char :: rest =>
    if char.utf8Size ≤ count + 1 then
      (splitBytes? (count + 1 - char.utf8Size) rest).map fun (front, back) => (char :: front, back)
    else none

/-- The part of a text from one byte to another, if these are in order, if the text goes
that far and if neither is inside a character. -/
def slice? (text : List Char) (first last : Nat) : Option (List Char) :=
  if first ≤ last then do
    let (_, rest) ← splitBytes? first text
    let (part, _) ← splitBytes? (last - first) rest
    return part
  else none

theorem splitBytes?_append (front back : List Char) :
    splitBytes? (byteLength front) (front ++ back) = some (front, back) := by
  induction front with
  | nil =>
    unfold splitBytes?
    cases back <;> rfl
  | cons char front ih =>
    have wide := char.utf8Size_pos
    obtain ⟨count, same⟩ : ∃ count, byteLength (char :: front) = count + 1 :=
      Nat.exists_eq_add_one.2 (Nat.lt_of_lt_of_le wide (Nat.le_add_right ..))
    have left : count + 1 - char.utf8Size = byteLength front := by
      rw [← same]
      exact Nat.add_sub_cancel_left ..
    have room : char.utf8Size ≤ count + 1 := by
      rw [← same]
      exact Nat.le_add_right ..
    rw [same, List.cons_append, splitBytes?, if_pos room, left, ih]
    rfl

theorem slice?_append (front part back : List Char) :
    slice? (front ++ part ++ back) (byteLength front) (byteLength (front ++ part)) = some part := by
  have width : byteLength (front ++ part) - byteLength front = byteLength part := by
    rw [byteLength_append]
    exact Nat.add_sub_cancel_left ..
  have order : byteLength front ≤ byteLength (front ++ part) := by
    rw [byteLength_append]
    exact Nat.le_add_right ..
  rw [slice?, if_pos order, width, List.append_assoc, splitBytes?_append]
  show (do
    let (part, _) ← splitBytes? (byteLength part) (part ++ back)
    return part) = _
  rw [splitBytes?_append]
  rfl

example : slice? ['é', 'a'] 2 3 = some ['a'] ∧ slice? ['é', 'a'] 1 3 = none := by decide

end Position

/-! ## Scanning -/

/-- A token that stands inside a text. -/
def Token.Within (text : List Char) (token : Token) : Prop :=
  token.start.Within text ∧ token.stop.Within text

namespace Scanner

/-- A scanner that has read the beginning of a text and has the rest in front of it. -/
def At (text : List Char) (scanner : Scanner) : Prop :=
  ∃ front, text = front ++ scanner.rest ∧ scanner.position = .advance .start front

/-- What a scanner does to read one token, with nothing out of range: the parts of the
text that it looks at can be cut out, and the counters that it moves stay in their
words. -/
structure Safe (text : List Char) (scanner : Scanner) : Prop where
  here : scanner.position.Within text
  blanks : Position.slice? text scanner.position.offset scanner.skipBlanks.position.offset =
    some (scanner.rest.takeWhile isBlank)
  skipped : scanner.position.advance? (scanner.rest.takeWhile isBlank) =
    some scanner.skipBlanks.position
  rest : Position.slice? text scanner.skipBlanks.position.offset (Position.byteLength text) =
    some scanner.skipBlanks.rest
  lexeme : ∀ kind spelling, lexeme? scanner.skipBlanks.rest = some (kind, spelling) →
    let stop := scanner.skipBlanks.position.advance spelling
    Position.slice? text scanner.skipBlanks.position.offset stop.offset = some spelling ∧
      scanner.skipBlanks.position.advance? spelling = some stop

theorem at_ofText (text : List Char) : (ofText text).At text := ⟨[], rfl, rfl⟩

variable {text : List Char} {scanner : Scanner}

theorem At.within (stands : scanner.At text) : scanner.position.Within text := by
  obtain ⟨front, rfl, place⟩ := stands
  rw [place]
  exact Position.within_advance front scanner.rest

theorem At.skipBlanks (stands : scanner.At text) : scanner.skipBlanks.At text := by
  obtain ⟨front, rfl, place⟩ := stands
  refine ⟨front ++ scanner.rest.takeWhile isBlank, ?_, ?_⟩
  · rw [List.append_assoc]
    exact congrArg (front ++ ·) List.takeWhile_append_dropWhile.symm
  · rw [Position.advance_append, ← place]
    rfl

theorem At.lexeme (stands : scanner.At text) {kind : TokenKind} {spelling : List Char}
    (found : lexeme? scanner.rest = some (kind, spelling)) :
    At text ⟨scanner.position.advance spelling, scanner.rest.drop spelling.length⟩ := by
  obtain ⟨front, rfl, place⟩ := stands
  obtain ⟨back, rest⟩ := lexeme?_isPrefix found
  refine ⟨front ++ spelling, ?_, ?_⟩
  · rw [← rest, List.drop_left, List.append_assoc]
  · rw [Position.advance_append, ← place]

/-- A scanner inside a text reads a token inside it and stays there, or finds a fault
inside it. -/
theorem At.next (stands : scanner.At text) :
    (∀ token after, scanner.next = .ok (token, after) → after.At text ∧ token.Within text) ∧
      ∀ failure, scanner.next = .error failure → failure.position.Within text := by
  have here := stands.skipBlanks
  rcases scanner.next_cases with ⟨-, read⟩ | ⟨found, others, -, -, read⟩ |
    ⟨kind, spelling, found, read⟩
  · rw [read]
    refine ⟨?_, nofun⟩
    rintro token after ⟨⟩
    exact ⟨here, here.within, here.within⟩
  · rw [read]
    refine ⟨nofun, ?_⟩
    rintro failure ⟨⟩
    exact here.within
  · rw [read]
    refine ⟨?_, nofun⟩
    rintro token after ⟨⟩
    have behind := here.lexeme found
    exact ⟨behind, here.within, behind.within⟩

/-- A part that is read next can be cut out of the text, and counted. -/
theorem At.part (stands : scanner.At text)
    (small : Position.byteLength text + 1 < Position.wordLimit) {part back : List Char}
    (rest : part ++ back = scanner.rest) :
    Position.slice? text scanner.position.offset (scanner.position.advance part).offset =
        some part ∧
      scanner.position.advance? part = some (scanner.position.advance part) := by
  obtain ⟨front, rfl, place⟩ := stands
  have before : scanner.position.offset = Position.byteLength front := by
    rw [place, Position.offset_advance_start]
  have behind : (scanner.position.advance part).offset = Position.byteLength (front ++ part) := by
    rw [Position.offset_advance, before, Position.byteLength_append]
  rw [← rest, ← List.append_assoc] at small ⊢
  refine ⟨by rw [before, behind]; exact Position.slice?_append front part back, ?_⟩
  rw [place, Position.advance?_within front part back small, Position.advance_append]

/-- Reading on from inside a text that is not too long is safe. -/
theorem At.safe (stands : scanner.At text)
    (small : Position.byteLength text + 1 < Position.wordLimit) : scanner.Safe text := by
  have here := stands.skipBlanks
  obtain ⟨blanks, skipped⟩ := stands.part small List.takeWhile_append_dropWhile
  have total : (scanner.skipBlanks.position.advance scanner.skipBlanks.rest).offset =
      Position.byteLength text := by
    obtain ⟨front, whole, place⟩ := here
    rw [place, ← Position.advance_append, ← whole, Position.offset_advance_start]
  refine ⟨stands.within, blanks, skipped, ?_, fun kind spelling found => ?_⟩
  · rw [← total]
    exact (here.part small (List.append_nil _)).1
  · obtain ⟨back, rest⟩ := lexeme?_isPrefix found
    exact here.part small rest

end Scanner

/-! ## Trees -/

mutual

/-- The places of a value and of all values in it. -/
def Expression.spans : Expression → List Span
  | .string _ span => [span]
  | .boolean _ span => [span]
  | .call name arguments span => span :: name.span :: Expression.spansList arguments

/-- The places of all values in an argument list. -/
def Expression.spansList : List Expression → List Span
  | [] => []
  | argument :: others => argument.spans ++ Expression.spansList others

end

/-- The places of a type. -/
def FieldType.spans (type : FieldType) : List Span := [type.span, type.name.span]

/-- The places of a marker. -/
def Attribute.spans (mark : Attribute) : List Span :=
  mark.span :: Expression.spansList mark.arguments

/-- The places of a field. -/
def Field.spans (field : Field) : List Span :=
  field.span :: field.name.span :: (field.type.spans ++ field.attributes.flatMap Attribute.spans)

/-- The places of an option. -/
def ConfigOption.spans (option : ConfigOption) : List Span :=
  option.span :: option.key.span :: option.value.spans

/-- The places of a block. -/
def Definition.spans : Definition → List Span
  | .model block => block.span :: block.name.span :: block.fields.flatMap Field.spans
  | .config block => block.span :: block.name.span :: block.options.flatMap ConfigOption.spans

/-- All places in a tree. -/
def Document.spans (document : Document) : List Span :=
  document.span :: document.definitions.flatMap Definition.spans

section

variable (change : Span → Span)

/-- Replacing the places of nodes replaces those of the list they make up. -/
private theorem flatMap_spans {α : Type} {spans : α → List Span} {mapSpans : α → α}
    (same : ∀ node, spans (mapSpans node) = (spans node).map change) (nodes : List α) :
    (nodes.map mapSpans).flatMap spans = (nodes.flatMap spans).map change := by
  induction nodes with
  | nil => rfl
  | cons node nodes ih =>
    rw [List.map_cons, List.flatMap_cons, List.flatMap_cons, same, ih, List.map_append]

mutual

theorem Expression.spans_mapSpans :
    (value : Expression) → (value.mapSpans change).spans = value.spans.map change
  | .string _ _ => rfl
  | .boolean _ _ => rfl
  | .call name arguments span => by
    rw [Expression.mapSpans, Expression.spans, Expression.spansList_mapSpansList arguments]
    rfl

theorem Expression.spansList_mapSpansList : (values : List Expression) →
    Expression.spansList (Expression.mapSpansList change values) =
      (Expression.spansList values).map change
  | [] => rfl
  | value :: values => by
    rw [Expression.mapSpansList, Expression.spansList, Expression.spans_mapSpans value,
      Expression.spansList_mapSpansList values, Expression.spansList, List.map_append]

end

theorem Attribute.spans_mapSpans (mark : Attribute) :
    (mark.mapSpans change).spans = mark.spans.map change :=
  congrArg (_ :: ·) (Expression.spansList_mapSpansList change mark.arguments)

theorem Field.spans_mapSpans (field : Field) :
    (field.mapSpans change).spans = field.spans.map change := by
  have marks := flatMap_spans change (Attribute.spans_mapSpans change) field.attributes
  simp only [Field.spans, Field.mapSpans, FieldType.spans, FieldType.mapSpans, Identifier.mapSpans,
    marks, List.map_cons, List.map_append, List.map_nil]

theorem ConfigOption.spans_mapSpans (option : ConfigOption) :
    (option.mapSpans change).spans = option.spans.map change :=
  congrArg (_ :: _ :: ·) (Expression.spans_mapSpans change option.value)

theorem Definition.spans_mapSpans (block : Definition) :
    (block.mapSpans change).spans = block.spans.map change := by
  cases block with
  | model model =>
    exact congrArg (_ :: _ :: ·) (flatMap_spans change (Field.spans_mapSpans change) _)
  | config config =>
    exact congrArg (_ :: _ :: ·) (flatMap_spans change (ConfigOption.spans_mapSpans change) _)

theorem Document.spans_mapSpans (document : Document) :
    (document.mapSpans change).spans = document.spans.map change :=
  congrArg (_ :: ·) (flatMap_spans change (Definition.spans_mapSpans change) document.definitions)

end

/-- A part of a text that begins and ends inside it. -/
def Span.Within (text : List Char) (span : Span) : Prop :=
  span.start.Within text ∧ span.stop.Within text

instance (text : List Char) (span : Span) : Decidable (span.Within text) :=
  inferInstanceAs (Decidable (_ ∧ _))

namespace Correspondence

/-- A text beside itself. Places inside it are kept on both sides, and on one of them all
others are replaced. -/
def checked (text : List Char) : Correspondence where
  starts place place' := place = place' ∧ place.Within text
  stops place place' := place = place' ∧ place.Within text
  left := id
  right span := if span.Within text then span else .point .start
  ordered := by
    rintro _ _ _ _ ⟨rfl, -⟩ ⟨rfl, -⟩
    rfl
  kept := by
    rintro ⟨first, last⟩ ⟨_, _⟩ ⟨rfl, started⟩ ⟨rfl, stopped⟩
    exact (if_pos ⟨started, stopped⟩).symm

theorem checked_right_within (text : List Char) (span : Span) :
    ((checked text).right span).Within text := by
  show Span.Within text (if span.Within text then span else .point .start)
  split
  · assumption
  · have origin := Position.within_advance [] text
    exact ⟨origin, origin⟩

/-- Everything that is read from a text stands inside it. -/
theorem checked_feeds {text : List Char} (scanner : Scanner) (stands : scanner.At text) :
    (checked text).Feeds (.ofScanner scanner) (.ofScanner scanner) := by
  fun_induction Feed.ofScanner scanner with
  | case1 scanner failure read => exact .fault rfl ⟨rfl, stands.next.2 failure read⟩
  | case2 scanner token after read ended =>
    obtain ⟨-, start, -⟩ := stands.next.1 token after read
    exact .finish ⟨rfl, start⟩ ⟨rfl, start⟩
  | case3 scanner token after read proper ih =>
    obtain ⟨behind, start, stop⟩ := stands.next.1 token after read
    exact .token ⟨rfl, rfl, ⟨rfl, start⟩, ⟨rfl, stop⟩⟩ (ih behind)

/-- Trees of corresponding feeds agree as a whole, as far as places are kept, if the
start of one text corresponds to the start of the other. -/
theorem document_mapSpans (places : Correspondence) (starts : places.starts .start .start)
    (stops : places.stops .start .start) (limit : Nat) :
    places.Rules Schema.grammar limit
      (fun tree tree' => tree.mapSpans places.left = tree'.mapSpans places.right)
      Schema.document := by
  refine .map (.takeUntil definition_alike .endOfInput) ?_
  rintro ⟨definitions, stop⟩ ⟨definitions', stop'⟩ ⟨listed, closes⟩
  have blocks := Nodes.map listed
  cases listed with
  | nil =>
    have origin : places.left (.point .start) = places.right (.point .start) :=
      places.kept starts stops
    exact congrArg (Document.mk []) origin
  | cons node others =>
    exact congrArg₂ Document.mk blocks (places.kept node.start closes.stop)

end Correspondence

/-- Whatever is read from a text as a whole, the tree or the failure stands inside it. -/
theorem Schema.document_within (text : List Char) (budget : Nat) :
    match Schema.document.reader Schema.grammar budget 0 (.ofText text) with
    | .value document _ => ∀ span ∈ document.spans, span.Within text
    | .failure error => error.position.Within text
    | .exhausted => True := by
  have origin := Position.within_advance [] text
  have alike := (Correspondence.checked text).document_mapSpans ⟨rfl, origin⟩ ⟨rfl, origin⟩ budget
    budget (Nat.le_refl _) 0 (Correspondence.checked_feeds _ (Scanner.at_ofText text))
  rw [show Feed.ofScanner (.ofText text) = .ofText text from rfl] at alike
  generalize Schema.document.reader Schema.grammar budget 0 (.ofText text) = reading at alike
  cases alike with
  | @value document _ _ _ trees _ =>
    have same := congrArg Document.spans trees
    rw [Document.spans_mapSpans, Document.spans_mapSpans] at same
    intro span found
    have listed : span ∈ document.spans.map (Correspondence.checked text).right := by
      rw [← same]
      exact List.mem_map_of_mem (f := id) found
    obtain ⟨other, -, rfl⟩ := List.mem_map.1 listed
    exact Correspondence.checked_right_within text other
  | failure errors => exact errors.position.2
  | exhausted => trivial

end SchemaLang
