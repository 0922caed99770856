import SchemaLang.Proofs.Blocks
import SchemaLang.Proofs.Meaning

/-! The extent of a node: the tokens it was read from, in a row and with nothing left out.
Each kind of node is laid out over its extent in a few ways, the extents of its parts one
after the other and a bracket or a sign between some of them. The first and the last token
of its extent tell the place of a node. Every tree that is read from a text is laid out
over all tokens of the text. -/
namespace SchemaLang

/-- A token whose kind has only one spelling is known by its kind. -/
theorem Token.terminal_of_kind {token : Token} {wanted : Terminal} (same : token.kind = wanted.kind)
    (plain : wanted.kind ∉ [.identifier, .attributeName, .string]) : token.terminal = wanted :=
  Terminal.eq_of_kind (token.kind_terminal.trans same) plain

namespace Extent

/-! ## Layouts -/

/-- A name takes one token. -/
inductive Name : List Token → Identifier → Prop where
  | mk {token : Token} {name : String} (named : token.terminal = .identifier name) :
      Name [token] ⟨name, token.span⟩

mutual

/-- The extent of a value. -/
inductive Value : List Token → Expression → Prop where
  | call {own tokens : List Token} {name : Identifier} {values : List Expression} {close : Token}
      (named : Name own name) (listed : Arguments tokens values close) :
      Value (own ++ tokens) (.call name values ⟨name.span.start, close.stop⟩)
  | string {token : Token} {text : String} (quoted : token.terminal = .string text) :
      Value [token] (.string (.ofList (Literal.read text.toList)) token.span)
  | boolean {token : Token} (truth : Bool)
      (named : token.terminal = .identifier (if truth then "true" else "false")) :
      Value [token] (.boolean truth token.span)

/-- The extent of an argument list, up to its closing parenthesis. -/
inductive Arguments : List Token → List Expression → Token → Prop where
  | none {opening close : Token} (opens : opening.terminal = .leftParen)
      (closes : close.terminal = .rightParen) : Arguments [opening, close] [] close
  | some {opening close : Token} {own others : List Token} {value : Expression}
      {values : List Expression} (opens : opening.terminal = .leftParen)
      (first : Value own value) (rest : Further others values)
      (closes : close.terminal = .rightParen) :
      Arguments (opening :: (own ++ others) ++ [close]) (value :: values) close

/-- The extent of further values, with a comma in front of each. -/
inductive Further : List Token → List Expression → Prop where
  | nil : Further [] []
  | cons {comma : Token} {own others : List Token} {value : Expression}
      {values : List Expression} (apart : comma.terminal = .comma) (first : Value own value)
      (rest : Further others values) : Further (comma :: own ++ others) (value :: values)

end

/-- The extent of a type: its name, and a sign if there is one. -/
inductive Typed : List Token → FieldType → Prop where
  | plain {own : List Token} {name : Identifier} (named : Name own name) :
      Typed own (Schema.fieldTypeOf name none)
  | signed {own : List Token} {name : Identifier} {sign : Token} (named : Name own name)
      (signs : sign.terminal = .question ∨ sign.terminal = .brackets) :
      Typed (own ++ [sign]) (Schema.fieldTypeOf name (some sign))

/-- The extent of a marker: its name, and its arguments if there are any. -/
inductive Marker : List Token → Attribute → Prop where
  | plain {name : Token} (marked : name.terminal = .marker name.text) :
      Marker [name] (Schema.markerOf name none)
  | applied {name close : Token} {tokens : List Token} {values : List Expression}
      (marked : name.terminal = .marker name.text) (listed : Arguments tokens values close) :
      Marker (name :: tokens) (Schema.markerOf name (some (values, close)))

/-- The extent of a line of a model. -/
inductive Line : List Token → Field → Prop where
  | mk {own typed marked : List Token} {name : Identifier} {type : FieldType}
      {markers : List Attribute} (named : Name own name) (sort : Typed typed type)
      (listed : Row Marker marked markers) :
      Line (own ++ (typed ++ marked)) (Schema.fieldOf name type markers)

/-- The extent of a line of a configuration. -/
inductive Setting : List Token → ConfigOption → Prop where
  | mk {own inner : List Token} {key : Identifier} {sign : Token} {value : Expression}
      (named : Name own key) (equal : sign.terminal = .equals) (given : Value inner value) :
      Setting (own ++ sign :: inner) ⟨key, value, ⟨key.span.start, value.span.stop⟩⟩

/-- The extent of a block, from its first word to its closing brace. -/
inductive Block : List Token → Definition → Prop where
  | model {word brace close : Token} {own inner : List Token} {name : Identifier}
      {fields : List Field} (worded : word.terminal = .identifier "model") (named : Name own name)
      (opens : brace.terminal = .leftBrace) (lines : Row Line inner fields)
      (closes : close.terminal = .rightBrace) :
      Block (word :: (own ++ brace :: (inner ++ [close])))
        (.model ⟨name, fields, ⟨word.start, close.stop⟩⟩)
  | config {kind : ConfigKind} {word brace close : Token} {own inner : List Token}
      {name : Identifier} {options : List ConfigOption}
      (worded : word.terminal = .identifier kind.keyword) (named : Name own name)
      (opens : brace.terminal = .leftBrace) (settings : Row Setting inner options)
      (closes : close.terminal = .rightBrace) :
      Block (word :: (own ++ brace :: (inner ++ [close])))
        (.config ⟨kind, name, options, ⟨word.start, close.stop⟩⟩)

/-! ## Rules -/

/-- What the one name of the grammar means: that the tokens are the extent of the value. -/
abbrev names (_ : Unit) : List Token → Expression → Prop := Value

/-- A token of a kind that is not the end of input is taken alone. -/
private theorem taken {kind : TokenKind} {tokens : List Token} {token : Token}
    (said : Rule.Means names (.token kind) tokens token) (proper : kind ≠ .endOfInput) :
    tokens = [token] ∧ token.kind = kind := by
  obtain ⟨same, rfl⟩ := said
  exact ⟨Token.taken_eq (by rwa [same]), same⟩

private theorem name_said {tokens : List Token} {name : Identifier}
    (said : Schema.identifier.Means names tokens name) : Name tokens name := by
  obtain ⟨token, said, rfl⟩ := said
  obtain ⟨rfl, kind⟩ := taken said (by decide)
  exact .mk (Token.terminal_identifier.2 ⟨kind, rfl⟩)

private theorem string_said {tokens : List Token} {value : Expression}
    (said : Schema.string.Means names tokens value) : Value tokens value := by
  obtain ⟨token, said, rfl⟩ := said
  obtain ⟨rfl, kind⟩ := taken said (by decide)
  exact .string (Token.terminal_string.2 ⟨kind, rfl⟩)

private theorem boolean_said {tokens : List Token} {value : Expression}
    (said : Schema.boolean.Means names tokens value) : Value tokens value := by
  obtain ⟨token, ⟨⟨kind, text⟩, rfl⟩ | ⟨⟨kind, text⟩, rfl⟩, rfl⟩ := said
  · have truth := Value.boolean true (Token.terminal_identifier.2 ⟨kind, text⟩)
    simpa [text] using truth
  · have truth := Value.boolean false (Token.terminal_identifier.2 ⟨kind, text⟩)
    simpa [text] using truth

/-- Values behind commas. -/
private theorem further_said {tokens : List Token} {values : List Expression}
    (said : Row (Separated Value (Rule.Means names (.token .comma))) tokens values) :
    Further tokens values := by
  induction said with
  | nil => exact .nil
  | cons first _ ih =>
    obtain ⟨apart, behind⟩ := first
    obtain ⟨rfl, kind⟩ := taken apart (by decide)
    exact .cons (Token.terminal_of_kind kind (by decide)) behind ih

private theorem arguments_said {tokens : List Token} {values : List Expression} {close : Token}
    (said : Schema.arguments.Means names tokens (values, close)) : Arguments tokens values close := by
  obtain ⟨⟨opening, values, close⟩, ⟨own, behind, rfl, opens, listed⟩, ⟨⟩⟩ := said
  obtain ⟨inner, last, rfl, listed, closes⟩ := listed
  obtain ⟨rfl, opening'⟩ := taken opens (by decide)
  obtain ⟨rfl, closing⟩ := taken closes (by decide)
  have opens : opening.terminal = .leftParen := Token.terminal_of_kind opening' (by decide)
  have closes : close.terminal = .rightParen := Token.terminal_of_kind closing (by decide)
  cases listed with
  | nil => exact .none opens closes
  | cons first rest => exact .some opens first (further_said rest) closes

private theorem call_said {tokens : List Token} {value : Expression}
    (said : Schema.call.Means names tokens value) : Value tokens value := by
  obtain ⟨⟨name, values, close⟩, ⟨own, behind, rfl, named, listed⟩, rfl⟩ := said
  exact .call (name_said named) (arguments_said listed)

/-- A value is laid out over its tokens if the values inside it are. -/
theorem value_said {tokens : List Token} {value : Expression}
    (said : Schema.expression.Means names tokens value) : Value tokens value := by
  obtain called | quoted | truth := said
  · exact call_said called
  · exact string_said quoted
  · exact boolean_said truth

private theorem typed_said {tokens : List Token} {type : FieldType}
    (said : Schema.fieldType.Means names tokens type) : Typed tokens type := by
  obtain ⟨⟨name, sign⟩, ⟨own, behind, rfl, named, signed⟩, rfl⟩ := said
  cases sign with
  | none =>
    cases signed
    rw [List.append_nil]
    exact .plain (name_said named)
  | some sign =>
    obtain question | brackets := signed
    · obtain ⟨rfl, kind⟩ := taken question (by decide)
      exact .signed (name_said named) (.inl (Token.terminal_of_kind kind (by decide)))
    · obtain ⟨rfl, kind⟩ := taken brackets (by decide)
      exact .signed (name_said named) (.inr (Token.terminal_of_kind kind (by decide)))

private theorem marker_said {tokens : List Token} {mark : Attribute}
    (said : Schema.marker.Means names tokens mark) : Marker tokens mark := by
  obtain ⟨⟨name, values⟩, ⟨own, behind, rfl, marked, listed⟩, rfl⟩ := said
  obtain ⟨rfl, kind⟩ := taken marked (by decide)
  have marked : name.terminal = .marker name.text := Token.terminal_marker.2 ⟨kind, rfl⟩
  cases values with
  | none =>
    cases listed
    exact .plain marked
  | some result => exact .applied marked (arguments_said listed)

private theorem line_said {tokens : List Token} {line : Field}
    (said : Schema.field.Means names tokens line) : Line tokens line := by
  obtain ⟨⟨name, type, marks⟩, ⟨own, behind, rfl, named, said⟩, rfl⟩ := said
  obtain ⟨typed, marked, rfl, sort, listed⟩ := said
  exact .mk (name_said named) (typed_said sort) (listed.mono fun _ _ => marker_said)

private theorem setting_said {tokens : List Token} {line : ConfigOption}
    (said : Schema.option.Means names tokens line) : Setting tokens line := by
  obtain ⟨⟨key, sign, value⟩, ⟨own, behind, rfl, named, said⟩, rfl⟩ := said
  obtain ⟨equal, inner, rfl, equals, given⟩ := said
  obtain ⟨rfl, kind⟩ := taken equals (by decide)
  exact .mk (name_said named) (Token.terminal_of_kind kind (by decide)) given

/-- A block behind its first word: a name, and lines between braces. -/
private theorem body_said {α : Type} {message : String} {rule : Schema.SchemaRule α}
    {tokens : List Token} {name : Identifier} {brace close : Token} {lines : List α}
    (said : Steps.Means names (.next (Schema.named message) (.next (.token .leftBrace)
      (.last (.takeUntil rule .rightBrace)))) tokens (name, brace, lines, close)) :
    ∃ own inner, tokens = own ++ brace :: (inner ++ [close]) ∧ Name own name ∧
      brace.terminal = .leftBrace ∧ Row (rule.Means names) inner lines ∧
      close.terminal = .rightBrace := by
  obtain ⟨own, behind, rfl, named, said⟩ := said
  obtain ⟨opening, rest, rfl, opens, inner, rfl, closes, listed⟩ := said
  obtain ⟨rfl, kind⟩ := taken opens (by decide)
  have proper : close.kind ≠ .endOfInput := by rw [closes]; decide
  refine ⟨own, inner, ?_, name_said named, Token.terminal_of_kind kind (by decide), listed,
    Token.terminal_of_kind closes (by decide)⟩
  rw [Token.taken_eq proper, List.singleton_append]

private theorem model_said {tokens : List Token} {block : Definition}
    (said : Schema.model.Means names tokens block) : Block tokens block := by
  obtain ⟨⟨word, name, brace, fields, close⟩, ⟨own, behind, rfl, worded, said⟩, rfl⟩ := said
  obtain ⟨worded, rfl⟩ := worded
  obtain ⟨own, inner, rfl, named, opens, listed, closes⟩ := body_said said
  exact .model (Token.terminal_identifier.2 worded) named opens
    (listed.mono fun _ _ => line_said) closes

private theorem config_said {tokens : List Token} {block : Definition}
    (said : Schema.config.Means names tokens block) : Block tokens block := by
  obtain ⟨⟨⟨kind, word⟩, name, brace, options, close⟩, ⟨own, behind, rfl, worded, said⟩, rfl⟩ := said
  obtain ⟨own', inner, rfl, named, opens, listed, closes⟩ := body_said said
  have opening : word.terminal = .identifier kind.keyword ∧ own = [word] := by
    obtain ⟨token, ⟨spelled, rfl⟩, same⟩ | ⟨token, ⟨spelled, rfl⟩, same⟩ := worded
    all_goals
      cases same
      exact ⟨Token.terminal_identifier.2 spelled, rfl⟩
  obtain ⟨opened, rfl⟩ := opening
  exact .config opened named opens (listed.mono fun _ _ => setting_said) closes

theorem block_said {tokens : List Token} {block : Definition}
    (said : Schema.definition.Means names tokens block) : Block tokens block := by
  obtain model | config := said
  · exact model_said model
  · exact config_said config

end Extent

/-! ## Whole texts -/

namespace Document

/-- The tree of a text is laid out over all tokens of the text, and ends where the text
does. -/
theorem extent_of_parse {source : String} {document : Document}
    (parsed : parse source = .ok document) :
    ∃ tokens place, (Feed.ofText source.toList).Gives tokens (.finish place) ∧
      Row Extent.Block tokens document.definitions ∧
      document = Schema.documentOf document.definitions (.endAt place) := by
  have answered := parse_reading source
  have fits := reading_fits source
  cases read : reading source with
  | failure error =>
    rw [read] at answered
    cases parsed.symm.trans answered
  | exhausted =>
    rw [read] at fits
    exact fits.elim
  | value tree rest =>
    rw [read] at answered
    cases parsed.symm.trans answered
    rw [reading, show parseBudget source.toList = source.toList.length + 982 + 18 from rfl,
      Schema.document_eq] at read
    have means := Rule.reader_means Schema.grammar (fun _ _ _ => Extent.value_said)
      (source.toList.length + 982 + 16) Schema.definition
    cases taken : Reader.takeUntil (Schema.reads (source.toList.length + 982 + 16) Schema.definition)
        .endOfInput (source.toList.length + 982 + 16) 0 (.ofText source.toList) with
    | value result final =>
      obtain ⟨definitions, close⟩ := result
      rw [taken] at read
      cases read
      obtain ⟨tokens, behind, gives, listed, looked, closing, -⟩ :=
        Reader.takeUntil_gives means taken
      rw [Schema.definitions_documentOf]
      cases behind with
      | token first proper others =>
        cases looked
        exact absurd closing proper
      | finish place =>
        cases looked
        exact ⟨tokens, place, gives, listed.mono fun _ _ => Extent.block_said, rfl⟩
      | fault failure => cases looked
    | failure error => rw [taken] at read; cases read
    | exhausted => rw [taken] at read; cases read

end Document
end SchemaLang
