import SchemaLang.Document
import SchemaLang.Literal
import SchemaLang.Rule

/-! The grammar of schema texts. A text is a list of blocks, a block is a list of
fields or options between braces, and values are the only part that contains
itself, through the arguments of calls. How deep calls may nest is limited. -/
namespace SchemaLang.Schema

/-- Rules of the schema grammar. Values are the one named rule. -/
abbrev SchemaRule := Rule fun _ : Unit => Expression

/-- How deep argument lists may nest. -/
def maxCallDepth : Nat := 64

/-- A name. -/
def identifier : SchemaRule Identifier :=
  .map (fun token => ⟨token.text, token.span⟩) (.token .identifier)

/-- A name, with the message for a text that has none there. -/
def named (message : String) : SchemaRule Identifier := .withMessage message identifier

/-- A value in quotes. -/
def string : SchemaRule Expression :=
  .map (fun token => .string (String.ofList (Literal.read token.text.toList)) token.span)
    (.token .string)

/-- A truth value. -/
def boolean : SchemaRule Expression :=
  .map (fun token => .boolean (token.text == "true") token.span)
    (.either "Expected boolean value" (.keyword "true") (.keyword "false"))

/-- Values in parentheses, with the closing parenthesis. -/
def arguments : SchemaRule (List Expression × Token) :=
  .map Prod.snd <| .pair (.token .leftParen) <| .nested maxCallDepth <|
    .pair (.separated (.ref ()) (.token .comma)) (.token .rightParen)

/-- A name with arguments. -/
def call : SchemaRule Expression :=
  .map (fun (name, values, close) => .call name values ⟨name.span.start, close.stop⟩)
    (.pair identifier arguments)

/-- A value. Calls are tried first, so a name in front of a parenthesis is never
taken for a truth value. -/
def expression : SchemaRule Expression :=
  .choice "Expected expression" (.orElse call (.orElse string (.last boolean)))

/-- The rule behind the one name. -/
def grammar : Grammar fun _ : Unit => Expression := fun _ => expression

/-- Builds a type from its name and the sign behind it. -/
def fieldTypeOf (name : Identifier) (sign : Option Token) : FieldType :=
  match sign with
  | none => ⟨name, .none, ⟨name.span.start, name.span.stop⟩⟩
  | some token =>
    ⟨name, if token.kind = .question then .optional else .array, ⟨name.span.start, token.stop⟩⟩

/-- The type of a field. -/
def fieldType : SchemaRule FieldType :=
  .map (fun (name, sign) => fieldTypeOf name sign) <|
    .pair (named "Expected field type") <|
      .optional (.either "Expected type modifier" (.token .question) (.token .brackets))

/-- Builds a marker from its name and the arguments behind it. -/
def markerOf (name : Token) (values : Option (List Expression × Token)) : Attribute :=
  match values with
  | none => ⟨name.text, [], ⟨name.start, name.stop⟩⟩
  | some (values, close) => ⟨name.text, values, ⟨name.start, close.stop⟩⟩

/-- A marker on a field. -/
def marker : SchemaRule Attribute :=
  .map (fun (name, values) => markerOf name values)
    (.pair (.token .attributeName) (.optional arguments))

/-- Builds a field, which ends with its last marker or else with its type. -/
def fieldOf (name : Identifier) (type : FieldType) (markers : List Attribute) : Field :=
  let stop := match markers.getLast? with
    | some last => last.span.stop
    | none => type.span.stop
  ⟨name, type, markers, ⟨name.span.start, stop⟩⟩

/-- One line of a model. -/
def field : SchemaRule Field :=
  .map (fun (name, type, markers) => fieldOf name type markers)
    (.triple (named "Expected field definition or '\x7d'") fieldType (.zeroOrMore marker))

/-- A block of fields. -/
def model : SchemaRule Definition :=
  .map (fun (word, name, _, fields, close) =>
      .model ⟨name, fields, ⟨word.start, close.stop⟩⟩) <|
    .quadruple (.keyword "model") (named "Expected model name") (.token .leftBrace)
      (.takeUntil field .rightBrace)

/-- The word that opens a configuration. -/
def configKind : SchemaRule (ConfigKind × Token) :=
  .either "Expected datasource or generator keyword"
    (.map (fun token => (.datasource, token)) (.keyword "datasource"))
    (.map (fun token => (.generator, token)) (.keyword "generator"))

/-- One line of a configuration. -/
def option : SchemaRule ConfigOption :=
  .map (fun (key, _, value) => ⟨key, value, ⟨key.span.start, value.span.stop⟩⟩) <|
    .triple (named "Expected config option or '\x7d'") (.token .equals) (.ref ())

/-- A block of options. -/
def config : SchemaRule Definition :=
  .map (fun ((kind, word), name, _, options, close) =>
      .config ⟨kind, name, options, ⟨word.start, close.stop⟩⟩) <|
    .quadruple configKind (named "Expected config name") (.token .leftBrace)
      (.takeUntil option .rightBrace)

/-- A block. -/
def definition : SchemaRule Definition :=
  .either "Expected config or model definition" model config

/-- Builds a tree. It runs from its first block to the end of the text, and an
empty one stands at the start. -/
def documentOf (definitions : List Definition) (stop : Token) : Document :=
  match definitions with
  | [] => ⟨[], .point .start⟩
  | first :: _ => ⟨definitions, ⟨first.span.start, stop.stop⟩⟩

theorem definitions_documentOf (definitions : List Definition) (stop : Token) :
    (documentOf definitions stop).definitions = definitions := by
  cases definitions <;> rfl

/-- A whole text. -/
def document : SchemaRule Document :=
  .map (fun (definitions, stop) => documentOf definitions stop)
    (.takeUntil definition .endOfInput)

end SchemaLang.Schema

namespace SchemaLang.Document

/-- A budget that no parse uses up. Each round of a repetition takes a token, so
there are never more rounds than characters, and the rules inside each other
are bounded by the nesting limit times the rules of one level. -/
def parseBudget (text : List Char) : Nat := text.length + 1000

/-- Runs the grammar on a text, with every way in which a run may end. -/
def run (text : List Char) : Except Halt Document :=
  match Schema.document.parse Schema.grammar (parseBudget text) (.ofText text) with
  | .ok document _ => .ok document
  | .error halt _ => .error halt

/-- The tree of a text, or the first failure of the alternative that got
furthest. The cursor is never misplaced and the budget never runs out, so the
answers given for those cases do not occur. -/
def parse (source : String) : Except ParseError Document :=
  match run source.toList with
  | .ok document => .ok document
  | .error (.failed error) => .error error
  | .error (.misplaced fault) => .error (.mismatch fault.message .start)
  | .error .exhausted => .error (.tooDeep .start)

end SchemaLang.Document
