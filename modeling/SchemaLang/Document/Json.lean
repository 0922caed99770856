import SchemaLang.Document
import SchemaLang.Json

/-! Trees as JSON values, places included. -/
namespace SchemaLang

/-- A point as a record of its three counts. -/
def Position.toJson (position : Position) : Json :=
  .record [("offset", .number position.offset), ("line", .number position.line),
    ("column", .number position.column)]

/-- A part as a record of its two ends. -/
def Span.toJson (span : Span) : Json :=
  .record [("start", span.start.toJson), ("end", span.stop.toJson)]

/-- A name and its place. -/
def Identifier.toJson (identifier : Identifier) : Json :=
  .record [("name", .string identifier.name), ("span", identifier.span.toJson)]

mutual

/-- A value, marked with its kind. -/
def Expression.toJson : Expression → Json
  | .string value span =>
    .record [("type", .string "string"), ("value", .string value), ("span", span.toJson)]
  | .boolean value span =>
    .record [("type", .string "boolean"), ("value", .bool value), ("span", span.toJson)]
  | .call name arguments span =>
    .record [("type", .string "function_call"), ("name", name.toJson),
      ("arguments", .array (Expression.toJsonList arguments)), ("span", span.toJson)]

/-- An argument list, in order. -/
def Expression.toJsonList : List Expression → List Json
  | [] => []
  | argument :: others => Expression.toJson argument :: Expression.toJsonList others

end

/-- A type of a field. -/
def FieldType.toJson (type : FieldType) : Json :=
  .record [("name", type.name.toJson), ("modifier", .string type.modifier.word),
    ("span", type.span.toJson)]

/-- A marker. -/
def Attribute.toJson (mark : Attribute) : Json :=
  .record [("name", .string mark.name), ("arguments", .array (Expression.toJsonList mark.arguments)),
    ("span", mark.span.toJson)]

/-- A field. -/
def Field.toJson (field : Field) : Json :=
  .record [("name", field.name.toJson), ("field_type", field.type.toJson),
    ("attributes", .array (field.attributes.map Attribute.toJson)), ("span", field.span.toJson)]

/-- An option. -/
def ConfigOption.toJson (option : ConfigOption) : Json :=
  .record [("key", option.key.toJson), ("value", option.value.toJson),
    ("span", option.span.toJson)]

/-- A block, marked with its kind. -/
def Definition.toJson : Definition → Json
  | .model block =>
    .record [("type", .string "model"), ("name", block.name.toJson),
      ("fields", .array (block.fields.map Field.toJson)), ("span", block.span.toJson)]
  | .config block =>
    .record [("type", .string "config"), ("kind", .string block.kind.keyword),
      ("name", block.name.toJson), ("options", .array (block.options.map ConfigOption.toJson)),
      ("span", block.span.toJson)]

/-- A whole tree. -/
def Document.toJson (document : Document) : Json :=
  .record [("definitions", .array (document.definitions.map Definition.toJson)),
    ("span", document.span.toJson)]

end SchemaLang
