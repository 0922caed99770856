import SchemaLang.Document

/-! The structure of a tree is what remains when places are ignored. Two trees
are compared node by node here; the places of a tree can also be replaced as a
whole, by one place for all nodes or by places further into a text. -/
namespace SchemaLang

/-- Whether two lists have the same length and agree element by element. -/
def sameElements {α : Type} (same : α → α → Bool) : List α → List α → Bool
  | [], [] => true
  | a :: as, b :: bs => same a b && sameElements same as bs
  | _, _ => false

/-! ## Comparing without places -/

/-- Whether two names are spelled alike. -/
def Identifier.sameStructure (a b : Identifier) : Bool := a.name == b.name

mutual

/-- Whether two values agree apart from their places. -/
def Expression.sameStructure : Expression → Expression → Bool
  | .string v _, .string w _ => v == w
  | .boolean v _, .boolean w _ => v == w
  | .call n as _, .call m bs _ => n.sameStructure m && Expression.sameStructures as bs
  | _, _ => false

/-- Whether two argument lists agree apart from their places. -/
def Expression.sameStructures : List Expression → List Expression → Bool
  | [], [] => true
  | a :: as, b :: bs => Expression.sameStructure a b && Expression.sameStructures as bs
  | _, _ => false

end

/-- Whether two types agree apart from their places. -/
def FieldType.sameStructure (a b : FieldType) : Bool :=
  a.name.sameStructure b.name && a.modifier == b.modifier

/-- Whether two markers agree apart from their places. -/
def Attribute.sameStructure (a b : Attribute) : Bool :=
  a.name == b.name && Expression.sameStructures a.arguments b.arguments

/-- Whether two fields agree apart from their places. -/
def Field.sameStructure (a b : Field) : Bool :=
  a.name.sameStructure b.name && a.type.sameStructure b.type &&
    sameElements Attribute.sameStructure a.attributes b.attributes

/-- Whether two models agree apart from their places. -/
def Model.sameStructure (a b : Model) : Bool :=
  a.name.sameStructure b.name && sameElements Field.sameStructure a.fields b.fields

/-- Whether two options agree apart from their places. -/
def ConfigOption.sameStructure (a b : ConfigOption) : Bool :=
  a.key.sameStructure b.key && a.value.sameStructure b.value

/-- Whether two configurations agree apart from their places. -/
def Config.sameStructure (a b : Config) : Bool :=
  a.kind == b.kind && a.name.sameStructure b.name &&
    sameElements ConfigOption.sameStructure a.options b.options

/-- Whether two blocks agree apart from their places. -/
def Definition.sameStructure : Definition → Definition → Bool
  | .model a, .model b => a.sameStructure b
  | .config a, .config b => a.sameStructure b
  | _, _ => false

/-- Whether two texts hold the same tree apart from its places. -/
def Document.sameStructure (a b : Document) : Bool :=
  sameElements Definition.sameStructure a.definitions b.definitions

/-! ## Replacing places -/

/-- Replaces the place of a name. -/
def Identifier.mapSpans (change : Span → Span) (identifier : Identifier) : Identifier :=
  { identifier with span := change identifier.span }

mutual

/-- Replaces every place in a value. -/
def Expression.mapSpans (change : Span → Span) : Expression → Expression
  | .string value span => .string value (change span)
  | .boolean value span => .boolean value (change span)
  | .call name arguments span =>
    .call (name.mapSpans change) (Expression.mapSpansList change arguments) (change span)

/-- Replaces every place in an argument list. -/
def Expression.mapSpansList (change : Span → Span) : List Expression → List Expression
  | [] => []
  | argument :: others =>
    Expression.mapSpans change argument :: Expression.mapSpansList change others

end

theorem Expression.mapSpansList_eq_map (change : Span → Span) (arguments : List Expression) :
    Expression.mapSpansList change arguments = arguments.map (Expression.mapSpans change) := by
  induction arguments with
  | nil => rfl
  | cons argument others ih => rw [Expression.mapSpansList, List.map_cons, ih]

/-- Replaces every place in a type. -/
def FieldType.mapSpans (change : Span → Span) (type : FieldType) : FieldType :=
  { type with name := type.name.mapSpans change, span := change type.span }

/-- Replaces every place in a marker. -/
def Attribute.mapSpans (change : Span → Span) (marker : Attribute) : Attribute :=
  { marker with
    arguments := Expression.mapSpansList change marker.arguments
    span := change marker.span }

/-- Replaces every place in a field. -/
def Field.mapSpans (change : Span → Span) (field : Field) : Field where
  name := field.name.mapSpans change
  type := field.type.mapSpans change
  attributes := field.attributes.map (Attribute.mapSpans change)
  span := change field.span

/-- Replaces every place in a model. -/
def Model.mapSpans (change : Span → Span) (model : Model) : Model where
  name := model.name.mapSpans change
  fields := model.fields.map (Field.mapSpans change)
  span := change model.span

/-- Replaces every place in an option. -/
def ConfigOption.mapSpans (change : Span → Span) (option : ConfigOption) : ConfigOption where
  key := option.key.mapSpans change
  value := option.value.mapSpans change
  span := change option.span

/-- Replaces every place in a configuration. -/
def Config.mapSpans (change : Span → Span) (config : Config) : Config where
  kind := config.kind
  name := config.name.mapSpans change
  options := config.options.map (ConfigOption.mapSpans change)
  span := change config.span

/-- Replaces every place in a block. -/
def Definition.mapSpans (change : Span → Span) : Definition → Definition
  | .model block => .model (block.mapSpans change)
  | .config block => .config (block.mapSpans change)

/-- Replaces every place in a tree. -/
def Document.mapSpans (change : Span → Span) (document : Document) : Document where
  definitions := document.definitions.map (Definition.mapSpans change)
  span := change document.span

/-- A tree without places: all nodes stand at the start. -/
def Document.eraseSpans (document : Document) : Document :=
  document.mapSpans fun _ => .point .start

end SchemaLang
