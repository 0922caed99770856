import SchemaLang.Position

/-! The tree of a schema text. Every node keeps the part of the text it was read
from; those parts serve reports only, so trees are also compared without them. -/
namespace SchemaLang

/-- A name and where it stands. -/
structure Identifier where
  name : String
  span : Span
deriving DecidableEq

/-- A value: a text, a truth value, or a call with values as arguments. -/
inductive Expression where
  | string (value : String) (span : Span)
  | boolean (value : Bool) (span : Span)
  | call (name : Identifier) (arguments : List Expression) (span : Span)

/-- What stands behind the name of a field's type. -/
inductive TypeModifier where
  | none
  /-- Written `[]`. -/
  | array
  /-- Written `?`. -/
  | optional
deriving DecidableEq

namespace TypeModifier

instance : Inhabited TypeModifier := ⟨none⟩

/-- How a modifier is written. -/
def suffix : TypeModifier → String
  | none => ""
  | array => "[]"
  | optional => "?"

/-- The word that names a modifier. -/
def word : TypeModifier → String
  | none => "none"
  | array => "array"
  | optional => "optional"

end TypeModifier

/-- The type of a field. -/
structure FieldType where
  name : Identifier
  modifier : TypeModifier
  span : Span
deriving DecidableEq

/-- A marker on a field, with the `@` as part of its name. -/
structure Attribute where
  name : String
  arguments : List Expression
  span : Span

/-- One line of a model: a name, a type and markers. -/
structure Field where
  name : Identifier
  type : FieldType
  attributes : List Attribute
  span : Span

/-- A block of fields. -/
structure Model where
  name : Identifier
  fields : List Field
  span : Span

/-- The two kinds of configuration. -/
inductive ConfigKind where
  | datasource
  | generator
deriving DecidableEq

namespace ConfigKind

/-- The word that opens a block of a kind. -/
def keyword : ConfigKind → String
  | datasource => "datasource"
  | generator => "generator"

end ConfigKind

/-- One line of a configuration: a key and its value. -/
structure ConfigOption where
  key : Identifier
  value : Expression
  span : Span

/-- A block of options. -/
structure Config where
  kind : ConfigKind
  name : Identifier
  options : List ConfigOption
  span : Span

/-- A block at the top of a schema text. -/
inductive Definition where
  | model (model : Model)
  | config (config : Config)

/-- A whole schema text. -/
structure Document where
  definitions : List Definition
  span : Span

namespace Expression

/-- Where a value stands. -/
def span : Expression → Span
  | string _ span => span
  | boolean _ span => span
  | call _ _ span => span

end Expression

namespace Definition

/-- The name of a block. -/
def name : Definition → Identifier
  | model definition => definition.name
  | config definition => definition.name

/-- Where a block stands. -/
def span : Definition → Span
  | model definition => definition.span
  | config definition => definition.span

/-- The block as a model, if it is one. -/
def model? : Definition → Option Model
  | model definition => some definition
  | config _ => none

/-- The block as a configuration, if it is one. -/
def config? : Definition → Option Config
  | model _ => none
  | config definition => some definition

end Definition

namespace Document

/-- The models of a text, in order. -/
def models (document : Document) : List Model :=
  document.definitions.filterMap Definition.model?

/-- The configurations of a text, in order. -/
def configs (document : Document) : List Config :=
  document.definitions.filterMap Definition.config?

end Document

/-! ## Equality -/

mutual

/-- Decides whether two values are the same, places included. -/
def Expression.decEq (a b : Expression) : Decidable (a = b) :=
  match a, b with
  | .string v s, .string w t =>
    if h : v = w ∧ s = t then .isTrue (by rw [h.1, h.2]) else .isFalse (by simpa using h)
  | .boolean v s, .boolean w t =>
    if h : v = w ∧ s = t then .isTrue (by rw [h.1, h.2]) else .isFalse (by simpa using h)
  | .call n as s, .call m bs t =>
    match Expression.decEqList as bs with
    | .isTrue h =>
      if k : n = m ∧ s = t then .isTrue (by rw [h, k.1, k.2])
      else .isFalse (by simp only [Expression.call.injEq]; exact fun e => k ⟨e.1, e.2.2⟩)
    | .isFalse h => .isFalse (by simp only [Expression.call.injEq]; exact fun e => h e.2.1)
  | .string .., .boolean .. => .isFalse (by simp)
  | .string .., .call .. => .isFalse (by simp)
  | .boolean .., .string .. => .isFalse (by simp)
  | .boolean .., .call .. => .isFalse (by simp)
  | .call .., .string .. => .isFalse (by simp)
  | .call .., .boolean .. => .isFalse (by simp)

/-- Decides whether two argument lists are the same, places included. -/
def Expression.decEqList (as bs : List Expression) : Decidable (as = bs) :=
  match as, bs with
  | [], [] => .isTrue rfl
  | [], _ :: _ => .isFalse (by simp)
  | _ :: _, [] => .isFalse (by simp)
  | a :: as, b :: bs =>
    match Expression.decEq a b, Expression.decEqList as bs with
    | .isTrue h, .isTrue k => .isTrue (by rw [h, k])
    | .isFalse h, _ => .isFalse (by simp only [List.cons.injEq]; exact fun e => h e.1)
    | _, .isFalse k => .isFalse (by simp only [List.cons.injEq]; exact fun e => k e.2)

end

instance : DecidableEq Expression := Expression.decEq

deriving instance DecidableEq for Attribute, Field, Model, ConfigOption, Config, Definition, Document

end SchemaLang
