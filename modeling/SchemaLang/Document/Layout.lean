import SchemaLang.Document
import SchemaLang.Literal
import SchemaLang.Text.Quoted

/-! The layout of a tree, line by line. Blocks follow each other with one blank line
between them, their lines are indented by two spaces, and the types of a model
start in one column. A value that no literal can stand for has no text; the
first such value met on the way is reported. -/
namespace SchemaLang

/-- Why a tree cannot be printed. -/
inductive Unprintable where
  /-- A value that no string literal stands for. -/
  | value (text : String)
  /-- A line would have to stand further out than the margin. -/
  | belowMargin
deriving DecidableEq

namespace Unprintable

/-- The text that reports a cause. -/
def message : Unprintable → String
  | value text => "string value " ++ quoted text ++ " cannot be printed as a literal"
  | belowMargin => "cannot unindent below zero"

end Unprintable

namespace Layout

/-- Body lines are indented by this many spaces. -/
def indentWidth : Nat := 2

/-- At least this many spaces stand between a field's name and its type. -/
def typeGap : Nat := 2

/-- A run of spaces. -/
def spaces (count : Nat) : List Char := List.replicate count ' '

/-- Arguments in parentheses, with commas between them. -/
def inParens (arguments : List (List Char)) : List Char :=
  '(' :: (arguments.intersperse [',', ' ']).flatten ++ [')']

/-- The literal for a value, if there is one. -/
def literal (value : String) : Except Unprintable (List Char) :=
  if Literal.isPrintable value.toList then .ok (Literal.write value.toList) else .error (.value value)

mutual

/-- The text of a value. -/
def expression : Expression → Except Unprintable (List Char)
  | .string value _ => literal value
  | .boolean value _ => .ok (if value then "true" else "false").toList
  | .call name arguments _ => do
    let texts ← expressions arguments
    return name.name.toList ++ inParens texts

/-- The texts of an argument list, in order. -/
def expressions : List Expression → Except Unprintable (List (List Char))
  | [] => .ok []
  | argument :: others => do
    let text ← expression argument
    let texts ← expressions others
    return text :: texts

end

/-- The text of a marker. Without arguments it has no parentheses. -/
def marker (mark : Attribute) : Except Unprintable (List Char) :=
  if mark.arguments.isEmpty then .ok mark.name.toList
  else do
    let texts ← expressions mark.arguments
    return mark.name.toList ++ inParens texts

/-- A field, its type aligned behind the longest name of the model. -/
def field (longest : Nat) (field : Field) : Except Unprintable (List Char) := do
  let markers ← field.attributes.mapM marker
  return field.name.name.toList ++ spaces (longest - field.name.name.length + typeGap) ++
    field.type.name.name.toList ++ field.type.modifier.suffix.toList ++
    markers.flatMap (' ' :: ·)

/-- A configuration line. -/
def option (option : ConfigOption) : Except Unprintable (List Char) := do
  let value ← expression option.value
  return option.key.name.toList ++ " = ".toList ++ value

/-- A block: its header, its body one level deeper, and the closing brace. -/
def block (header : List Char) (body : List (List Char)) : List (List Char) :=
  (header ++ [' ', '{']) :: body.map (spaces indentWidth ++ ·) ++ [['}']]

/-- The length of the longest field name of a model. -/
def longestName (fields : List Field) : Nat :=
  fields.foldl (fun longest field => max longest field.name.name.length) 0

/-- The lines of a block. -/
def definition : Definition → Except Unprintable (List (List Char))
  | .model model => do
    let body ← model.fields.mapM (field (longestName model.fields))
    return block ("model ".toList ++ model.name.name.toList) body
  | .config config => do
    let body ← config.options.mapM option
    return block (config.kind.keyword.toList ++ ' ' :: config.name.name.toList) body

/-- The lines of a whole text, with a blank line between blocks. -/
def lines (definitions : List Definition) : Except Unprintable (List (List Char)) := do
  let blocks ← definitions.mapM definition
  return (blocks.intersperse [[]]).flatten

end Layout

end SchemaLang
