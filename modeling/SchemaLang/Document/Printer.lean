import SchemaLang.Document.Layout

/-! Printing a tree. The printer keeps the lines that are done, the line in progress and
how many levels deep it stands. A line gets its indentation when it ends, unless it is
empty, and every level that is opened has to be closed again. -/
namespace SchemaLang

/-- A text under construction: the lines that are done, the line in progress, and how many
levels deep that stands. -/
structure Printer where
  lines : Array (List Char)
  current : List Char
  depth : Nat

/-- A step of printing changes the text under construction, unless it is refused. -/
abbrev Printing (α : Type) := StateT Printer (Except Unprintable) α

namespace Printer

/-- Nothing is printed yet. -/
def blank : Printer := ⟨#[], [], 0⟩

/-! ## The buffer -/

/-- Goes on with the line in progress. -/
def write (text : List Char) : Printing Unit :=
  modify fun printer => { printer with current := printer.current ++ text }

/-- Goes on with the line in progress at a column, its indentation not counted. Nothing is
taken back if the line is longer already. -/
def writeAligned (text : List Char) (column : Nat) : Printing Unit := do
  let printer ← get
  write (Layout.spaces (column - printer.current.length))
  write text

/-- Ends the line in progress. -/
def newLine : Printing Unit :=
  modify fun printer =>
    let line :=
      if printer.current.isEmpty then []
      else Layout.spaces (printer.depth * Layout.indentWidth) ++ printer.current
    { printer with lines := printer.lines.push line, current := [] }

/-- Opens a level. -/
def indent : Printing Unit :=
  modify fun printer => { printer with depth := printer.depth + 1 }

/-- Closes a level. At the margin there is none to close. -/
def unindent : Printing Unit := do
  let printer ← get
  if printer.depth = 0 then throw .belowMargin
  else set { printer with depth := printer.depth - 1 }

/-- Prints items, with something between one and the next. -/
def separated {α : Type} (between : Printing Unit) (item : α → Printing Unit) :
    List α → Printing Unit
  | [] => pure ()
  | first :: others => do
    item first
    others.forM fun next => do
      between
      item next

/-- Ends the line in progress, if there is anything in it. -/
def endLine : Printing Unit := do
  let printer ← get
  unless printer.current.isEmpty do newLine

/-- The whole text, with line feeds between its lines. -/
def finish : Printing String := do
  endLine
  let printer ← get
  return String.ofList (['\n'].intercalate printer.lines.toList)

/-! ## Trees -/

/-- A value in quotes, if a literal stands for it. -/
def literal (value : String) : Printing Unit :=
  if Literal.isPrintable value.toList then do
    write ['"']
    write (Literal.escape value.toList)
    write ['"']
  else throw (.value value)

mutual

/-- A value. -/
def expression : Expression → Printing Unit
  | .string value _ => literal value
  | .boolean value _ => write (if value then "true" else "false").toList
  | .call name arguments _ => do
    write name.name.toList
    write ['(']
    expressions arguments
    write [')']

/-- Values with commas between them. -/
def expressions : List Expression → Printing Unit
  | [] => pure ()
  | first :: others => do
    expression first
    further others

/-- Values behind another one. -/
def further : List Expression → Printing Unit
  | [] => pure ()
  | next :: others => do
    write [',', ' ']
    expression next
    further others

end

/-- Values in parentheses. -/
def arguments (values : List Expression) : Printing Unit := do
  write ['(']
  expressions values
  write [')']

/-- A marker. Without arguments it has no parentheses. -/
def marker (mark : Attribute) : Printing Unit := do
  write mark.name.toList
  unless mark.arguments.isEmpty do arguments mark.arguments

/-- A type, at a column. -/
def fieldType (column : Nat) (type : FieldType) : Printing Unit := do
  writeAligned type.name.name.toList column
  write type.modifier.suffix.toList

/-- A field, with its type at a column. -/
def field (column : Nat) (field : Field) : Printing Unit := do
  write field.name.name.toList
  write [' ', ' ']
  fieldType column field.type
  field.attributes.forM fun mark => do
    write [' ']
    marker mark

/-- An option. -/
def option (option : ConfigOption) : Printing Unit := do
  write option.key.name.toList
  write " = ".toList
  expression option.value

/-- The lines of a body, one level deeper. -/
def body {α : Type} (item : α → Printing Unit) (items : List α) : Printing Unit :=
  unless items.isEmpty do
    indent
    separated newLine item items
    newLine
    unindent

/-- A block: its header, its body, and the closing brace. -/
def block {α : Type} (header : List (List Char)) (item : α → Printing Unit) (items : List α) :
    Printing Unit := do
  header.forM write
  write [' ', '{']
  newLine
  body item items
  write ['}']
  newLine

/-- A block of either kind. The types of a model stand behind its longest field name. -/
def definition : Definition → Printing Unit
  | .model model =>
    block ["model ".toList, model.name.name.toList]
      (field (Layout.longestName model.fields + Layout.typeGap)) model.fields
  | .config config =>
    block [config.kind.keyword.toList, [' '], config.name.name.toList] option config.options

/-- All blocks. Each of them ends its last line, so that between them an empty one is
left. -/
def document (document : Document) : Printing Unit := do
  separated newLine definition document.definitions
  newLine

end Printer

/-- The canonical text of a tree. -/
def Document.print (document : Document) : Except Unprintable String :=
  StateT.run' (do Printer.document document; Printer.finish) .blank

end SchemaLang
