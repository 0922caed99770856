import SchemaLang.Document.Grammar
import SchemaLang.Frame
import SchemaLang.Text.Lowercase

/-! Reports of parse errors. A report without a file shows the error with its
code; a diagnostic names the file, points at the character the error stands on,
and may add a hint. -/
namespace SchemaLang

namespace ParseError

/-- The report of an error in its text, without a file. -/
def render (error : ParseError) (source : String) : String :=
  error.kind.code ++ "\n\n  × " ++ error.display ++ "\n" ++
    Frame.render source.toList ⟨error.position.offset, 0, error.kind.label⟩ none

end ParseError

/-- What a report on a file says: a message, the bytes it points at with a label,
and perhaps a hint. -/
structure Diagnostic where
  message : String
  label : String
  offset : Nat
  length : Nat
  help : Option String
deriving DecidableEq

namespace Diagnostic

/-- The bytes of the character at an offset; none at the end of a text. -/
def widthAt (source : List Char) (offset : Nat) : Nat :=
  match Frame.dropBytes offset source with
  | [] => 0
  | char :: _ => char.utf8Size

/-- The label and the hint for an error that stands on a character of some
bytes, or on the end of the text. -/
def explain (error : ParseError) (width : Nat) : String × Option String :=
  match error.kind with
  | .unexpectedToken =>
    ("unrecognized character",
      some ("Only identifiers, @attributes, \"strings\" and the symbols \x7b \x7d ( ) , ? = [] " ++
        "may appear outside string literals."))
  | .syntaxError =>
    if width = 0 then
      ("input ended here",
        some "The file ended before the block was complete; check for a missing '\x7d'.")
    else (lowercaseFirst error.message, none)
  | .nestingLimit =>
    ("nesting limit reached here",
      some ("Function calls may nest at most " ++ toString Schema.maxCallDepth ++ " levels deep."))

/-- The diagnostic for an error in a text. -/
def ofError (error : ParseError) (source : String) : Diagnostic :=
  let width := widthAt source.toList error.position.offset
  let (label, help) := explain error width
  ⟨error.message, label, error.position.offset, width, help⟩

/-- Lines of a hint are at most this long. -/
def hintWidth : Nat := 78

/-- Puts words on lines, beginning a new indented line where the next word would
not fit. -/
def fill (column : Nat) : List String → String
  | [] => ""
  | word :: rest =>
    if column + 1 + word.length ≤ hintWidth then
      " " ++ word ++ fill (column + 1 + word.length) rest
    else
      "\n        " ++ word ++ fill (8 + word.length) rest

/-- The text of a hint. -/
def hint (text : String) : String :=
  "  help:" ++ fill 7 (text.splitOn " ") ++ "\n"

/-- The text of a diagnostic. -/
def render (diagnostic : Diagnostic) (source file : String) : String :=
  "  × " ++ diagnostic.message ++ "\n" ++
    Frame.render source.toList ⟨diagnostic.offset, diagnostic.length, diagnostic.label⟩
      (some file) ++
    (diagnostic.help.map hint).getD ""

end Diagnostic

end SchemaLang
