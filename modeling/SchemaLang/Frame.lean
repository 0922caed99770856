import SchemaLang.Position
import SchemaLang.Text.Width

/-! A code frame shows the lines around a place of a text, with a label under the
place. For finding its lines a frame takes line feeds, carriage returns and the
two together as line breaks, and its own columns count bytes; the lines it then
shows end only at line feeds. -/
namespace SchemaLang

/-- What a frame points at: some bytes of a text, and what to say about them. -/
structure FrameLabel where
  offset : Nat
  length : Nat
  text : String

/-- The offsets of the first and the last byte of a line break. -/
structure LineBreak where
  first : Nat
  last : Nat
deriving DecidableEq

/-- All line breaks of a text that starts at an offset. -/
def lineBreaks (offset : Nat) : List Char → List LineBreak
  | [] => []
  | '\r' :: '\n' :: rest => ⟨offset, offset + 1⟩ :: lineBreaks (offset + 2) rest
  | char :: rest =>
    if char = '\r' ∨ char = '\n' then ⟨offset, offset⟩ :: lineBreaks (offset + 1) rest
    else lineBreaks (offset + char.utf8Size) rest

namespace Frame

/-- A line as a frame shows it: its number, where it starts, how many bytes it
takes with its line break, and its text without the break. -/
structure Line where
  number : Nat
  offset : Nat
  length : Nat
  text : List Char
deriving DecidableEq

/-- The part of a text that a frame shows, and how many lines come before it. -/
structure Window where
  start : Nat
  stop : Nat
  skipped : Nat
deriving DecidableEq

/-- The last byte that must exist for a label to be shown. -/
def lastByte (offset length : Nat) : Nat := offset + length - 1

/-- The line breaks that end before an offset. -/
def breaksBefore (breaks : List LineBreak) (offset : Nat) : List LineBreak :=
  breaks.takeWhile fun found => decide (found.last < offset)

/-- Where the lines begin that come after the given breaks. -/
def lineStarts (breaks : List LineBreak) : List Nat := 0 :: breaks.map (·.last + 1)

/-- The line and the column of an offset, both counted from zero, the column in
bytes. -/
def place (source : List Char) (offset : Nat) : Nat × Nat :=
  let breaks := lineBreaks 0 source
  let passed := breaksBefore breaks offset
  let lineStart := (lineStarts passed).getLastD 0
  let reached := min offset (Position.byteLength source)
  let stop := match breaks.drop passed.length with
    | [] => reached
    | next :: _ => min reached next.first
  (passed.length, stop - lineStart)

/-- The lines around a label: from the line before the one it starts in to the
line after the one it ends in. A label beyond the end of the text has none. -/
def window? (source : List Char) (offset length : Nat) : Option Window :=
  let total := Position.byteLength source
  let last := lastByte offset length
  if total < last then none
  else
    let breaks := lineBreaks 0 source
    let passed := breaksBefore breaks offset
    let skipped := passed.length - 1
    let start := (lineStarts passed).getD skipped 0
    let stop := match breaks.filter fun found => decide (last < found.first) with
      | _ :: second :: _ => second.last + 1
      | _ => total
    some ⟨start, stop, skipped⟩

/-- The characters that start before a byte offset. -/
def takeBytes : Nat → List Char → List Char
  | _, [] => []
  | count, char :: rest =>
    if count = 0 then [] else char :: takeBytes (count - char.utf8Size) rest

/-- The characters that start at or behind a byte offset. -/
def dropBytes : Nat → List Char → List Char
  | _, [] => []
  | count, char :: rest =>
    if count = 0 then char :: rest else dropBytes (count - char.utf8Size) rest

/-- Splits a text into the lines that are shown. The characters of the line in
progress are given in reverse, with the bytes they take. A last line that stops
with a carriage return keeps the number before it. -/
def splitLines (number offset : Nat) (current : List Char) (taken : Nat) :
    List Char → List Line
  | [] =>
    match current with
    | [] => []
    | '\r' :: _ => [⟨number, offset, taken, current.reverse⟩]
    | _ => [⟨number + 1, offset, taken, current.reverse⟩]
  | '\r' :: '\n' :: rest =>
    ⟨number + 1, offset, taken + 2, current.reverse⟩ ::
      splitLines (number + 1) (offset + taken + 2) [] 0 rest
  | '\n' :: rest =>
    ⟨number + 1, offset, taken + 1, current.reverse⟩ ::
      splitLines (number + 1) (offset + taken + 1) [] 0 rest
  | char :: rest => splitLines number offset (char :: current) (taken + char.utf8Size) rest

/-- The lines inside a window. -/
def lines (source : List Char) (window : Window) : List Line :=
  splitLines window.skipped window.start [] 0
    (takeBytes (window.stop - window.start) (dropBytes window.start source))

/-- The columns a character takes from a column on. Tabs reach to the next
multiple of four. -/
def columnsAt (column : Nat) (char : Char) : Nat :=
  if char = '\t' then 4 - column % 4 else charWidth char

/-- The columns a line of text takes. -/
def textColumns (text : List Char) : Nat :=
  text.foldl (fun column char => column + columnsAt column char) 0

/-- A line of text with its tabs replaced by spaces. -/
def expandTabs (column : Nat) : List Char → List Char
  | [] => []
  | char :: rest =>
    let width := columnsAt column char
    (if char = '\t' then List.replicate width ' ' else [char]) ++ expandTabs (column + width) rest

/-- The column at which an offset is shown in a line. An offset inside the line
break comes one column behind the text. -/
def shownColumn (line : Line) (offset : Nat) : Nat :=
  let inside := offset - line.offset
  let columns := textColumns (takeBytes inside line.text)
  if Position.byteLength line.text < inside then columns + 1 else columns

/-- A character several times. -/
def times (count : Nat) (char : Char) : String := String.ofList (List.replicate count char)

/-- Whether a label stands in a line. -/
def labelled (label : FrameLabel) (line : Line) : Bool :=
  let stop := label.offset + max label.length 1
  (decide (line.offset ≤ label.offset) && decide (label.offset < line.offset + line.length)) ||
    (decide (line.offset < stop) && decide (stop ≤ line.offset + line.length))

/-- The two lines that point at the label. -/
def pointer (gutter : String) (label : FrameLabel) (line : Line) : String :=
  let first := shownColumn line label.offset
  let stop :=
    if label.length = 0 then first + 1
    else max (shownColumn line (label.offset + label.length)) (first + 1)
  let middle := (first + stop) / 2
  let mark := if label.length = 0 then "▲" else "┬"
  gutter ++ times first ' ' ++ times (middle - first) '─' ++ mark ++
    times (stop - middle - 1) '─' ++ "\n" ++
    gutter ++ times middle ' ' ++ "╰── " ++ label.text ++ "\n"

/-- One line of the frame, and what points into it. -/
def row (width : Nat) (label : FrameLabel) (line : Line) : String :=
  let number := toString line.number
  let shown := " " ++ times (width - number.length) ' ' ++ number ++ " │ " ++
    String.ofList (expandTabs 0 line.text) ++ "\n"
  if labelled label line then
    shown ++ pointer (" " ++ times width ' ' ++ " · ") label line
  else shown

/-- The place named in the top line: with the file if there is one, and without
a file only if there are several lines to choose from. -/
def header (source : List Char) (label : FrameLabel) (file : Option String) (count : Nat) :
    String :=
  let (line, column) := place source label.offset
  let numbers := toString (line + 1) ++ ":" ++ toString (column + 1)
  match file with
  | some name => "[" ++ name ++ ":" ++ numbers ++ "]"
  | none => if count > 1 then "[" ++ numbers ++ "]" else "───"

/-- The whole frame, or a note that the label lies beyond the text. -/
def render (source : List Char) (label : FrameLabel) (file : Option String) : String :=
  match window? source label.offset label.length with
  | none =>
    "  [Failed to read contents for label `" ++ label.text ++ "` (offset: " ++
      toString label.offset ++ ", length: " ++ toString label.length ++ "): OutOfBounds]\n"
  | some window =>
    let shown := lines source window
    let width := (toString ((shown.getLast?.map Line.number).getD 0)).length
    times (width + 2) ' ' ++ "╭─" ++ header source label file shown.length ++ "\n" ++
      String.join (shown.map (row width label)) ++
      times (width + 2) ' ' ++ "╰────\n"

end Frame

end SchemaLang
