/-! Positions count bytes, lines and characters of a text at the same time, so
that every later report can name a place without looking at the text again.
Counting is total on natural numbers; a second, checked form keeps all three
counters inside a 64-bit word and says when they would leave it. -/
namespace SchemaLang

/-- A point in a text. Lines and columns start at one and columns count
characters; the offset counts the bytes before the point. -/
structure Position where
  offset : Nat
  line : Nat
  column : Nat
deriving DecidableEq

namespace Position

/-- The point before the first character of any text. -/
def start : Position := ⟨0, 1, 1⟩

instance : Inhabited Position := ⟨start⟩

/-- Only a line feed begins a new line. -/
def lineFeed : Char := '\n'

/-- The point after one more character. -/
def step (position : Position) (char : Char) : Position :=
  if char = lineFeed then
    ⟨position.offset + char.utf8Size, position.line + 1, 1⟩
  else
    ⟨position.offset + char.utf8Size, position.line, position.column + 1⟩

/-- The point reached after reading a text from here. -/
def advance (position : Position) (text : List Char) : Position :=
  text.foldl step position

/-- The number of bytes a text takes when it is stored. -/
def byteLength (text : List Char) : Nat :=
  text.foldr (fun char bytes => char.utf8Size + bytes) 0

/-- Counters are 64-bit words and stay below this number. -/
def wordLimit : Nat := UInt64.size

/-- Adds to a counter, unless the sum no longer fits a word. -/
def add? (counter amount : Nat) : Option Nat :=
  if counter + amount < wordLimit then some (counter + amount) else none

/-- Moves line and column over one character, leaving the offset alone. -/
def stepLine? (position : Position) (char : Char) : Option Position :=
  if char = lineFeed then
    (add? position.line 1).map fun line => { position with line, column := 1 }
  else
    (add? position.column 1).map fun column => { position with column }

/-- The checked form of `advance`. Lines and columns move character by
character and the bytes are added once, after the last character. -/
def advance? (position : Position) (text : List Char) : Option Position := do
  let moved ← text.foldlM stepLine? position
  let offset ← add? position.offset (byteLength text)
  return { moved with offset }

/-- Points are ordered by offset, then line, then column. -/
def compare (a b : Position) : Ordering :=
  (Ord.compare a.offset b.offset).then
    ((Ord.compare a.line b.line).then (Ord.compare a.column b.column))

instance : Ord Position := ⟨compare⟩

/-- Whether the first point comes strictly after the second. -/
def isAfter (a b : Position) : Bool := compare a b == .gt

/-- Points read as `line:column`. -/
def display (position : Position) : String :=
  toString position.line ++ ":" ++ toString position.column

end Position

/-- The part of a text from one point up to, and not including, another. -/
structure Span where
  start : Position
  stop : Position
deriving DecidableEq

namespace Span

/-- A part without width. -/
def point (position : Position) : Span := ⟨position, position⟩

instance : Inhabited Span := ⟨point .start⟩

/-- Whether the other part lies inside this one, judged by bytes alone. -/
def contains (span other : Span) : Bool :=
  decide (span.start.offset ≤ other.start.offset) && decide (other.stop.offset ≤ span.stop.offset)

/-- The number of bytes covered. A part whose ends are reversed covers none. -/
def length (span : Span) : Nat := span.stop.offset - span.start.offset

/-- Whether no byte is covered. -/
def isEmpty (span : Span) : Bool := span.length == 0

/-- Parts read as their two ends with two dots between them. -/
def display (span : Span) : String := span.start.display ++ ".." ++ span.stop.display

end Span

end SchemaLang
