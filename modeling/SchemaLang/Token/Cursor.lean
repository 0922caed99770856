import SchemaLang.Token.Scanner

/-! A cursor walks over the tokens of a text and may be put back. Tokens are read
on demand and kept by ordinal, so that going back never scans a text twice and
what is never looked at is never scanned. -/
namespace SchemaLang

/-- The tokens read so far, the ordinal of the token in front of the cursor, and
the scanner that reads further tokens. -/
structure Cursor where
  tokens : Array Token
  pointer : Nat
  scanner : Scanner
deriving DecidableEq

/-- A request to go to an ordinal that the cursor has not read up to. -/
structure RestoreFault where
  requested : Nat
  computed : Nat
deriving DecidableEq

namespace RestoreFault

/-- The text that reports a misplaced request. -/
def message (fault : RestoreFault) : String :=
  "attempt to restore to token " ++ toString fault.requested ++ ", only " ++
    toString fault.computed ++ " computed"

end RestoreFault

namespace Cursor

/-- The cursor before the first token, with nothing read yet. -/
def ofText (text : List Char) : Cursor := ⟨#[], 0, .ofText text⟩

/-- The token in front of the cursor, reading one more token if it has not been
read before. A character that begins no lexeme leaves the cursor as it was. -/
def peek (cursor : Cursor) : Except LexError Token × Cursor :=
  match cursor.tokens[cursor.pointer]? with
  | some token => (.ok token, cursor)
  | none =>
    match cursor.scanner.next with
    | .error failure => (.error failure, cursor)
    | .ok (token, scanner) =>
      (.ok token, { cursor with tokens := cursor.tokens.push token, scanner })

/-- The token in front of the cursor, and the cursor behind it. The cursor stays
in front of the end of input. -/
def advance (cursor : Cursor) : Except LexError Token × Cursor :=
  match cursor.peek with
  | (.error failure, cursor) => (.error failure, cursor)
  | (.ok token, cursor) =>
    if token.kind = .endOfInput then (.ok token, cursor)
    else (.ok token, { cursor with pointer := cursor.pointer + 1 })

/-- Puts the cursor in front of an ordinal up to which tokens have been read.
The first unread ordinal is allowed, even behind the end of input. -/
def restore (cursor : Cursor) (pointer : Nat) : Except RestoreFault Cursor :=
  if pointer ≤ cursor.tokens.size then .ok { cursor with pointer }
  else .error ⟨pointer, cursor.tokens.size⟩

end Cursor

end SchemaLang
