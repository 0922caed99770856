import SchemaLang.ParseError

/-! Parsers read tokens from a cursor and may fail, and a parser that fails says
where it left the cursor. The meanings of all grammar rules are built here from
a few operations: look, move, go back, and run with the failure in hand. -/
namespace SchemaLang

/-- What a parser works on: the cursor, and how many call levels are open. -/
structure ParserState where
  cursor : Cursor
  depth : Nat
deriving DecidableEq

/-- Why a run ended without a value. Only a failed parse can be recovered from:
a misplaced cursor and an exhausted step budget end every run around them. -/
inductive Halt where
  | failed (error : ParseError)
  | misplaced (fault : RestoreFault)
  | exhausted
deriving DecidableEq

/-- A parser maps a state to a value or the reason for having none, and in both
cases to the state in which it stopped. -/
abbrev Parser (α : Type) := EStateM Halt ParserState α

namespace ParserState

/-- The state before the first token of a text. -/
def ofText (text : List Char) : ParserState := ⟨.ofText text, 0⟩

end ParserState

namespace Parser

variable {α β : Type}

/-- Takes the answer of a cursor operation over into a parser. -/
def reading (operation : Cursor → Except LexError Token × Cursor) : Parser Token :=
  fun ⟨cursor, depth⟩ =>
    match operation cursor with
    | (.ok token, cursor) => .ok token ⟨cursor, depth⟩
    | (.error failure, cursor) => .error (.failed (.ofLexError failure)) ⟨cursor, depth⟩

/-- Looks at the next token. -/
def peek : Parser Token := reading Cursor.peek

/-- Takes the next token. -/
def advance : Parser Token := reading Cursor.advance

/-- The ordinal of the next token. -/
def pointer : Parser Nat := fun state => .ok state.cursor.pointer state

/-- Goes to an ordinal that has been read before. -/
def restore (pointer : Nat) : Parser Unit := fun state =>
  match state.cursor.restore pointer with
  | .ok cursor => .ok () { state with cursor }
  | .error fault => .error (.misplaced fault) state

/-- Ends the run with a failure. -/
def fail (error : ParseError) : Parser α := throw (.failed error)

/-- Runs a parser and hands out its failure as a value. -/
def attempt (parser : Parser α) : Parser (Except ParseError α) := fun state =>
  match parser state with
  | .ok value state => .ok (.ok value) state
  | .error (.failed error) state => .ok (.error error) state
  | .error halt state => .error halt state

/-- Runs a parser and goes back to where it began if it fails. -/
def rewinding (parser : Parser α) : Parser α := do
  let start ← pointer
  match ← parser.attempt with
  | .ok value => return value
  | .error error =>
    restore start
    fail error

/-- The value of an optional part: nothing if the part fails, unless its failure
is fatal. -/
def recovered : Except ParseError α → Parser (Option α)
  | .ok value => pure (some value)
  | .error error => if error.isFatal then fail error else pure none

/-- One token of a kind. -/
def token (kind : TokenKind) : Parser Token := do
  let next ← peek
  if next.kind = kind then advance
  else fail (.mismatch ("Expected " ++ kind.description) next.start)

/-- One identifier with a given spelling. -/
def keyword (word : String) : Parser Token := do
  let next ← peek
  if next.kind = .identifier ∧ next.text = word then advance
  else fail (.mismatch ("Expected keyword " ++ word) next.start)

/-- The first alternative that matches. If none does, the failure that got
furthest is reported, beginning with the one in hand. -/
def firstOf (furthest : ParseError) : List (Parser α) → Parser α
  | [] => fail furthest
  | alternative :: others => do
    match ← alternative.attempt with
    | .ok value => return value
    | .error error =>
      if error.isFatal then fail error else firstOf (furthest.furthest error) others

/-- A choice between alternatives, with the message for a text that fits none
of them from its first token on. -/
def choice (message : String) (alternatives : List (Parser α)) : Parser α := do
  let next ← peek
  firstOf (.mismatch message next.start) alternatives

/-- A part or nothing. -/
def optional (parser : Parser α) : Parser (Option α) := do
  recovered (← parser.attempt)

/-- As many parts as there are. A part that takes no token is the last one. -/
def zeroOrMore (parser : Parser α) : Nat → Parser (List α)
  | 0 => throw .exhausted
  | budget + 1 => do
    let before ← pointer
    match ← recovered (← parser.attempt) with
    | none => return []
    | some value =>
      if (← pointer) = before then return [value]
      else return value :: (← zeroOrMore parser budget)

/-- The parts of a list after its first one. A separator without a part behind
it is given back. -/
def separatedTail (parser : Parser α) (separator : Parser β) : Nat → Parser (List α)
  | 0 => throw .exhausted
  | budget + 1 => do
    let before ← pointer
    match ← attempt (do let _ ← separator; parser) with
    | .ok value => return value :: (← separatedTail parser separator budget)
    | .error error =>
      restore before
      if error.isFatal then fail error else return []

/-- A list of parts with separators between them. -/
def separated (parser : Parser α) (separator : Parser β) (budget : Nat) : Parser (List α) := do
  match ← recovered (← parser.attempt) with
  | none => return []
  | some first => return first :: (← separatedTail parser separator budget)

/-- Parts up to a closing token, which is taken as well. A part that takes no
token is refused. -/
def takeUntil (parser : Parser α) (stop : TokenKind) : Nat → Parser (List α × Token)
  | 0 => throw .exhausted
  | budget + 1 => do
    let next ← peek
    if next.kind = stop then
      return ([], ← advance)
    else
      let before ← pointer
      let value ← parser
      if (← pointer) = before then
        fail (.mismatch ("Expected " ++ stop.description) next.start)
      else
        let (values, close) ← takeUntil parser stop budget
        return (value :: values, close)

/-- Puts a failure that is not fatal into other words. -/
def withMessage (message : String) (parser : Parser α) : Parser α := do
  match ← parser.attempt with
  | .ok value => return value
  | .error error => fail (if error.isFatal then error else error.withMessage message)

/-- Runs a parser one level deeper. At the limit it is not run, and the token in
front of the cursor is reported. -/
def nested (limit : Nat) (parser : Parser α) : Parser α := fun state =>
  if limit ≤ state.depth then
    (do fail (.tooDeep (← peek).start) : Parser α) state
  else
    match parser { state with depth := state.depth + 1 } with
    | .ok value after => .ok value { after with depth := after.depth - 1 }
    | .error halt after => .error halt { after with depth := after.depth - 1 }

end Parser

end SchemaLang
