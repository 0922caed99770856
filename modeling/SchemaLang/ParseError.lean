import SchemaLang.Token.Cursor
import SchemaLang.Text.Quoted

/-! A parse error says what was expected and where. Its kind decides whether an
alternative may still be tried: a text that cannot be scanned or that nests too
deeply is refused at once. -/
namespace SchemaLang

/-- The classes of parse failure. -/
inductive ErrorKind where
  /-- No lexeme begins at the place. -/
  | unexpectedToken
  /-- A grammar rule did not match. -/
  | syntaxError
  /-- Calls nest past the limit. -/
  | nestingLimit
deriving DecidableEq

namespace ErrorKind

/-- The stable identifier under which a class is reported. -/
def code : ErrorKind → String
  | unexpectedToken => "prisma_schema::unexpected_token"
  | syntaxError => "prisma_schema::syntax_error"
  | nestingLimit => "prisma_schema::nesting_limit"

/-- What is written next to the place in a code frame. -/
def label : ErrorKind → String
  | unexpectedToken => "unrecognized character"
  | syntaxError => "here"
  | nestingLimit => "nested too deeply"

/-- The bare name of a class. -/
def name : ErrorKind → String
  | unexpectedToken => "UnexpectedToken"
  | syntaxError => "Syntax"
  | nestingLimit => "NestingLimit"

end ErrorKind

/-- A failure to parse, at a place of the text. -/
structure ParseError where
  kind : ErrorKind
  message : String
  position : Position
deriving DecidableEq

namespace ParseError

/-- A rule that did not match. -/
def mismatch (message : String) (position : Position) : ParseError :=
  ⟨.syntaxError, message, position⟩

/-- Calls that nest too deeply. -/
def tooDeep (position : Position) : ParseError :=
  ⟨.nestingLimit, "Expression nested too deeply", position⟩

/-- A character at which no lexeme begins. -/
def ofLexError (failure : LexError) : ParseError :=
  ⟨.unexpectedToken, "Unexpected character '" ++ failure.found.toString ++ "'", failure.position⟩

/-- Fatal failures end the parse; no other alternative is tried after them. -/
def isFatal (error : ParseError) : Bool :=
  match error.kind with
  | .unexpectedToken | .nestingLimit => true
  | .syntaxError => false

/-- The same failure in other words. -/
def withMessage (error : ParseError) (message : String) : ParseError :=
  { error with message }

/-- Of two failures the one further into the text, and the first on a tie. -/
def furthest (first second : ParseError) : ParseError :=
  if first.position.offset < second.position.offset then second else first

/-- Failures read as their message and place. -/
def display (error : ParseError) : String :=
  error.message ++ " at " ++ error.position.display

/-- The text that shows every part of a failure. -/
def details (error : ParseError) : String :=
  "ParseError \x7b kind: " ++ error.kind.name ++ ", message: " ++ quoted error.message ++
    ", position: Position \x7b offset: " ++ toString error.position.offset ++
    ", line: " ++ toString error.position.line ++
    ", column: " ++ toString error.position.column ++ " \x7d \x7d"

end ParseError

end SchemaLang
