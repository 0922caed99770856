import SchemaLang.Position

/-! Tokens are the words of a schema text. Each one keeps the text it was read
from and both of its ends. -/
namespace SchemaLang

/-- What a token is, apart from its spelling. -/
inductive TokenKind where
  /-- A letter followed by letters, digits and underscores. Keywords and the
  two truth values are identifiers too. -/
  | identifier
  /-- A marker such as `@id` or `@db.VarChar`. -/
  | attributeName
  /-- A literal in double quotes, quotes included. -/
  | string
  | leftBrace
  | rightBrace
  | leftParen
  | rightParen
  | comma
  | question
  | equals
  /-- The pair `[]` that marks a list type. -/
  | brackets
  | endOfInput
deriving DecidableEq

namespace TokenKind

/-- Every kind, in the order in which kinds are listed. -/
def all : List TokenKind :=
  [identifier, attributeName, string, leftBrace, rightBrace, leftParen, rightParen, comma, question,
    equals, brackets, endOfInput]

/-- How messages speak of a kind. -/
def description : TokenKind → String
  | identifier => "identifier"
  | attributeName => "attribute"
  | string => "string literal"
  | leftBrace => "'\x7b'"
  | rightBrace => "'\x7d'"
  | leftParen => "'('"
  | rightParen => "')'"
  | comma => "','"
  | question => "'?'"
  | equals => "'='"
  | brackets => "'[]'"
  | endOfInput => "end of input"

end TokenKind

/-- A classified piece of a text together with the place it was read from. -/
structure Token where
  kind : TokenKind
  text : String
  start : Position
  stop : Position
deriving DecidableEq

namespace Token

/-- The part of the text that a token covers. -/
def span (token : Token) : Span := ⟨token.start, token.stop⟩

/-- The token that marks the end of a text. It covers nothing. -/
def endAt (position : Position) : Token := ⟨.endOfInput, "", position, position⟩

end Token

end SchemaLang
