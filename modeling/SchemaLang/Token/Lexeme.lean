import SchemaLang.Token

/-! Lexemes are the spellings of tokens. At any point of a text at most one kind
of lexeme can begin, since the first character decides the kind, and the
longest spelling of that kind is taken. -/
namespace SchemaLang

/-- Characters that separate lexemes and carry no meaning. -/
def isBlank (char : Char) : Bool :=
  char == ' ' || char == '\t' || char == '\r' || char == '\n' || char == '\x0c'

/-- The first character of a name is one of the 52 plain letters. -/
def isNameStart (char : Char) : Bool :=
  (decide ('a' ≤ char) && decide (char ≤ 'z')) || (decide ('A' ≤ char) && decide (char ≤ 'Z'))

/-- Later characters of a name may also be plain digits and underscores. -/
def isNamePart (char : Char) : Bool :=
  isNameStart char || (decide ('0' ≤ char) && decide (char ≤ '9')) || char == '_'

/-- The longest continuation of a dotted name: name characters, and dots that
have the first letter of another name right behind them. -/
def dottedTail : List Char → List Char
  | [] => []
  | char :: rest =>
    if isNamePart char then char :: dottedTail rest
    else if char == '.' && rest.head?.any isNameStart then char :: dottedTail rest
    else []

/-- The rest of a string literal after its opening quote, closing quote
included. A backslash takes the next character with it, and a literal neither
crosses a line nor stays open. -/
def quotedTail? : List Char → Option (List Char)
  | [] => none
  | '"' :: _ => some ['"']
  | '\n' :: _ => none
  | '\\' :: [] => none
  | '\\' :: '\n' :: _ => none
  | '\\' :: char :: rest => (quotedTail? rest).map fun tail => '\\' :: char :: tail
  | char :: rest => (quotedTail? rest).map (char :: ·)

/-- Kinds whose only spelling is one character. -/
def punctuation? : Char → Option TokenKind
  | '{' => some .leftBrace
  | '}' => some .rightBrace
  | '(' => some .leftParen
  | ')' => some .rightParen
  | ',' => some .comma
  | '?' => some .question
  | '=' => some .equals
  | _ => none

/-- The longest lexeme at the front of a text, with its kind. -/
def lexeme? : List Char → Option (TokenKind × List Char)
  | [] => none
  | '@' :: char :: rest =>
    if isNameStart char then some (.attributeName, '@' :: char :: dottedTail rest) else none
  | '[' :: ']' :: _ => some (.brackets, ['[', ']'])
  | '"' :: rest => (quotedTail? rest).map fun tail => (.string, '"' :: tail)
  | char :: rest =>
    if isNameStart char then some (.identifier, char :: rest.takeWhile isNamePart)
    else (punctuation? char).map fun kind => (kind, [char])

end SchemaLang
