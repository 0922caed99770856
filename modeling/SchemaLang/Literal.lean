/-! String literals. Between its quotes a value is written as it is, except that
a quote gets a backslash in front of it. Other backslashes stand for themselves,
so not every value can be written: a backslash at the end, or an odd one before
a quote, would take the closing quote with it, and a line feed ends a literal. -/
namespace SchemaLang.Literal

/-- The text between the quotes for a value. -/
def escape : List Char → List Char
  | [] => []
  | '"' :: rest => '\\' :: '"' :: escape rest
  | char :: rest => char :: escape rest

/-- The value of the text between the quotes. -/
def unescape : List Char → List Char
  | [] => []
  | '\\' :: '"' :: rest => '"' :: unescape rest
  | char :: rest => char :: unescape rest

/-- Whether a text can stand between quotes: no bare quote, no line feed, and a
further character behind each backslash. -/
def isBody : List Char → Bool
  | [] => true
  | '"' :: _ => false
  | '\n' :: _ => false
  | '\\' :: [] => false
  | '\\' :: '\n' :: _ => false
  | '\\' :: _ :: rest => isBody rest
  | _ :: rest => isBody rest

/-- Whether a value can be written as a literal. -/
def isPrintable (value : List Char) : Bool := isBody (escape value)

/-- The literal that stands for a value. -/
def write (value : List Char) : List Char := '"' :: escape value ++ ['"']

/-- The value that a literal stands for. -/
def read (literal : List Char) : List Char := unescape (literal.drop 1).dropLast

end SchemaLang.Literal
