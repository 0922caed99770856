import SchemaLang.Files.Path

/-! Wildcard patterns for paths. A question mark stands for one character, a star
for any run of them, brackets for one character of a set, and two stars alone in
a piece for any number of directories. -/
namespace SchemaLang

/-- Characters of a bracket set: single ones and ranges. -/
structure CharRange where
  first : Char
  last : Char
deriving DecidableEq

/-- What one element of a pattern stands for. -/
inductive Wildcard where
  | literal (char : Char)
  | anyChar
  | anyRun
  | anyDirectories
  | within (ranges : List CharRange)
  | except (ranges : List CharRange)
deriving DecidableEq

/-- Why a text is no pattern, and at which character. -/
inductive PatternError where
  | tooManyStars (index : Nat)
  | recursiveInPiece (index : Nat)
  | invalidRange (index : Nat)
deriving DecidableEq

namespace PatternError

/-- The character at which a text stops being a pattern. -/
def index : PatternError → Nat
  | tooManyStars index => index
  | recursiveInPiece index => index
  | invalidRange index => index

/-- What is wrong there. -/
def reason : PatternError → String
  | tooManyStars _ => "wildcards are either regular `*` or recursive `**`"
  | recursiveInPiece _ => "recursive wildcards must form a single path component"
  | invalidRange _ => "invalid range pattern"

/-- The text that reports an error. -/
def message (error : PatternError) : String :=
  "Pattern syntax error near position " ++ toString error.index ++ ": " ++ error.reason

end PatternError

namespace Pattern

/-- The ranges inside brackets. A dash between two characters makes a range. -/
def ranges : List Char → List CharRange
  | first :: '-' :: last :: rest => ⟨first, last⟩ :: ranges rest
  | char :: rest => ⟨char, char⟩ :: ranges rest
  | [] => []

/-- The text up to the closing bracket and the text behind it. The first
character belongs to the set whatever it is. -/
def bracketed? : List Char → Option (List Char × List Char)
  | [] => none
  | first :: rest =>
    match rest.dropWhile (· ≠ ']') with
    | [] => none
    | _ :: behind => some (first :: rest.takeWhile (· ≠ ']'), behind)

/-- The set that brackets stand for, given the text behind the opening one, and
the text behind the closing one. -/
def set? : List Char → Option (Wildcard × List Char)
  | '!' :: rest => (bracketed? rest).map fun (inside, behind) => (.except (ranges inside), behind)
  | rest => (bracketed? rest).map fun (inside, behind) => (.within (ranges inside), behind)

/-- Reads the elements of a pattern. The budget is the number of characters
left, the index that of the next one, and the flag tells whether a piece of a
path starts there. -/
def elements (index : Nat) (starts : Bool) : Nat → List Char → Except PatternError (List Wildcard)
  | 0, _ => .ok []
  | _, [] => .ok []
  | budget + 1, '?' :: rest => return .anyChar :: (← elements (index + 1) false budget rest)
  | _, '*' :: '*' :: '*' :: _ => .error (.tooManyStars (index + 2))
  | budget + 1, '*' :: '*' :: rest =>
    if starts then
      match rest with
      | [] => .ok [.anyDirectories]
      | '/' :: rest => return .anyDirectories :: (← elements (index + 3) true budget rest)
      | _ => .error (.recursiveInPiece (index + 2))
    else .error (.recursiveInPiece (index - 1))
  | budget + 1, '*' :: rest => return .anyRun :: (← elements (index + 1) false budget rest)
  | budget + 1, '[' :: rest =>
    match set? rest with
    | none => .error (.invalidRange index)
    | some (set, behind) =>
      return set :: (← elements (index + 1 + (rest.length - behind.length)) false budget behind)
  | budget + 1, char :: rest =>
    return .literal char :: (← elements (index + 1) (char == '/') budget rest)

/-- The elements of a pattern. -/
def parse (text : List Char) : Except PatternError (List Wildcard) :=
  elements 0 true text.length text

/-- Whether a character lies in one of the ranges. -/
def inSet (ranges : List CharRange) (char : Char) : Bool :=
  ranges.any fun range => decide (range.first ≤ char) && decide (char ≤ range.last)

/-- Whether some rest of a text is accepted. -/
def someRest (accepts : List Char → Bool) : List Char → Bool
  | [] => accepts []
  | char :: rest => accepts (char :: rest) || someRest accepts rest

/-- Whether a name fits a pattern as a whole. -/
def accepts : List Wildcard → List Char → Bool
  | [], name => name.isEmpty
  | .anyRun :: others, name => someRest (accepts others) name
  | .anyDirectories :: others, name => someRest (accepts others) name
  | _ :: _, [] => false
  | .literal expected :: others, char :: rest => expected == char && accepts others rest
  | .anyChar :: others, _ :: rest => accepts others rest
  | .within set :: others, char :: rest => inSet set char && accepts others rest
  | .except set :: others, char :: rest => !inSet set char && accepts others rest

end Pattern

end SchemaLang
