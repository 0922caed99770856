/-! Paths as they are typed. Two spellings name the same path when their
components agree: doubled and trailing slashes and inner dots do not count, a
leading dot does. Paths are ordered by their components. -/
namespace SchemaLang.Path

/-- Splits a text at its slashes, keeping empty pieces. -/
def splitSlashes : List Char → List (List Char)
  | [] => [[]]
  | '/' :: rest => [] :: splitSlashes rest
  | char :: rest =>
    match splitSlashes rest with
    | [] => [[char]]
    | piece :: pieces => (char :: piece) :: pieces

/-- The pieces of a path between its slashes. -/
def pieces (path : String) : List String := (splitSlashes path.toList).map String.ofList

/-- Whether a path starts at the root. -/
def isAbsolute (path : String) : Bool := path.toList.head? == some '/'

/-- One step of a path. -/
inductive Component where
  | root
  | current
  | parent
  | normal (name : String)
deriving DecidableEq

namespace Component

/-- Steps of different kinds are ordered by kind. -/
def rank : Component → Nat
  | root => 0
  | current => 1
  | parent => 2
  | normal _ => 3

/-- The order of steps. Names are ordered by their characters. -/
def le : Component → Component → Bool
  | normal a, normal b => decide (a ≤ b)
  | a, b => decide (a.rank ≤ b.rank)

/-- The step that a piece in the middle of a path stands for, if any. -/
def ofPiece? (piece : String) : Option Component :=
  if piece = "" ∨ piece = "." then none
  else if piece = ".." then some parent
  else some (normal piece)

end Component

/-- The steps of a path. A dot counts only at the front of a relative path. -/
def components (path : String) : List Component :=
  let steps := (pieces path).filterMap Component.ofPiece?
  if isAbsolute path then .root :: steps
  else if (pieces path).head? = some "." then .current :: steps
  else steps

/-- The order of lists of steps: by the first step in which they differ, and a
beginning comes before what it begins. -/
def componentsLe : List Component → List Component → Bool
  | [], _ => true
  | _ :: _, [] => false
  | a :: as, b :: bs => if a = b then componentsLe as bs else a.le b

/-- The order of paths. -/
def le (a b : String) : Bool := componentsLe (components a) (components b)

/-- Whether two spellings name the same path. -/
def same (a b : String) : Bool := components a == components b

/-- Puts a piece behind a path, with exactly one slash between them. An empty
piece leaves a path that ends in a slash. -/
def join (path piece : String) : String :=
  match path.toList.getLast? with
  | none => piece
  | some '/' => path ++ piece
  | some _ => path ++ "/" ++ piece

end SchemaLang.Path
