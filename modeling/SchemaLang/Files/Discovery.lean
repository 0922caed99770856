import SchemaLang.Files.Pattern
import SchemaLang.Files.Tree

/-! Finding schema files. A path that leads to a file is taken as it is typed. A
path that leads to a directory is made part of a wildcard pattern for everything
below it whose name ends in `.prisma`, so wildcards in its name are wildcards
here too. The files found are ordered by their components and listed once. -/
namespace SchemaLang

/-- One piece of a pattern. A piece without wildcards is a name. -/
inductive PatternPiece where
  | name (text : String)
  | directories
  | wild (elements : List Wildcard)
deriving DecidableEq

/-- Why no files could be listed. -/
inductive DiscoveryError where
  | nothingFound (path : String)
  | badPattern (error : PatternError)
deriving DecidableEq

namespace Discovery

/-- The text of a pattern without wildcards. -/
def plainText? : List Wildcard → Option (List Char)
  | [] => some []
  | .literal char :: rest => (plainText? rest).map (char :: ·)
  | _ :: _ => none

/-- Reads one piece of a pattern. -/
def piece (text : String) : Except PatternError PatternPiece := do
  let elements ← Pattern.parse text.toList
  match elements, plainText? elements with
  | _, some name => return .name (String.ofList name)
  | [.anyDirectories], none => return .directories
  | elements, none => return .wild elements

/-- Whether a name fits a piece. -/
def fits : PatternPiece → String → Bool
  | .name text, name => text == name
  | .directories, _ => true
  | .wild elements, name => Pattern.accepts elements name.toList

/-- Puts a name behind a path. Behind the current directory it stands alone. -/
def extend (path name : String) : String :=
  if Path.components path = [.current] then name else Path.join path name

/-- The path to something below a path. -/
def extendAll (path : String) (names : List String) : String := names.foldl extend path

/-- The dots that a pattern with a leading dot also stands for. They are found
before the names are. -/
def dots (elements : List Wildcard) : List String :=
  if elements.head? = some (.literal '.') then
    ["..", "."].filter fun dot => Pattern.accepts elements dot.toList
  else []

/-- Everything that fits a pattern, from a path on. -/
def search (tree : FileTree) : List PatternPiece → String → List String
  | [], path => [path]
  | .name text :: others, path =>
    let next := if Path.components path = [.current] then text else Path.join path text
    let found := if text = "." ∨ text = ".." then tree.isDirectory path else tree.pathExists next
    if found then search tree others next else []
  | .wild elements :: others, path =>
    if tree.isDirectory path then
      let named := (tree.descend path).filterMap fun (names, _) =>
        match names with
        | [name] => if Pattern.accepts elements name.toList then some (extend path name) else none
        | _ => none
      let dotted := (dots elements).map (Path.join path)
      (dotted ++ named).flatMap (search tree others)
    else []
  | [.directories], path =>
    (tree.descend path).filterMap fun (names, entry) =>
      if entry.isDirectory then some (extendAll path names) else none
  | .directories :: .directories :: others, path => search tree (.directories :: others) path
  | .directories :: next :: others, path =>
    ((tree.descend path).filterMap fun (names, _) =>
      match names.getLast? with
      | some name => if fits next name then some (extendAll path names) else none
      | none => none).flatMap (search tree others)

/-- The pattern for all schema files below a directory. -/
def patternBelow (path : String) : String := path ++ "/**/*.prisma"

/-- All schema files below a directory. The pattern as a whole is checked before
its pieces are. -/
def filesBelow (tree : FileTree) (path : String) : Except PatternError (List String) := do
  let pattern := patternBelow path
  let _ ← Pattern.parse pattern.toList
  if Path.isAbsolute pattern then
    let pieces ← ((Path.pieces pattern).drop 1).mapM piece
    return search tree pieces "/"
  else
    let pieces ← (Path.pieces pattern).mapM piece
    return search tree pieces "."

/-- The files that one path stands for. -/
def filesAt (tree : FileTree) (path : String) : Except DiscoveryError (List String) :=
  if tree.isFile path then .ok [path]
  else if tree.isDirectory path then (filesBelow tree path).mapError .badPattern
  else .error (.nothingFound path)

/-- Keeps the first of neighbours that name the same path. -/
def mergeNeighbours : List String → List String
  | [] => []
  | [path] => [path]
  | first :: second :: rest =>
    if Path.same first second then mergeNeighbours (first :: rest)
    else first :: mergeNeighbours (second :: rest)

/-- The directory that is searched when no path is given. -/
def defaultPath : String := "prisma/"

/-- The files that paths stand for, in order and without repetition. -/
def discover (tree : FileTree) (paths : List String) : Except DiscoveryError (List String) := do
  let files := (← paths.mapM (filesAt tree)).flatten
  if files.isEmpty then .error (.nothingFound (paths.headD defaultPath))
  else return mergeNeighbours (files.mergeSort Path.le)

end Discovery

end SchemaLang
