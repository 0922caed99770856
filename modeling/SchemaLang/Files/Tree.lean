import SchemaLang.Files.Path

/-! A file tree holds files and directories by location, a location being the
names from the root down, and knows the directory in which commands run. Paths
are resolved step by step, so a path through something that is no directory does
not lead anywhere. -/
namespace SchemaLang

/-- What stands at a location. -/
inductive Entry where
  | file (content : ByteArray)
  | directory

/-- Whether a directory stands there. -/
def Entry.isDirectory : Entry → Bool
  | file _ => false
  | directory => true

/-- Why a file cannot be read as text. -/
inductive ReadFault where
  | notFound
  | notDirectory
  | isDirectory
  | nameTooLong
  | notText
deriving DecidableEq

namespace ReadFault

/-- The text that reports a fault. -/
def message : ReadFault → String
  | notFound => "No such file or directory (os error 2)"
  | notDirectory => "Not a directory (os error 20)"
  | isDirectory => "Is a directory (os error 21)"
  | nameTooLong => "File name too long (os error 36)"
  | notText => "stream did not contain valid UTF-8"

end ReadFault

/-- The names that lead from the root to a place. -/
abbrev Location := List String

/-- Files and directories by location, and the directory commands run in. The
root is a directory without an entry of its own. -/
structure FileTree where
  entries : List (Location × Entry)
  workingDirectory : Location

namespace FileTree

/-- What stands at a location, if anything. -/
def get? (tree : FileTree) (location : Location) : Option Entry :=
  if location = [] then some .directory else tree.entries.lookup location

/-- The number of bytes that a name may take. -/
def maxNameSize : Nat := 255

/-- The number of bytes that a path may take. -/
def maxPathSize : Nat := 4095

/-- Follows one piece of a path from a location, which must be a directory. -/
def follow (tree : FileTree) (location : Location) (piece : String) :
    Except ReadFault Location :=
  match tree.get? location with
  | none => .error .notFound
  | some (.file _) => .error .notDirectory
  | some .directory =>
    if piece = "" ∨ piece = "." then .ok location
    else if piece = ".." then .ok location.dropLast
    else if maxNameSize < piece.utf8ByteSize then .error .nameTooLong
    else
      match tree.get? (location ++ [piece]) with
      | none => .error .notFound
      | some _ => .ok (location ++ [piece])

/-- The location that a path leads to. The empty path leads nowhere, and one
that is too long is not followed at all. -/
def resolve (tree : FileTree) (path : String) : Except ReadFault Location :=
  if path = "" then .error .notFound
  else if maxPathSize < path.utf8ByteSize then .error .nameTooLong
  else
    let start := if Path.isAbsolute path then [] else tree.workingDirectory
    (Path.pieces path).foldlM tree.follow start

/-- What a path leads to, if anything. -/
def at? (tree : FileTree) (path : String) : Option Entry :=
  match tree.resolve path with
  | .ok location => tree.get? location
  | .error _ => none

/-- Whether a path leads to something. -/
def pathExists (tree : FileTree) (path : String) : Bool := (tree.at? path).isSome

/-- Whether a path leads to a directory. -/
def isDirectory (tree : FileTree) (path : String) : Bool :=
  (tree.at? path).any Entry.isDirectory

/-- Whether a path leads to a file. -/
def isFile (tree : FileTree) (path : String) : Bool :=
  match tree.at? path with
  | some (.file _) => true
  | _ => false

/-- What lies below a location: for each entry the names that lead to it from
there, at least one. -/
def below (tree : FileTree) (location : Location) : List (List String × Entry) :=
  tree.entries.filterMap fun (place, entry) =>
    if location.isPrefixOf place ∧ location.length < place.length then
      some (place.drop location.length, entry)
    else none

/-- The names that lead down from a path, for everything below it. A path that
leads nowhere has nothing below it. -/
def descend (tree : FileTree) (path : String) : List (List String × Entry) :=
  match tree.resolve path with
  | .ok location => tree.below location
  | .error _ => []

/-- The text of a file. -/
def read (tree : FileTree) (path : String) : Except ReadFault String := do
  let location ← tree.resolve path
  match tree.get? location with
  | none => .error .notFound
  | some .directory => .error .isDirectory
  | some (.file content) =>
    match String.fromUTF8? content with
    | some text => .ok text
    | none => .error .notText

/-- Replaces the content of the file at a location. -/
def put (tree : FileTree) (location : Location) (content : ByteArray) : FileTree :=
  { tree with
    entries := tree.entries.map fun (place, entry) =>
      if place = location then (place, .file content) else (place, entry) }

/-- Replaces the text of a file. A path that leads nowhere changes nothing. -/
def write (tree : FileTree) (path : String) (text : String) : FileTree :=
  match tree.resolve path with
  | .ok location => tree.put location text.toUTF8
  | .error _ => tree

end FileTree

end SchemaLang
