import SchemaLang.Command.Run

/-! The program. It takes a picture of the files that a command line speaks of,
runs the command line on the picture, and carries the changes over to the
files. Everything else is decided by the run itself. -/
namespace SchemaLang.Program

/-- The location of a path, seen from a directory. -/
def locate (directory : Location) (path : String) : Location :=
  (Path.pieces path).foldl (fun place piece =>
    if piece = "" ∨ piece = "." then place
    else if piece = ".." then place.dropLast
    else place ++ [piece]) (if Path.isAbsolute path then [] else directory)

/-- The path of a location. -/
def pathOf (place : Location) : String := "/" ++ "/".intercalate place

/-- The directories on the way to a location. -/
def ancestors (place : Location) : List (Location × Entry) :=
  ((List.range place.length).map place.take).filterMap fun parent =>
    if parent = [] then none else some (parent, .directory)

/-- The part of a path in front of its first wildcard. -/
def searchBase (path : String) : String :=
  let plain := (Path.pieces path).takeWhile fun piece =>
    !piece.toList.any fun char => char == '*' || char == '?' || char == '['
  if plain.isEmpty then "." else "/".intercalate plain

/-- The paths that a command line speaks of. -/
def pathsOf : Request → List String
  | .check paths => paths
  | .format paths _ _ => paths
  | .ast file => [file]
  | .completions _ => []

/-- Whether the content of a file can matter to a run that does not name it. -/
def isSchemaFile (name : String) : Bool := name.endsWith ".prisma"

/-- Everything at and below a location. Files whose content cannot matter are
taken over without it, and what cannot be listed is left out. -/
partial def picture (place : Location) (named : Bool) : IO (List (Location × Entry)) := do
  let path := (← IO.currentDir) / pathOf place
  if ← path.isDir then
    let children ← try path.readDir catch _ => pure #[]
    let inside ← children.toList.mapM fun child => picture (place ++ [child.fileName]) false
    return (place, .directory) :: inside.flatten
  else if ← path.pathExists then
    if named || isSchemaFile (place.getLastD "") then
      return [(place, .file (← IO.FS.readBinFile path))]
    else return [(place, .file .empty)]
  else return []

/-- The files that a command line speaks of. -/
def tree (environment : Environment) (words : List String) : IO FileTree := do
  let directory := locate [] (← IO.currentDir).toString
  match Arguments.parse environment words with
  | .error _ => return ⟨ancestors directory ++ [(directory, .directory)], directory⟩
  | .ok invocation =>
    let places := (pathsOf invocation.request).map fun path =>
      locate directory (searchBase path)
    let pictures ← places.mapM fun place => do return ancestors place ++ (← picture place true)
    return ⟨ancestors directory ++ [(directory, .directory)] ++ pictures.flatten, directory⟩

/-- Writes the files whose content a run replaced. -/
def carryOver (before after : FileTree) : IO Unit :=
  (before.entries.zip after.entries).forM fun ((place, old), (_, new)) => do
    match old, new with
    | .file former, .file content =>
      if former.data ≠ content.data then IO.FS.writeBinFile (pathOf place) content
    | _, _ => pure ()

/-- Runs a command line on the files of the machine. -/
def run (words : List String) : IO UInt32 := do
  let environment : Environment :=
    ⟨← IO.getEnv "PRISMA_SCHEMA_FORMAT", ← IO.getEnv "NO_COLOR"⟩
  let before ← tree environment words
  let outcome := Command.run environment words before
  carryOver before outcome.tree
  IO.print outcome.output
  IO.eprint outcome.messages
  return UInt32.ofNat outcome.exit

end SchemaLang.Program

/-- Runs the program on its words. -/
def main (words : List String) : IO UInt32 := SchemaLang.Program.run words
