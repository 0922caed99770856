import SchemaLang.Command.Arguments
import SchemaLang.Command.Error
import SchemaLang.Diagnostic

/-! A command runs on a file tree and writes to two streams. Results go to the
first stream, messages to the second, so that results can be passed on. -/
namespace SchemaLang

/-- How results and messages are written. -/
structure Settings where
  format : OutputFormat
  quiet : Bool
deriving DecidableEq

/-- The files as they are now, and what has been written so far. -/
structure Session where
  tree : FileTree
  output : String := ""
  messages : String := ""

/-- A command changes a session and may end with an error; what it did before
the error stays. -/
abbrev Command (α : Type) := EStateM CommandError Session α

namespace Command

/-- Writes a line to the stream of messages. -/
def tell (line : String) : Command Unit :=
  modify fun session => { session with messages := session.messages ++ line ++ "\n" }

/-- Writes to the stream of results. -/
def put (text : String) : Command Unit :=
  modify fun session => { session with output := session.output ++ text }

/-- Writes a structured result. -/
def putJson (value : Json) : Command Unit := put (value.pretty ++ "\n")

/-- A line about one file, for people who did not ask for silence. -/
def status (settings : Settings) (line : String) : Command Unit :=
  if settings.format = .human ∧ settings.quiet = false then tell line else pure ()

/-- The line that says a command succeeded. -/
def success (settings : Settings) (line : String) : Command Unit := status settings ("ok " ++ line)

/-- A warning, unless silence was asked for. -/
def warn (settings : Settings) (line : String) : Command Unit :=
  if settings.quiet then pure ()
  else
    match settings.format with
    | .human => tell ("warning: " ++ line)
    | .json => tell (Json.record [("warning", .string line)]).compact
    | .plain => tell ("warning\t" ++ line)

/-- Reports a file that does not parse. Structured output leaves it to the final
record. -/
def reportFailure (settings : Settings) (error : ParseError) (source file : String) :
    Command Unit :=
  match settings.format with
  | .human => tell ((Diagnostic.ofError error source).render source file)
  | .plain => tell (file ++ ":" ++ error.position.display ++ "\terror\t" ++ error.message)
  | .json => pure ()

/-- Reports the error that ended a command. -/
def reportError (settings : Settings) (error : CommandError) : Command Unit :=
  match settings.format, error with
  | .human, .parse error source file => reportFailure settings error source file
  | .human, error => tell ("error: " ++ error.display)
  | .json, error => tell error.toJson.compact
  | .plain, error => tell ("error\t" ++ error.display)

/-- The files that paths stand for. -/
def discover (paths : List String) : Command (List String) := do
  match Discovery.discover (← get).tree paths with
  | .ok files => return files
  | .error error => throw (.ofDiscovery error)

/-- The text of a file. -/
def readSource (file : String) : Command String := do
  match (← get).tree.read file with
  | .ok source => return source
  | .error fault => throw (.io file fault.message)

/-- Replaces the text of a file. -/
def writeSource (file text : String) : Command Unit :=
  modify fun session => { session with tree := session.tree.write file text }

end Command

end SchemaLang
