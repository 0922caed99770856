import SchemaLang.Document.Json
import SchemaLang.Files.Discovery
import SchemaLang.ParseError

/-! The errors that end a command. Each has a text, an exit code and a record for
structured output. -/
namespace SchemaLang

/-- How a command may end. -/
inductive ExitCode where
  | success
  | generalError
  | invalidArguments
  | parseError
  | unformatted
deriving DecidableEq

namespace ExitCode

/-- The number a process ends with. -/
def toNat : ExitCode → Nat
  | success => 0
  | generalError => 1
  | invalidArguments => 2
  | parseError => 3
  | unformatted => 4

end ExitCode

/-- Why a command ended early or without success. -/
inductive CommandError where
  /-- The one file of the command does not parse. -/
  | parse (error : ParseError) (source file : String)
  /-- Some of the files do not parse; each was reported before. -/
  | parseFailed (failed total : Nat)
  /-- Files that differ from their canonical text. -/
  | unformatted (files : List String)
  /-- A file that cannot be read. -/
  | io (path message : String)
  /-- A path without schema files. -/
  | noSchemaFiles (path : String)
  | other (message : String)
deriving DecidableEq

namespace CommandError

/-- What went wrong, in one line. -/
def display : CommandError → String
  | parse error _ file => "failed to parse " ++ file ++ ": " ++ error.display
  | parseFailed failed total =>
    toString failed ++ " of " ++ toString total ++ " files failed to parse"
  | unformatted files => toString files.length ++ " files are not formatted"
  | io path message => "IO error for " ++ path ++ ": " ++ message
  | noSchemaFiles path => "no schema files found in " ++ path
  | other message => message

/-- The exit code of an error. -/
def exitCode : CommandError → ExitCode
  | parse .. | parseFailed .. => .parseError
  | unformatted _ => .unformatted
  | noSchemaFiles _ => .invalidArguments
  | io .. | other _ => .generalError

/-- The record of an error. -/
def toJson : CommandError → Json
  | parse error _ file =>
    .record [("error", .string "parse_error"), ("file", .string file),
      ("message", .string error.message), ("line", .number error.position.line),
      ("column", .number error.position.column), ("offset", .number error.position.offset)]
  | parseFailed failed total =>
    .record [("error", .string "parse_error"), ("failed", .number failed),
      ("total", .number total)]
  | unformatted files =>
    .record [("error", .string "unformatted"), ("files", .array (files.map .string))]
  | io path message =>
    .record [("error", .string "io_error"), ("path", .string path), ("message", .string message)]
  | error => .record [("error", .string "error"), ("message", .string error.display)]

/-- The error for a search that listed no files. -/
def ofDiscovery : DiscoveryError → CommandError
  | .nothingFound path => noSchemaFiles path
  | .badPattern error => other error.message

end CommandError

end SchemaLang
