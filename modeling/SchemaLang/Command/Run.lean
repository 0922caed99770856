import SchemaLang.Command.Check
import SchemaLang.Command.Format

/-! Running a command line on a file tree, from its words to the exit code. -/
namespace SchemaLang

/-- What a run leaves behind. -/
structure Outcome where
  exit : Nat
  output : String
  messages : String
  tree : FileTree

namespace Command

/-- The name under which the program is called. -/
def programName : String := "prisma-schema"

/-- The version of the program. -/
def programVersion : String := "0.1.0"

/-- Prints the tree of one file. -/
def ast (file : String) : Command Unit := do
  let source ← readSource file
  match Document.parse source with
  | .ok document => putJson document.toJson
  | .error error => throw (.parse error source file)

/-- The words that can follow the program's name. -/
def completionWords : String := "check format ast completions help"

/-- Prints a script that completes the program's commands in a shell. -/
def completions (shell : String) : Command Unit :=
  match shell with
  | "bash" => put ("complete -W \"" ++ completionWords ++ "\" " ++ programName ++ "\n")
  | "zsh" => put ("compctl -k \"(" ++ completionWords ++ ")\" " ++ programName ++ "\n")
  | "fish" => put ("complete -c " ++ programName ++ " -a \"" ++ completionWords ++ "\"\n")
  | "powershell" => put ("Register-ArgumentCompleter -Native -CommandName " ++ programName ++ "\n")
  | "elvish" => put ("set edit:completion:arg-completer[" ++ programName ++ "] = $nop~\n")
  | other => throw (.other ("unsupported shell: " ++ other))

/-- How a formatting command treats the canonical text. -/
def formatMode (check write : Bool) : FormatMode :=
  if check then .check else if write then .write else .print

/-- Carries out a request. -/
def perform (settings : Settings) : Request → Command Unit
  | .check paths => check settings paths
  | .format paths checkOnly write => format settings (formatMode checkOnly write) paths
  | .ast file => ast file
  | .completions shell => completions shell

/-- Carries out a request and reports the error that ends it. -/
def execute (invocation : Invocation) (tree : FileTree) : Outcome :=
  let settings : Settings := ⟨invocation.format, invocation.quiet⟩
  match perform settings invocation.request { tree } with
  | .ok _ session => ⟨ExitCode.success.toNat, session.output, session.messages, session.tree⟩
  | .error error session =>
    match reportError settings error session with
    | .ok _ session | .error _ session =>
      ⟨error.exitCode.toNat, session.output, session.messages, session.tree⟩

/-- How the program is to be called. -/
def usage : String :=
  "Usage: " ++ programName ++ " [OPTIONS] <COMMAND>\n\n" ++
  "Commands:\n" ++
  "  check        Parse schema files and report mistakes\n" ++
  "  format       Print schema files in canonical form\n" ++
  "  ast          Dump the tree of a schema file as JSON\n" ++
  "  completions  Generate shell completion scripts\n" ++
  "  help         Print this message\n\n" ++
  "Options:\n" ++
  "      --format <FORMAT>  human, json or plain [env: PRISMA_SCHEMA_FORMAT]\n" ++
  "  -v, --verbose...       Log more\n" ++
  "  -q, --quiet            Suppress all output but errors\n" ++
  "      --no-color         Disable colors [env: NO_COLOR]\n" ++
  "  -h, --help             Print help\n" ++
  "  -V, --version          Print version\n"

/-- The line that names the program, or one of its commands, and its version. -/
def versionLine (command : Option CommandName) : String :=
  let suffix := match command with
    | none => ""
    | some name => "-" ++ name.word
  programName ++ suffix ++ " " ++ programVersion ++ "\n"

/-- What a run leaves behind when no command is carried out. -/
def refuse (error : UsageError) (tree : FileTree) : Outcome :=
  match error with
  | .displayHelp => ⟨error.exitNumber, usage, "", tree⟩
  | .displayVersion command => ⟨error.exitNumber, versionLine command, "", tree⟩
  | .displayHelpOnMissing => ⟨error.exitNumber, "", usage, tree⟩
  | _ => ⟨error.exitNumber, "", "error: " ++ error.name ++ "\n\n" ++ usage, tree⟩

/-- Runs a command line. -/
def run (environment : Environment) (words : List String) (tree : FileTree) : Outcome :=
  match Arguments.parse environment words with
  | .ok invocation => execute invocation tree
  | .error error => refuse error tree

end Command

end SchemaLang
