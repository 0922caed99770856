import SchemaLang.Files.Discovery

/-! Reading the command line. Options are read at two levels: before the word
that names the command and after it. Within a level an option that takes effect
once may be given once; between the levels the later one wins. A value given in
a word of its own is looked at only when the next option or the end of the level
is reached, and the level of the command is finished before the outer one. -/
namespace SchemaLang

/-- The forms in which results are written. -/
inductive OutputFormat where
  | human
  | json
  | plain
deriving DecidableEq

namespace OutputFormat

/-- The word for a form. -/
def word : OutputFormat → String
  | human => "human"
  | json => "json"
  | plain => "plain"

/-- The form a word stands for. -/
def ofWord? (word : String) : Option OutputFormat :=
  [human, json, plain].find? fun format => format.word == word

end OutputFormat

/-- The words that name a command. -/
inductive CommandName where
  | check
  | format
  | ast
  | completions
deriving DecidableEq

namespace CommandName

/-- The word for a command. -/
def word : CommandName → String
  | check => "check"
  | format => "format"
  | ast => "ast"
  | completions => "completions"

/-- The command a word stands for. -/
def ofWord? (word : String) : Option CommandName :=
  [check, format, ast, completions].find? fun name => name.word == word

end CommandName

/-- Why a command line is not carried out. Two of these are requests for text. -/
inductive UsageError where
  | displayHelp
  | displayVersion (command : Option CommandName)
  | displayHelpOnMissing
  | missingSubcommand
  | invalidSubcommand
  | unknownArgument
  | missingRequiredArgument
  | tooManyValues
  | invalidValue
  | argumentConflict
deriving DecidableEq

namespace UsageError

/-- The name of a kind of error. -/
def name : UsageError → String
  | displayHelp => "DisplayHelp"
  | displayVersion _ => "DisplayVersion"
  | displayHelpOnMissing => "DisplayHelpOnMissingArgumentOrSubcommand"
  | missingSubcommand => "MissingSubcommand"
  | invalidSubcommand => "InvalidSubcommand"
  | unknownArgument => "UnknownArgument"
  | missingRequiredArgument => "MissingRequiredArgument"
  | tooManyValues => "TooManyValues"
  | invalidValue => "InvalidValue"
  | argumentConflict => "ArgumentConflict"

/-- Requests for text succeed, everything else is wrong usage. -/
def exitNumber : UsageError → Nat
  | displayHelp | displayVersion _ => 0
  | _ => 2

end UsageError

/-- Variables that stand in for options. -/
structure Environment where
  format : Option String
  noColor : Option String

/-- What a command line asks for. -/
inductive Request where
  | check (paths : List String)
  | format (paths : List String) (check write : Bool)
  | ast (file : String)
  | completions (shell : String)
deriving DecidableEq

/-- A command line that can be carried out. -/
structure Invocation where
  request : Request
  format : OutputFormat
  verbose : Nat
  quiet : Bool
  noColor : Bool
deriving DecidableEq

namespace Arguments

/-- The options. -/
inductive Flag where
  | format
  | verbose
  | quiet
  | noColor
  | help
  | version
  | check
  | write
deriving DecidableEq

/-- A level of the command line: none before the command, or that of a command. -/
abbrev Level := Option CommandName

/-- The option that a long name stands for at a level. -/
def long? (level : Level) (name : String) : Option Flag :=
  if name = "format" then some .format
  else if name = "verbose" then some .verbose
  else if name = "quiet" then some .quiet
  else if name = "no-color" then some .noColor
  else if name = "help" then some .help
  else if name = "version" then some .version
  else if level = some .format ∧ name = "check" then some .check
  else if level = some .format ∧ name = "write" then some .write
  else none

/-- The option that a letter stands for at a level. -/
def short? (level : Level) (letter : Char) : Option Flag :=
  if letter = 'v' then some .verbose
  else if letter = 'q' then some .quiet
  else if letter = 'h' then some .help
  else if letter = 'V' then some .version
  else if level = some .format ∧ letter = 'w' then some .write
  else none

/-- Values that have been read and not yet looked at. -/
inductive Pending where
  | nothing
  | format (value : Option String)
  | values (words : List String)
deriving DecidableEq

/-- What has been given at a level. -/
structure Given where
  format : Option OutputFormat := none
  verbose : Nat := 0
  quiet : Bool := false
  noColor : Bool := false
  check : Bool := false
  write : Bool := false
  values : List String := []
deriving DecidableEq

/-- Where the reading of a level stands. -/
structure Reading where
  given : Given := {}
  pending : Pending := .nothing
  /-- Whether the next word is the value of an option. -/
  awaiting : Bool := false
  /-- Whether the words behind a double dash have been reached. -/
  trailing : Bool := false
deriving DecidableEq

/-- The shells for which completions can be asked. -/
def shells : List String := ["bash", "zsh", "fish", "powershell", "elvish"]

/-- Whether a word can be a value of the command at a level. -/
def acceptsValue (level : Level) (word : String) : Bool :=
  if level = some .completions then shells.contains word else word ≠ ""

/-- The number of times that repeating the verbose option still counts. -/
def maxVerbose : Nat := 255

/-- Looks at the values that are waiting. -/
def settle (level : Level) (reading : Reading) : Except UsageError Reading :=
  let settled := { reading with pending := .nothing, awaiting := false }
  match reading.pending with
  | .nothing => .ok settled
  | .format none => .error .invalidValue
  | .format (some word) =>
    if reading.given.format.isSome then .error .argumentConflict
    else
      match OutputFormat.ofWord? word with
      | none => .error .invalidValue
      | some format => .ok { settled with given := { reading.given with format := some format } }
  | .values words =>
    if words.all (acceptsValue level) then
      .ok { settled with given := { reading.given with values := reading.given.values ++ words } }
    else .error .invalidValue

/-- Takes an option without a value. -/
def takeFlag (level : Level) (flag : Flag) (reading : Reading) : Except UsageError Reading := do
  let reading ← settle level reading
  let given := reading.given
  let once (seen : Bool) (after : Given) : Except UsageError Reading :=
    if seen then .error .argumentConflict else .ok { reading with given := after }
  match flag with
  | .help => .error .displayHelp
  | .version => .error (.displayVersion level)
  | .verbose =>
    return { reading with given := { given with verbose := min (given.verbose + 1) maxVerbose } }
  | .quiet => once given.quiet { given with quiet := true }
  | .noColor => once given.noColor { given with noColor := true }
  | .check => once given.check { given with check := true }
  | .write => once given.write { given with write := true }
  | .format => return { reading with pending := .format none, awaiting := true }

/-- Takes a long option, with the text behind its equals sign if there is one. -/
def takeLong (level : Level) (name : String) (value : Option String) (reading : Reading) :
    Except UsageError Reading :=
  match long? level name, value with
  | none, _ => .error .unknownArgument
  | some .format, some word => do
    let reading ← settle level reading
    settle level { reading with pending := .format (some word) }
  | some _, some _ => .error .tooManyValues
  | some flag, none => takeFlag level flag reading

/-- Takes the letters of a word of short options, one after the other. -/
def takeShort (level : Level) : List Char → Reading → Except UsageError Reading
  | [], reading => .ok reading
  | letter :: rest, reading =>
    match short? level letter with
    | none => .error .unknownArgument
    | some flag => do takeShort level rest (← takeFlag level flag reading)

/-- How many words are already values at a level. -/
def valueCount (reading : Reading) : Nat :=
  reading.given.values.length +
    match reading.pending with
    | .values words => words.length
    | _ => 0

/-- Whether the command at a level takes another value. -/
def hasRoom (level : Level) (reading : Reading) : Bool :=
  match level with
  | none => false
  | some .check | some .format => true
  | some .ast | some .completions => valueCount reading == 0

/-- The error for a word that has no place. -/
def misplaced (level : Level) (reading : Reading) (word : String) : UsageError :=
  if level.isSome then .unknownArgument
  else if reading.trailing ∧ ((CommandName.ofWord? word).isSome ∨ word = "help") then
    .unknownArgument
  else .invalidSubcommand

/-- Takes a word as a value of the command. -/
def takeValue (level : Level) (word : String) (reading : Reading) : Except UsageError Reading :=
  if hasRoom level reading then
    match reading.pending with
    | .values words => .ok { reading with pending := .values (words ++ [word]) }
    | _ => do return { ← settle level reading with pending := .values [word] }
  else .error (misplaced level reading word)

/-- The name and the value of a long option, given the text behind its dashes. -/
def splitLong (text : List Char) : String × Option String :=
  let name := String.ofList (text.takeWhile (· ≠ '='))
  match text.dropWhile (· ≠ '=') with
  | [] => (name, none)
  | _ :: value => (name, some (String.ofList value))

/-- Takes one word of a level. -/
def takeWord (level : Level) (word : String) (reading : Reading) : Except UsageError Reading :=
  if reading.trailing then takeValue level word reading
  else
    match word.toList with
    | ['-', '-'] => .ok { reading with trailing := true }
    | '-' :: '-' :: text =>
      let (name, value) := splitLong text
      takeLong level name value reading
    | '-' :: letter :: rest => takeShort level (letter :: rest) reading
    | _ =>
      if reading.awaiting then
        .ok { reading with pending := .format (some word), awaiting := false }
      else takeValue level word reading

/-- The variables as values of options that were not given at a level. -/
def checkEnvironment (environment : Environment) (given : Given) : Except UsageError Unit :=
  let formatValid := given.format.isSome ||
    (environment.format.all fun word => (OutputFormat.ofWord? word).isSome)
  let colorValid := given.noColor ||
    (environment.noColor.all fun word => word == "true" || word == "false")
  if formatValid && colorValid then .ok () else .error .invalidValue

/-- Whether options were given together that exclude each other. -/
def conflicting (given : Given) : Bool :=
  (given.quiet && decide (0 < given.verbose)) || (given.check && given.write)

/-- Reads the words behind the name of a command. -/
def readCommand (environment : Environment) (name : CommandName) (words : List String) :
    Except UsageError Given := do
  let reading ← words.foldlM (fun reading word => takeWord (some name) word reading) {}
  let given := (← settle (some name) reading).given
  checkEnvironment environment given
  if conflicting given then .error .argumentConflict
  else if given.values.isEmpty ∧ (name = .ast ∨ name = .completions) then
    .error .missingRequiredArgument
  else return given

/-- The answer to a request for help on some commands. -/
def help : List String → UsageError
  | [] => .displayHelp
  | [word] => if (CommandName.ofWord? word).isSome ∨ word = "help" then .displayHelp
    else .invalidSubcommand
  | _ => .invalidSubcommand

/-- Reads the words before the name of a command, and everything behind it. -/
def readTop (environment : Environment) (reading : Reading) :
    List String → Except UsageError (Reading × Option (CommandName × Given))
  | [] => .ok (reading, none)
  | word :: rest =>
    let free := !reading.trailing && !reading.awaiting
    if free ∧ word = "help" then .error (help rest)
    else
      match free, CommandName.ofWord? word with
      | true, some name => do return (reading, some (name, ← readCommand environment name rest))
      | _, _ => do readTop environment (← takeWord none word reading) rest

/-- Whether anything was given, by an option or by a variable. -/
def anythingGiven (environment : Environment) (given : Given) : Bool :=
  given.format.isSome || decide (0 < given.verbose) || given.quiet || given.noColor ||
    environment.format.isSome || environment.noColor.isSome

/-- What a command is to do, from the options and values behind its name. -/
def request (name : CommandName) (given : Given) : Request :=
  let paths := if given.values.isEmpty then [Discovery.defaultPath] else given.values
  match name with
  | .check => .check paths
  | .format => .format paths given.check given.write
  | .ast => .ast (given.values.headD "")
  | .completions => .completions (given.values.headD "")

/-- Joins the levels. What is given behind the name of the command wins over what
is given before it, and both win over the variables. -/
def combine (environment : Environment) (outer : Given) (name : CommandName) (given : Given) :
    Invocation where
  request := request name given
  format := (given.format <|> outer.format <|>
    (environment.format.bind OutputFormat.ofWord?)).getD .human
  verbose := if 0 < given.verbose then given.verbose else outer.verbose
  quiet := given.quiet || outer.quiet
  noColor := given.noColor || outer.noColor || environment.noColor == some "true"

/-- Reads a command line. -/
def parse (environment : Environment) (words : List String) : Except UsageError Invocation := do
  let (reading, command) ← readTop environment {} words
  let outer := (← settle none reading).given
  checkEnvironment environment outer
  match command with
  | none =>
    if anythingGiven environment outer then .error .missingSubcommand
    else .error .displayHelpOnMissing
  | some (name, given) =>
    if conflicting outer then .error .argumentConflict
    else return combine environment outer name given

end Arguments

end SchemaLang
