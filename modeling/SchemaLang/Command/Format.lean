import SchemaLang.Command.Session
import SchemaLang.Document.Printer

/-! Formatting files: the canonical text of every file is printed, or written back
where it differs, or only compared. Files that do not parse are reported and
left alone. -/
namespace SchemaLang

/-- What to do with canonical text. -/
inductive FormatMode where
  | print
  | check
  | write
deriving DecidableEq

/-- What formatting one file found. -/
inductive FormatReport where
  | failed (file : String) (error : ParseError)
  | formatted (file : String) (changed : Bool) (canonical : String)
deriving DecidableEq

namespace FormatReport

/-- Whether the file did not parse. -/
def isFailure : FormatReport → Bool
  | failed .. => true
  | formatted .. => false

/-- The file, if its text is not canonical. -/
def changed? : FormatReport → Option String
  | formatted file true _ => some file
  | _ => none

/-- The record of one file. The text is part of it only when it is the result. -/
def toJson (mode : FormatMode) : FormatReport → Json
  | failed file error => .record [("file", .string file), ("error", .string error.message)]
  | formatted file changed canonical =>
    .record ([("file", .string file), ("changed", .bool changed)] ++
      if mode = .print then [("output", .string canonical)] else [])

end FormatReport

namespace Command

/-- Does what the mode asks for with the canonical text of one file. -/
def deliver (settings : Settings) (mode : FormatMode) (file : String) (changed : Bool)
    (canonical : String) : Command Unit :=
  match mode with
  | .check =>
    if changed then
      match settings.format with
      | .human => warn settings (file ++ " is not formatted")
      | .plain => put (file ++ "\n")
      | .json => pure ()
    else pure ()
  | .write =>
    if changed then do
      writeSource file canonical
      status settings ("  formatted " ++ file)
    else pure ()
  | .print => if settings.format = .json then pure () else put canonical

/-- Formats one file. Every tree that was parsed has a canonical text. -/
def formatFile (settings : Settings) (mode : FormatMode) (file : String) :
    Command FormatReport := do
  let source ← readSource file
  match Document.parse source with
  | .error error =>
    reportFailure settings error source file
    return .failed file error
  | .ok document =>
    match document.print with
    | .error cause => throw (.other cause.message)
    | .ok canonical =>
      let changed := canonical != source
      deliver settings mode file changed canonical
      return .formatted file changed canonical

/-- The files that are not canonical, as far as the mode asks for them. -/
def unformatted (mode : FormatMode) (reports : List FormatReport) : List String :=
  if mode = .check then reports.filterMap FormatReport.changed? else []

/-- The record of all files. -/
def formatSummary (mode : FormatMode) (reports : List FormatReport) : Json :=
  .record [("files", .number reports.length),
    ("errors", .number (reports.countP FormatReport.isFailure)),
    ("unformatted", .number (unformatted mode reports).length),
    ("results", .array (reports.map (FormatReport.toJson mode)))]

/-- Formats the files that paths stand for. -/
def format (settings : Settings) (mode : FormatMode) (paths : List String) : Command Unit := do
  let files ← discover paths
  let reports ← files.mapM (formatFile settings mode)
  if settings.format = .json then putJson (formatSummary mode reports)
  let failed := reports.countP FormatReport.isFailure
  if 0 < failed then throw (.parseFailed failed files.length)
  let pending := unformatted mode reports
  if pending ≠ [] then throw (.unformatted pending)
  if mode = .check then success settings (toString files.length ++ " files already formatted")

end Command

end SchemaLang
