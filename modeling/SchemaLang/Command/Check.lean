import SchemaLang.Command.Session

/-! Checking files: every file is parsed, failures are reported as they come, and
a summary counts files, models and failures. -/
namespace SchemaLang

/-- What checking one file found. -/
structure CheckReport where
  file : String
  models : Nat
  configs : Nat
  error : Option ParseError
deriving DecidableEq

namespace CheckReport

/-- The record of one file. -/
def toJson (report : CheckReport) : Json :=
  .record ([("file", .string report.file), ("models", .number report.models),
      ("configs", .number report.configs)] ++
    match report.error with
    | none => []
    | some error =>
      [("error", .record [("message", .string error.message),
        ("line", .number error.position.line), ("column", .number error.position.column)])])

end CheckReport

namespace Command

/-- Checks one file. -/
def checkFile (settings : Settings) (file : String) : Command CheckReport := do
  let source ← readSource file
  match Document.parse source with
  | .ok document =>
    let models := document.models.length
    let configs := document.configs.length
    status settings ("  " ++ file ++ " .... " ++ toString models ++ " models, " ++
      toString configs ++ " configs")
    return ⟨file, models, configs, none⟩
  | .error error =>
    reportFailure settings error source file
    return ⟨file, 0, 0, some error⟩

/-- The number of files that did not parse. -/
def failures (reports : List CheckReport) : Nat := reports.countP (·.error.isSome)

/-- The number of models in all files. -/
def totalModels (reports : List CheckReport) : Nat :=
  reports.foldr (fun report models => report.models + models) 0

/-- The record of all files. -/
def checkSummary (reports : List CheckReport) : Json :=
  .record [("files", .number reports.length), ("models", .number (totalModels reports)),
    ("errors", .number (failures reports)), ("results", .array (reports.map CheckReport.toJson))]

/-- Checks the files that paths stand for. -/
def check (settings : Settings) (paths : List String) : Command Unit := do
  let files ← discover paths
  let reports ← files.mapM (checkFile settings)
  let failed := failures reports
  let counts := toString (totalModels reports)
  match settings.format with
  | .human =>
    let summary := counts ++ " models parsed from " ++ toString files.length ++ " files, " ++
      toString failed ++ " errors"
    if 0 < failed then warn settings summary else success settings summary
  | .json => putJson (checkSummary reports)
  | .plain =>
    put (toString files.length ++ "\t" ++ counts ++ "\t" ++ toString failed ++ "\n")
  if 0 < failed then throw (.parseFailed failed files.length)

end Command

end SchemaLang
