import Mathlib.Algebra.Ring.Nat
import SchemaLang.Proofs.Endings
import SchemaLang.Proofs.Legibility
import SchemaLang.Proofs.PathOrder

/-! How commands agree. Checking and formatting find the same files and end with the same
exit code, which the paths and the files decide and no setting does; only a check for files
that are not formatted has a code of its own, and dumping the tree of one file ends as
checking it does. The report that a check writes for programs counts its own entries. -/
namespace SchemaLang

/-! ## Fields of a record -/

namespace Json

/-- The value of a field of an object. -/
def field? (name : String) : Json → Option Json
  | .object fields => fields.lookup name
  | _ => none

theorem lookup_insertField (name : String) (field : String × Json)
    (fields : List (String × Json)) :
    (insertField field fields).lookup name = (field :: fields).lookup name := by
  induction fields with
  | nil => rfl
  | cons head rest ih =>
    unfold insertField
    by_cases before : field.1 ≤ head.1
    · rw [if_pos before]
    · rw [if_neg before]
      -- The field goes behind one of another name, so it does not matter which is met first.
      have apart : field.1 ≠ head.1 := fun same => before (same ▸ String.le_refl _)
      obtain ⟨label, value⟩ := field
      obtain ⟨first, other⟩ := head
      rw [List.lookup_cons, ih]
      by_cases here : name = first
      · subst here
        have differs : (name == label) = false := beq_eq_false_iff_ne.2 (Ne.symm apart)
        simp [List.lookup_cons, differs]
      · have differs : (name == first) = false := beq_eq_false_iff_ne.2 here
        simp [List.lookup_cons, differs]

/-- Sorting the fields of a record does not change what they are. -/
theorem field?_record (name : String) (fields : List (String × Json)) :
    (record fields).field? name = fields.lookup name := by
  show (fields.foldr insertField []).lookup name = _
  induction fields with
  | nil => rfl
  | cons field fields ih =>
    obtain ⟨label, value⟩ := field
    rw [List.foldr_cons, lookup_insertField, List.lookup_cons, List.lookup_cons, ih]

/-- The number in a field, if there is one. -/
def count (name : String) (value : Json) : Nat :=
  match value.field? name with
  | some (.number amount) => amount
  | _ => 0

end Json

namespace CheckReport

theorem field?_file (report : CheckReport) :
    report.toJson.field? "file" = some (.string report.file) := by
  rw [toJson, Json.field?_record]
  simp

theorem count_models (report : CheckReport) : report.toJson.count "models" = report.models := by
  have found : report.toJson.field? "models" = some (.number report.models) := by
    rw [toJson, Json.field?_record]
    simp [List.lookup_cons]
  rw [Json.count, found]

theorem field?_error (report : CheckReport) :
    (report.toJson.field? "error").isSome = report.error.isSome := by
  rw [toJson, Json.field?_record]
  cases report.error <;> simp [List.lookup_cons]

end CheckReport

/-! ## What paths stand for -/

namespace FileTree

/-- Whether a path leads to neither a file nor a directory. -/
def missing (tree : FileTree) (path : String) : Bool :=
  !tree.isFile path && !tree.isDirectory path

/-- Whether a path stands for no file, because there is none below it. -/
def barren (tree : FileTree) (path : String) : Bool :=
  match Discovery.filesAt tree path with
  | .ok files => files.isEmpty
  | .error _ => true

/-- Directories among paths have names without wildcards. -/
def Searchable (tree : FileTree) (paths : List String) : Prop :=
  ∀ path ∈ paths, tree.isDirectory path = true → Pattern.Plain path.toList

instance (tree : FileTree) (paths : List String) : Decidable (tree.Searchable paths) :=
  List.decidableBAll _ paths

/-- The exit code that the files behind paths deserve: a path that leads nowhere or a search
that finds nothing comes first, then a file that cannot be read, then one that does not
parse. -/
def verdictOn (tree : FileTree) (paths : List String) : ExitCode :=
  if paths.any tree.missing || paths.all tree.barren then .invalidArguments
  else tree.verdict (tree.found paths) .success

end FileTree

namespace Discovery

variable {tree : FileTree}

theorem filesAt_missing {path : String} (missing : tree.missing path = true) :
    filesAt tree path = .error (.nothingFound path) := by
  rw [FileTree.missing, Bool.and_eq_true, Bool.not_eq_true', Bool.not_eq_true'] at missing
  rw [filesAt, missing.1, missing.2]
  rfl

theorem filesAt_present {path : String} (present : tree.missing path = false)
    (plain : tree.isDirectory path = true → Pattern.Plain path.toList) :
    ∃ files, filesAt tree path = .ok files ∧ files.isEmpty = tree.barren path := by
  have listed : ∃ files, filesAt tree path = .ok files := by
    unfold filesAt
    by_cases file : tree.isFile path = true
    · rw [if_pos file]
      exact ⟨[path], rfl⟩
    · have directory : tree.isDirectory path = true := by
        simpa [FileTree.missing, file] using present
      obtain ⟨files, below⟩ := filesBelow_plain (plain directory) tree
      rw [if_neg file, if_pos directory, below]
      exact ⟨files, rfl⟩
  obtain ⟨files, listed⟩ := listed
  refine ⟨files, listed, ?_⟩
  rw [FileTree.barren, listed]

/-- Paths are looked up one after the other, up to the first that is missing. -/
theorem filesAt_all {paths : List String} (searchable : tree.Searchable paths) :
    if paths.any tree.missing = true then
      ∃ path, paths.mapM (filesAt tree) = .error (.nothingFound path)
    else ∃ lists, paths.mapM (filesAt tree) = .ok lists ∧
      lists.flatten.isEmpty = paths.all tree.barren := by
  induction paths with
  | nil => exact ⟨[], rfl, rfl⟩
  | cons path paths ih =>
    obtain ⟨here, others⟩ := List.forall_mem_cons.1 searchable
    rw [List.mapM_cons, List.any_cons]
    by_cases missing : tree.missing path = true
    · rw [filesAt_missing missing, missing]
      exact ⟨path, rfl⟩
    · obtain ⟨files, listed, empty⟩ := filesAt_present (by simpa using missing) here
      have further := ih others
      rw [listed, Bool.eq_false_iff.2 missing, Bool.false_or]
      split
      · rename_i lost
        rw [if_pos lost] at further
        obtain ⟨path, failed⟩ := further
        exact ⟨path, by rw [failed]; rfl⟩
      · rename_i kept
        rw [if_neg kept] at further
        obtain ⟨lists, ran, barren⟩ := further
        refine ⟨files :: lists, by rw [ran]; rfl, ?_⟩
        rw [List.flatten_cons, List.all_cons, ← empty, ← barren]
        cases files <;> simp

/-- A search in directories with plain names fails only because there is nothing to find. -/
theorem discover_cases {paths : List String} (searchable : tree.Searchable paths) :
    if paths.any tree.missing || paths.all tree.barren then
      ∃ path, discover tree paths = .error (.nothingFound path)
    else ∃ files, discover tree paths = .ok files := by
  have lookups := filesAt_all searchable
  unfold discover
  by_cases missing : paths.any tree.missing = true
  · rw [if_pos missing] at lookups
    obtain ⟨path, failed⟩ := lookups
    rw [missing, Bool.true_or, failed]
    exact ⟨path, rfl⟩
  · rw [if_neg missing] at lookups
    obtain ⟨lists, ran, empty⟩ := lookups
    rw [Bool.eq_false_iff.2 missing, Bool.false_or, ran, ← empty]
    simp only [bind, Except.bind]
    split
    · exact ⟨_, rfl⟩
    · exact ⟨_, rfl⟩

end Discovery

namespace FileTree

/-- Directories with plain names can be searched, so going through the files behind paths
ends as they deserve. -/
theorem exitOn_success {tree : FileTree} {paths : List String} (searchable : tree.Searchable paths) :
    (tree.exitOn paths fun _ => .success) = tree.verdictOn paths := by
  have cases := Discovery.discover_cases searchable
  unfold exitOn verdictOn
  split at cases
  · rename_i nothing
    obtain ⟨path, failed⟩ := cases
    rw [if_pos nothing, failed]
    rfl
  · rename_i fertile
    obtain ⟨files, listed⟩ := cases
    rw [if_neg fertile, found_of_ok listed, listed]

end FileTree

/-! ## Exit codes -/

/-- A check for files that are not formatted has a code of its own, which stands in for
success. -/
theorem FileTree.exitOn_clean (tree : FileTree) (paths : List String) (mode : FormatMode) :
    tree.exitOn paths (mode.clean tree) =
      if mode = .check ∧ (tree.exitOn paths fun _ => .success) = .success ∧
        (tree.found paths).any tree.unformatted = true then .unformatted
      else tree.exitOn paths fun _ => .success := by
  unfold exitOn
  cases listed : Discovery.discover tree paths with
  | error error => simp [found_of_error listed]
  | ok files =>
    rw [found_of_ok listed]
    simp only
    unfold verdict FormatMode.clean
    by_cases readable : files.all tree.readable = true
    · by_cases broken : files.any tree.broken = true
      · simp [readable, broken]
      · simp [readable, broken]
    · simp [readable]

theorem formatMode_check (checkOnly write : Bool) :
    Command.formatMode checkOnly write = .check ↔ checkOnly = true := by
  cases checkOnly <;> cases write <;> decide

namespace Command

variable {tree : FileTree} {paths : List String}

theorem check_exit (searchable : tree.Searchable paths) (invocation : Invocation) :
    (execute { invocation with request := .check paths } tree).exit =
      (tree.verdictOn paths).toNat := by
  have ends := check_ends ⟨invocation.format, invocation.quiet⟩ paths { tree }
  rw [FileTree.exitOn_success searchable] at ends
  exact (execute_ends ends).1

theorem format_exit (searchable : tree.Searchable paths) (invocation : Invocation)
    (checkOnly write : Bool) :
    (execute { invocation with request := .format paths checkOnly write } tree).exit =
      if checkOnly = true ∧ tree.verdictOn paths = .success ∧
        (tree.found paths).any tree.unformatted = true then ExitCode.unformatted.toNat
      else (tree.verdictOn paths).toNat := by
  have ends := format_ends ⟨invocation.format, invocation.quiet⟩ (formatMode checkOnly write)
    paths { tree }
  rw [(execute_ends ends).1, FileTree.exitOn_clean, FileTree.exitOn_success searchable]
  simp only [formatMode_check]
  exact apply_ite ExitCode.toNat _ _ _

theorem discover_single {path file : String} (listed : Discovery.filesAt tree path = .ok [file]) :
    Discovery.discover tree [path] = .ok [file] := by
  rw [Discovery.discover_alone listed, Discovery.inOrder, List.mergeSort_singleton,
    Discovery.mergeNeighbours]
  rfl

/-- A file that can be read stands for itself. -/
theorem discover_readable {file : String} (readable : tree.readable file = true) :
    Discovery.discover tree [file] = .ok [file] := by
  have isFile : tree.isFile file = true := by
    cases read : tree.read file with
    | error fault =>
      rw [FileTree.readable_of_error read] at readable
      cases readable
    | ok source =>
      obtain ⟨location, resolved, here⟩ := FileTree.read_eq_ok.1 read
      rw [FileTree.isFile, FileTree.at?, resolved]
      simp only [here]
  apply discover_single
  rw [Discovery.filesAt, if_pos isFile]

theorem ast_exit {file : String} (readable : tree.readable file = true)
    (invocation other : Invocation) :
    (execute { invocation with request := .ast file } tree).exit =
        (execute { other with request := .check [file] } tree).exit ∧
      ((execute { invocation with request := .ast file } tree).exit = ExitCode.success.toNat ∨
        (execute { invocation with request := .ast file } tree).exit =
          ExitCode.parseError.toNat) := by
  have tells := ast_ends file { tree }
  have checks := check_ends ⟨other.format, other.quiet⟩ [file] { tree }
  rw [FileTree.exitOn, discover_readable readable] at checks
  have dumped : (execute { invocation with request := .ast file } tree).exit =
      (tree.verdict [file] .success).toNat := (execute_ends tells).1
  have checked : (execute { other with request := .check [file] } tree).exit =
      (tree.verdict [file] .success).toNat := (execute_ends checks).1
  have alone : ∀ listed ∈ [file], tree.readable listed = true := by simpa using readable
  rw [dumped, checked, FileTree.verdict_read alone]
  refine ⟨rfl, ?_⟩
  split
  · exact .inr rfl
  · exact .inl rfl

/-! ## Reports -/

/-- The session that a command leaves behind. -/
def final {α : Type} : EStateM.Result CommandError Session α → Session
  | .ok _ later => later
  | .error _ later => later

/-- A command that writes no results. -/
def Mute {α : Type} (command : Command α) : Prop :=
  ∀ session, (final (command session)).output = session.output

theorem Mute.mapM {α : Type} {step : String → Command α} (mute : ∀ file, Mute (step file))
    (files : List String) : Mute (files.mapM step) := by
  intro session
  induction files generalizing session with
  | nil => rfl
  | cons file files ih =>
    rw [List.mapM_cons, run_bind]
    have first := mute file session
    cases ran : step file session with
    | error error later =>
      rw [ran] at first
      exact first
    | ok report later =>
      rw [ran] at first
      have further := ih later
      simp only [run_bind]
      cases others : files.mapM step later with
      | error error final =>
        rw [others] at further
        exact further.trans first
      | ok reports final =>
        rw [others] at further
        exact further.trans first

theorem checkFile_mute (settings : Settings) (file : String) : Mute (checkFile settings file) := by
  intro session
  cases read : session.tree.read file with
  | error fault =>
    rw [(checkFile_visits settings).unread file session fault read]
    rfl
  | ok source =>
    obtain ⟨messages, ran⟩ := checkFile_run settings read
    rw [ran]
    rfl

/-- The report on an error comes after the results. -/
theorem execute_output (invocation : Invocation) (tree : FileTree) :
    (execute invocation tree).output = (final (perform ⟨invocation.format, invocation.quiet⟩
      invocation.request { tree })).output := by
  unfold execute
  cases result : perform ⟨invocation.format, invocation.quiet⟩ invocation.request { tree } with
  | ok value later => simp [result, final]
  | error error later =>
    obtain ⟨messages, told⟩ :=
      tells_reportError ⟨invocation.format, invocation.quiet⟩ error later
    simp [result, told, final]

/-- What a check of readable files writes for programs. -/
theorem check_report {settings : Settings} {session : Session} {files : List String}
    (json : settings.format = .json)
    (found : Discovery.discover session.tree paths = .ok files)
    (readable : ∀ file ∈ files, session.tree.readable file = true) :
    ∃ reports, List.Forall₂ (Checked session.tree) files reports ∧
      (final (check settings paths session)).output =
        session.output ++ ((checkSummary reports).pretty ++ "\n") := by
  unfold check
  rw [run_bind, discover_run, found]
  simp only [run_bind]
  have ran := (checkFile_visits settings).run files session
  have mute := Mute.mapM (checkFile_mute settings) files session
  cases result : files.mapM (checkFile settings) session with
  | error error later =>
    rw [result] at ran
    obtain ⟨⟨file, listed, unread⟩, -⟩ := ran
    rw [readable file listed] at unread
    cases unread
  | ok reports later =>
    rw [result] at ran mute
    refine ⟨reports, ran.2.2, ?_⟩
    have same : later.output = session.output := mute
    rw [← same]
    simp only [json]
    rw [run_bind]
    by_cases failed : 0 < failures reports
    · simp only [if_pos failed]
      rfl
    · simp only [if_neg failed]
      rfl

/-- A report whose totals are counted from its entries. -/
def tally (results : List Json) : Json :=
  .record [("files", .number results.length),
    ("models", .number (results.map (Json.count "models")).sum),
    ("errors", .number (results.countP fun result => (result.field? "error").isSome)),
    ("results", .array results)]

theorem checkSummary_eq_tally (reports : List CheckReport) :
    checkSummary reports = tally (reports.map CheckReport.toJson) := by
  have models : totalModels reports =
      ((reports.map CheckReport.toJson).map (Json.count "models")).sum := by
    induction reports with
    | nil => rfl
    | cons report reports ih =>
      rw [List.map_cons, List.map_cons, List.sum_cons, CheckReport.count_models, ← ih]
      rfl
  have errors : failures reports = (reports.map CheckReport.toJson).countP
      fun result => (result.field? "error").isSome := by
    rw [failures, List.countP_map]
    congr 1
    funext report
    exact report.field?_error.symm
  rw [checkSummary, tally, models, errors, List.length_map]

/-- An entry of a report: it names its file and carries an error if that does not parse. -/
def Entry (tree : FileTree) (file : String) (result : Json) : Prop :=
  result.field? "file" = some (.string file) ∧
    (result.field? "error").isSome = tree.broken file

theorem Checked.entry {file : String} {report : CheckReport} (checked : Checked tree file report) :
    Entry tree file report.toJson := by
  obtain ⟨source, read, rfl⟩ := checked
  constructor
  · rw [CheckReport.field?_file, CheckReport.file_ofSource]
  · rw [CheckReport.field?_error, CheckReport.error_ofSource read]

/-- **The commands agree.** Whatever the settings, checking ends with the exit code that the
files behind the paths deserve, and so does formatting, except that a check for files that
are not formatted has a code of its own for them. For a file that can be read, dumping its
tree ends as checking it does. The report that a check writes for programs has one entry for
each file, in order, and totals that are counted from the entries, and what is written tells
it from every other report. -/
theorem execute_agrees (searchable : tree.Searchable paths) :
    (∀ invocation : Invocation,
      (execute { invocation with request := .check paths } tree).exit =
        (tree.verdictOn paths).toNat) ∧
    (∀ (invocation : Invocation) (checkOnly write : Bool),
      (execute { invocation with request := .format paths checkOnly write } tree).exit =
        if checkOnly = true ∧ tree.verdictOn paths = .success ∧
          (tree.found paths).any tree.unformatted = true then ExitCode.unformatted.toNat
        else (tree.verdictOn paths).toNat) ∧
    (∀ file, tree.readable file = true → ∀ invocation other : Invocation,
      (execute { invocation with request := .ast file } tree).exit =
          (execute { other with request := .check [file] } tree).exit ∧
        ((execute { invocation with request := .ast file } tree).exit = ExitCode.success.toNat ∨
          (execute { invocation with request := .ast file } tree).exit =
            ExitCode.parseError.toNat)) ∧
    (tree.found paths ≠ [] → (∀ file ∈ tree.found paths, tree.readable file = true) →
      ∀ invocation : Invocation, invocation.format = .json →
        ∃ results, List.Forall₂ (Entry tree) (tree.found paths) results ∧
          (execute { invocation with request := .check paths } tree).output =
            (tally results).pretty ++ "\n" ∧
          ∀ report : Json, (execute { invocation with request := .check paths } tree).output =
            report.pretty ++ "\n" → report = tally results) := by
  refine ⟨check_exit searchable, format_exit searchable, ?_, ?_⟩
  · intro file readable invocation other
    exact ast_exit readable invocation other
  · intro nonempty readable invocation json
    cases found : Discovery.discover tree paths with
    | error error => exact absurd (FileTree.found_of_error found) nonempty
    | ok files =>
      have all := FileTree.found_of_ok found
      rw [all] at readable ⊢
      obtain ⟨reports, agree, wrote⟩ :=
        check_report (show Settings.format ⟨invocation.format, invocation.quiet⟩ = .json from json)
          (show Discovery.discover (Session.tree { tree }) paths = _ from found) readable
      have output : (execute { invocation with request := .check paths } tree).output =
          (tally (reports.map CheckReport.toJson)).pretty ++ "\n" := by
        rw [execute_output, ← checkSummary_eq_tally]
        exact wrote.trans String.empty_append
      refine ⟨reports.map CheckReport.toJson, ?_, output, fun report same => ?_⟩
      · rw [List.forall₂_map_right_iff]
        exact agree.imp fun _ _ => Checked.entry
      · rw [output] at same
        exact Json.pretty_injective ((String.append_left_inj _).1 same).symm

/-- A directory with one file, which is not formatted. -/
def sample : FileTree where
  entries :=
    [(["schemas"], .directory), (["schemas", "a.prisma"], .file "model A\x7b\x7d".toUTF8)]
  workingDirectory := []

theorem sample_found : sample.found ["schemas"] = ["schemas/a.prisma"] := by
  have listed : Discovery.filesAt sample "schemas" = .ok ["schemas/a.prisma"] := by
    decide +kernel
  rw [FileTree.found, discover_single listed]

theorem execute_agrees_sample :
    sample.Searchable ["schemas"] ∧
    (execute ⟨.check ["schemas"], .plain, 0, true, false⟩ sample).exit = 0 ∧
    (execute ⟨.format ["schemas"] false true, .human, 2, false, true⟩ sample).exit = 0 ∧
    (execute ⟨.format ["schemas"] true false, .json, 0, false, false⟩ sample).exit = 4 ∧
    (execute ⟨.ast "schemas/a.prisma", .human, 0, false, false⟩ sample).exit =
      (execute ⟨.check ["schemas/a.prisma"], .json, 0, true, false⟩ sample).exit ∧
    ∃ results, List.Forall₂ (Entry sample) ["schemas/a.prisma"] results ∧
      (execute ⟨.check ["schemas"], .json, 0, false, false⟩ sample).output =
        (tally results).pretty ++ "\n" ∧
      ∀ report : Json, (execute ⟨.check ["schemas"], .json, 0, false, false⟩ sample).output =
        report.pretty ++ "\n" → report = tally results := by
  have searchable : sample.Searchable ["schemas"] := by decide +kernel
  have present : ["schemas"].any sample.missing = false := by decide +kernel
  have fertile : ["schemas"].all sample.barren = false := by decide +kernel
  have readable : sample.readable "schemas/a.prisma" = true := by decide +kernel
  have parses : sample.broken "schemas/a.prisma" = false := by decide +kernel
  have verdict : sample.verdictOn ["schemas"] = .success := by
    rw [FileTree.verdictOn, sample_found, present, fertile]
    simp [FileTree.verdict, readable, parses]
  have changed : (sample.found ["schemas"]).any sample.unformatted = true := by
    rw [sample_found]
    decide +kernel
  obtain ⟨checks, formats, dumps, reports⟩ := execute_agrees searchable
  rw [verdict] at checks formats
  rw [changed] at formats
  rw [sample_found] at reports
  refine ⟨searchable, ?_, ?_, ?_, ?_, ?_⟩
  · exact checks ⟨.check ["schemas"], .plain, 0, true, false⟩
  · exact formats ⟨.check ["schemas"], .human, 2, false, true⟩ false true
  · exact formats ⟨.check ["schemas"], .json, 0, false, false⟩ true false
  · exact (dumps "schemas/a.prisma" readable ⟨.check ["schemas"], .human, 0, false, false⟩
      ⟨.check ["schemas"], .json, 0, true, false⟩).1
  · exact reports (List.cons_ne_nil _ _) (by simpa using readable)
      ⟨.check ["schemas"], .json, 0, false, false⟩ rfl

end Command

end SchemaLang
