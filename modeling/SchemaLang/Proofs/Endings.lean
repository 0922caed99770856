import SchemaLang.Command.Run
import SchemaLang.Proofs.Tidying

/-! How commands end and what they leave of the files. Formatting and checking go through
the files they find, one after the other, and stop at the first that cannot be read; files
that do not parse are reported and counted. Settings decide what is written to the two
streams, and neither the exit code nor the files. -/
namespace SchemaLang

theorem ExitCode.toNat_injective : Function.Injective ExitCode.toNat := by
  intro code other same
  cases code <;> cases other <;> first | rfl | cases same

/-- What treating a file in a mode does to the tree. -/
def FormatMode.effect (mode : FormatMode) (tree : FileTree) (file : String) : FileTree :=
  if mode = .write then tree.tidy file else tree

theorem FormatMode.tidied_effect (mode : FormatMode) (tree : FileTree) (file : String) :
    FileTree.Tidied tree (mode.effect tree file) := by
  unfold effect
  split
  · exact tree.tidied_tidy file
  · exact .refl tree

/-- The effect of writing on a list of files is that all that are reached are tidied. -/
theorem FormatMode.foldl_effect_write (tree : FileTree) (files : List String) :
    files.foldl FormatMode.write.effect tree = tree.tidyAll files := by
  rw [FileTree.tidyAll]
  congr 1

/-- Where nothing is to be written, nothing changes. -/
theorem FormatMode.foldl_effect_of_ne {mode : FormatMode} (reads : mode ≠ .write) (tree : FileTree)
    (files : List String) : files.foldl mode.effect tree = tree := by
  have constant : mode.effect = fun tree _ => tree :=
    funext fun tree => funext fun file => if_neg reads
  rw [constant, List.foldl_fixed]

namespace Command

/-! ## Steps of a command -/

theorem run_bind {α β : Type} (first : Command α) (next : α → Command β) (session : Session) :
    (first >>= next) session =
      match first session with
      | .ok value later => next value later
      | .error error later => .error error later := by
  show EStateM.bind first next session = _
  unfold EStateM.bind
  cases first session <;> rfl

/-- A step that writes messages and does nothing else. -/
def Tells (step : Command Unit) : Prop :=
  ∀ session, ∃ messages, step session = .ok () { session with messages }

/-- A step that writes to the two streams and does nothing else. -/
def Writes (step : Command Unit) : Prop :=
  ∀ session, ∃ output messages, step session = .ok () { session with output, messages }

theorem Tells.writes {step : Command Unit} (tells : Tells step) : Writes step := by
  intro session
  obtain ⟨messages, told⟩ := tells session
  exact ⟨session.output, messages, told⟩

theorem writes_put (text : String) : Writes (put text) := fun session => ⟨_, session.messages, rfl⟩

theorem writes_putJson (value : Json) : Writes (putJson value) := writes_put _

theorem tells_pure : Tells (pure ()) := fun session => ⟨session.messages, rfl⟩

theorem tells_tell (line : String) : Tells (tell line) := fun _ => ⟨_, rfl⟩

variable (settings : Settings)

theorem tells_status (line : String) : Tells (status settings line) := by
  unfold status
  split
  · exact tells_tell line
  · exact tells_pure

theorem tells_success (line : String) : Tells (success settings line) := tells_status settings _

theorem tells_warn (line : String) : Tells (warn settings line) := by
  unfold warn
  split
  · exact tells_pure
  · cases settings.format <;> exact tells_tell _

theorem tells_reportFailure (error : ParseError) (source file : String) :
    Tells (reportFailure settings error source file) := by
  unfold reportFailure
  cases settings.format with
  | human => exact tells_tell _
  | json => exact tells_pure
  | plain => exact tells_tell _

theorem tells_reportError (error : CommandError) : Tells (reportError settings error) := by
  unfold reportError
  split
  · exact tells_reportFailure settings _ _ _
  all_goals exact tells_tell _

theorem readSource_run (file : String) (session : Session) :
    readSource file session =
      match session.tree.read file with
      | .ok source => .ok source session
      | .error fault => .error (.io file fault.message) session := by
  unfold readSource
  rw [run_bind]
  show (match session.tree.read file with
    | .ok source => (pure source : Command String)
    | .error fault => throw (CommandError.io file fault.message)) session = _
  cases session.tree.read file <;> rfl

/-- What is done with canonical text changes the tree only when a changed text is to be
written. -/
theorem deliver_run (mode : FormatMode) (file : String) (changed : Bool) (canonical : String)
    (session : Session) :
    ∃ later, deliver settings mode file changed canonical session = .ok () later ∧
      later.tree = if mode = .write ∧ changed = true then session.tree.write file canonical
        else session.tree := by
  cases mode with
  | print =>
    unfold deliver
    cases settings.format <;> exact ⟨_, rfl, rfl⟩
  | check =>
    cases changed with
    | false => exact ⟨session, rfl, rfl⟩
    | true =>
      unfold deliver
      cases settings.format with
      | human =>
        obtain ⟨messages, told⟩ := tells_warn settings (file ++ " is not formatted") session
        exact ⟨_, told, rfl⟩
      | json => exact ⟨session, rfl, rfl⟩
      | plain => exact ⟨_, rfl, rfl⟩
  | write =>
    cases changed with
    | false => exact ⟨session, rfl, rfl⟩
    | true =>
      obtain ⟨messages, told⟩ := tells_status settings ("  formatted " ++ file)
        { session with tree := session.tree.write file canonical }
      exact ⟨_, told, rfl⟩

/-! ## Going through files -/

/-- A step that looks at one file. It ends the command if the file cannot be read; otherwise
it has an effect on the tree and gives what is found in the file. The effect spoils neither
what can be read nor what is found. -/
structure Visits {α : Type} (step : String → Command α) (effect : FileTree → String → FileTree)
    (found : FileTree → String → α → Prop) : Prop where
  unread : ∀ file session fault, session.tree.read file = .error fault →
    step file session = .error (.io file fault.message) session
  read : ∀ file session source, session.tree.read file = .ok source →
    ∃ report later, step file session = .ok report later ∧
      later.tree = effect session.tree file ∧ found session.tree file report
  readable : ∀ tree file, (effect tree file).readable = tree.readable
  unspoilt : ∀ tree first file report,
    found (effect tree first) file report → found tree file report

/-- A run looks at one file after the other up to the first that cannot be read, has the
effect on each of them, and ends early just when there is such a file. -/
theorem Visits.run {α : Type} {step : String → Command α} {effect : FileTree → String → FileTree}
    {found : FileTree → String → α → Prop} (visits : Visits step effect found)
    (files : List String) (session : Session) :
    match files.mapM step session with
    | .ok reports later =>
      (∀ file ∈ files, session.tree.readable file = true) ∧
        later.tree = (session.tree.reached files).foldl effect session.tree ∧
        List.Forall₂ (found session.tree) files reports
    | .error error later =>
      (∃ file ∈ files, session.tree.readable file = false) ∧
        later.tree = (session.tree.reached files).foldl effect session.tree ∧
        ∃ path message, error = .io path message := by
  -- Later files are looked at in the tree that the first one leaves, where the same files can
  -- be read and what is found in them is what is found in the first tree.
  induction files generalizing session with
  | nil => exact ⟨List.forall_mem_nil _, rfl, .nil⟩
  | cons file files ih =>
    rw [List.mapM_cons, run_bind]
    cases read : session.tree.read file with
    | error fault =>
      have unread := FileTree.readable_of_error read
      rw [visits.unread file session fault read]
      refine ⟨⟨file, List.mem_cons_self, unread⟩, ?_, _, _, rfl⟩
      rw [FileTree.reached, List.takeWhile_cons_of_neg (by simp [unread])]
      rfl
    | ok source =>
      have here := FileTree.readable_of_ok read
      obtain ⟨report, later, ran, moved, first⟩ := visits.read file session source read
      rw [ran]
      have further := ih later
      have same : later.tree.readable = session.tree.readable := by
        rw [moved, visits.readable]
      have effect : (later.tree.reached files).foldl effect later.tree =
          (session.tree.reached (file :: files)).foldl effect session.tree := by
        rw [FileTree.reached, FileTree.reached, List.takeWhile_cons_of_pos here, same,
          List.foldl_cons, moved]
      rw [effect, same] at further
      simp only [run_bind]
      cases others : files.mapM step later with
      | error error final =>
        rw [others] at further
        obtain ⟨⟨other, listed, unread⟩, tree, io⟩ := further
        exact ⟨⟨other, List.mem_cons_of_mem _ listed, unread⟩, tree, io⟩
      | ok reports final =>
        rw [others] at further
        obtain ⟨readable, tree, agree⟩ := further
        rw [moved] at agree
        exact ⟨List.forall_mem_cons.2 ⟨here, readable⟩, tree,
          .cons first (agree.imp fun _ _ => visits.unspoilt _ _ _ _)⟩

/-- If reports are marked just as their files are, some report is marked when some file is. -/
theorem countP_pos_iff_any {α : Type} {agrees : String → α → Prop} {ofFile : String → Bool}
    {ofReport : α → Bool} (same : ∀ file report, agrees file report → ofReport report = ofFile file)
    {files : List String} {reports : List α} (agree : List.Forall₂ agrees files reports) :
    0 < reports.countP ofReport ↔ files.any ofFile = true := by
  induction agree with
  | nil => simp
  | @cons file report files reports first _ ih =>
    rw [List.any_cons, ← same file report first, Bool.or_eq_true, ← ih, List.countP_cons]
    split <;> simp_all

theorem discover_run (paths : List String) (session : Session) :
    discover paths session =
      match Discovery.discover session.tree paths with
      | .ok files => .ok files session
      | .error error => .error (.ofDiscovery error) session := by
  unfold discover
  rw [run_bind]
  show (match Discovery.discover session.tree paths with
    | .ok files => (pure files : Command (List String))
    | .error error => throw (CommandError.ofDiscovery error)) session = _
  cases Discovery.discover session.tree paths <;> rfl

/-! ## Ends of a command -/

/-- A command that ends with an exit code and leaves a tree behind. -/
def Ends (exit : ExitCode) (tree : FileTree) : EStateM.Result CommandError Session Unit → Prop
  | .ok _ later => exit = .success ∧ later.tree = tree
  | .error error later => exit = error.exitCode ∧ later.tree = tree

/-- What is written before the last step does not decide how a command ends. -/
theorem Writes.ends {step next : Command Unit} {exit : ExitCode} {tree : FileTree}
    {session : Session} (writes : Writes step)
    (ends : ∀ output messages, Ends exit tree (next { session with output, messages })) :
    Ends exit tree ((do step; next) session) := by
  obtain ⟨output, messages, wrote⟩ := writes session
  rw [run_bind, wrote]
  exact ends output messages

/-- A choice between steps that end alike does not matter. -/
theorem ends_ite {choice : Prop} [Decidable choice] {step other : Command Unit} {exit : ExitCode}
    {tree : FileTree} {session : Session} (first : Ends exit tree (step session))
    (second : Ends exit tree (other session)) :
    Ends exit tree ((if choice then step else other) session) := by
  split
  · exact first
  · exact second

theorem ends_summary {value : Json} {rest : Command Unit} {exit : ExitCode} {tree : FileTree}
    {session : Session}
    (ends : ∀ output messages, Ends exit tree (rest { session with output, messages })) :
    Ends exit tree
      ((if settings.format = .json then (do putJson value; rest) else rest) session) := by
  apply ends_ite
  · exact (writes_putJson value).ends ends
  · exact ends session.output session.messages

theorem Tells.ends {step : Command Unit} (tells : Tells step) (session : Session) :
    Ends .success session.tree (step session) := by
  obtain ⟨messages, told⟩ := tells session
  rw [told]
  exact ⟨rfl, rfl⟩

end Command

/-- How going through files ends: reading comes first, then parsing, and only where neither
fails something else counts. -/
def FileTree.verdict (tree : FileTree) (files : List String) (clean : ExitCode) : ExitCode :=
  if files.all tree.readable then
    if files.any tree.broken then .parseError else clean
  else .generalError

theorem FileTree.verdict_unread {tree : FileTree} {files : List String} {file : String}
    (listed : file ∈ files) (unread : tree.readable file = false) (clean : ExitCode) :
    tree.verdict files clean = .generalError := by
  apply if_neg
  intro all
  rw [List.all_eq_true.1 all file listed] at unread
  cases unread

theorem FileTree.verdict_read {tree : FileTree} {files : List String}
    (readable : ∀ file ∈ files, tree.readable file = true) (clean : ExitCode) :
    tree.verdict files clean = if files.any tree.broken then .parseError else clean :=
  if_pos (List.all_eq_true.2 readable)

/-- The files that a search finds. -/
def FileTree.found (tree : FileTree) (paths : List String) : List String :=
  match Discovery.discover tree paths with
  | .ok files => files
  | .error _ => []

/-- How going through the files behind paths ends, a search that fails included. -/
def FileTree.exitOn (tree : FileTree) (paths : List String) (clean : List String → ExitCode) :
    ExitCode :=
  match Discovery.discover tree paths with
  | .ok files => tree.verdict files (clean files)
  | .error error => (CommandError.ofDiscovery error).exitCode

theorem FileTree.found_of_ok {tree : FileTree} {paths files : List String}
    (listed : Discovery.discover tree paths = .ok files) : tree.found paths = files := by
  rw [found, listed]

theorem FileTree.found_of_error {tree : FileTree} {paths : List String} {error : DiscoveryError}
    (failed : Discovery.discover tree paths = .error error) : tree.found paths = [] := by
  rw [found, failed]

/-- A search finds the same files in trees of one shape. -/
theorem FileTree.found_congr {tree other : FileTree} (shape : SameShape tree other)
    (paths : List String) : other.found paths = tree.found paths := by
  rw [found, found, Discovery.discover_congr shape]

/-- How formatting ends where all files parse. -/
def FormatMode.clean (mode : FormatMode) (tree : FileTree) (files : List String) : ExitCode :=
  if mode = .check ∧ files.any tree.unformatted = true then .unformatted else .success

/-! ## Formatting -/

namespace Command

variable (settings : Settings) {mode : FormatMode}

/-- What formatting reports on a file, as far as the tree decides it. -/
structure Reported (mode : FormatMode) (tree : FileTree) (file : String) (report : FormatReport) :
    Prop where
  failed : report.isFailure = tree.broken file
  changed : mode = .check → report.changed?.isSome = tree.unformatted file

theorem formatFile_visits (mode : FormatMode) :
    Visits (formatFile settings mode) mode.effect (Reported mode) where
  unread file session fault read := by
    unfold formatFile
    rw [run_bind, readSource_run, read]
  read file session source read := by
    unfold formatFile
    rw [run_bind, readSource_run, read]
    have broken := FileTree.broken_of_ok read
    have unformatted := FileTree.unformatted_of_ok read
    simp only
    cases parsed : Document.parse source with
    | error error =>
      have uncanonical := canonical?_of_error parsed
      obtain ⟨messages, told⟩ := tells_reportFailure settings error source file session
      refine ⟨.failed file error, { session with messages }, ?_, ?_, ?_, fun _ => ?_⟩
      · simp only
        rw [run_bind, told]
        rfl
      · rw [FormatMode.effect, FileTree.tidy_of_none read uncanonical, ite_self]
      · rw [broken, uncanonical]
        rfl
      · rw [unformatted, uncanonical]
        rfl
    | ok document =>
      obtain ⟨canonical, wrote, found⟩ := canonical?_of_ok parsed
      obtain ⟨later, ran, moved⟩ :=
        deliver_run settings mode file (canonical != source) canonical session
      refine ⟨.formatted file (canonical != source) canonical, later, ?_, ?_, ?_, fun _ => ?_⟩
      · simp only [wrote]
        rw [run_bind, ran]
        rfl
      · rw [moved, FormatMode.effect, FileTree.tidy_of_some read found]
        by_cases writes : mode = .write <;> simp [writes]
      · rw [broken, found]
        rfl
      · rw [unformatted, found]
        cases changed : canonical != source <;> simp [FormatReport.changed?, changed]
  readable tree file := (mode.tidied_effect tree file).readable
  unspoilt tree first file report reported := by
    refine ⟨?_, fun checks => ?_⟩
    · rw [reported.failed, (mode.tidied_effect tree first).broken file]
    · have same : mode.effect tree first = tree := if_neg (by rw [checks]; decide)
      rw [reported.changed checks, same]

/-- Something failed to parse just when some file is broken. -/
theorem failed_iff {tree : FileTree} {files : List String} {reports : List FormatReport}
    (agree : List.Forall₂ (Reported mode tree) files reports) :
    0 < reports.countP FormatReport.isFailure ↔ files.any tree.broken = true :=
  countP_pos_iff_any (fun _ _ reported => reported.failed) agree

/-- Something is left to format just when some file is not formatted. -/
theorem pending_iff {tree : FileTree} {files : List String} {reports : List FormatReport}
    (agree : List.Forall₂ (Reported mode tree) files reports) :
    Command.unformatted mode reports ≠ [] ↔ mode = .check ∧ files.any tree.unformatted = true := by
  unfold Command.unformatted
  by_cases checks : mode = .check
  · have marked := countP_pos_iff_any (fun _ _ reported => reported.changed checks) agree
    rw [if_pos checks, ← marked, ← List.length_filterMap_eq_countP, List.length_pos_iff]
    simp [checks]
  · simp [checks]

/-- Formatting ends as the files it finds deserve, and has the effect of its mode on those
that are reached. -/
theorem format_ends (mode : FormatMode) (paths : List String) (session : Session) :
    Ends (session.tree.exitOn paths (mode.clean session.tree))
      ((session.tree.reached (session.tree.found paths)).foldl mode.effect session.tree)
      (format settings mode paths session) := by
  unfold format FileTree.exitOn
  rw [run_bind, discover_run]
  cases listed : Discovery.discover session.tree paths with
  | error error =>
    rw [FileTree.found_of_error listed]
    exact ⟨rfl, rfl⟩
  | ok files =>
    rw [FileTree.found_of_ok listed]
    simp only [run_bind]
    have ran := (formatFile_visits settings mode).run files session
    cases result : files.mapM (formatFile settings mode) session with
    | error error later =>
      rw [result] at ran
      obtain ⟨⟨file, member, unread⟩, moved, path, message, rfl⟩ := ran
      rw [FileTree.verdict_unread member unread]
      exact ⟨rfl, moved⟩
    | ok reports later =>
      rw [result] at ran
      obtain ⟨readable, moved, agree⟩ := ran
      rw [FileTree.verdict_read readable, ← moved]
      apply ends_summary
      intro output messages
      by_cases failed : 0 < reports.countP FormatReport.isFailure
      · rw [if_pos failed, if_pos ((failed_iff agree).1 failed)]
        exact ⟨rfl, rfl⟩
      · rw [if_neg failed, if_neg (mt (failed_iff agree).2 failed), FormatMode.clean]
        by_cases pending : Command.unformatted mode reports ≠ []
        · rw [if_pos pending, if_pos ((pending_iff agree).1 pending)]
          exact ⟨rfl, rfl⟩
        · rw [if_neg pending, if_neg (mt (pending_iff agree).2 pending)]
          apply ends_ite
          · exact (tells_success settings _).ends _
          · exact ⟨rfl, rfl⟩

end Command

/-! ## Checking -/

/-- What checking finds in a text. -/
def CheckReport.ofSource (file source : String) : CheckReport :=
  match Document.parse source with
  | .ok document => ⟨file, document.models.length, document.configs.length, none⟩
  | .error error => ⟨file, 0, 0, some error⟩

theorem CheckReport.file_ofSource (file source : String) : (ofSource file source).file = file := by
  unfold ofSource
  cases Document.parse source <;> rfl

theorem CheckReport.error_ofSource {tree : FileTree} {file source : String}
    (read : tree.read file = .ok source) :
    (ofSource file source).error.isSome = tree.broken file := by
  unfold ofSource FileTree.broken
  rw [read]
  cases parsed : Document.parse source with
  | ok document =>
    simp only [parsed]
    rfl
  | error error =>
    simp only [parsed]
    rfl

namespace Command

variable (settings : Settings)

/-- A report on what a file holds. -/
def Checked (tree : FileTree) (file : String) (report : CheckReport) : Prop :=
  ∃ source, tree.read file = .ok source ∧ report = .ofSource file source

theorem checkFile_run {file source : String} {session : Session}
    (read : session.tree.read file = .ok source) :
    ∃ messages, checkFile settings file session =
      .ok (.ofSource file source) { session with messages } := by
  unfold checkFile CheckReport.ofSource
  rw [run_bind, readSource_run, read]
  simp only
  cases parsed : Document.parse source with
  | ok document =>
    simp only
    obtain ⟨messages, told⟩ := tells_status settings _ session
    exact ⟨messages, by rw [run_bind, told]; rfl⟩
  | error error =>
    simp only
    obtain ⟨messages, told⟩ := tells_reportFailure settings error source file session
    exact ⟨messages, by rw [run_bind, told]; rfl⟩

theorem checkFile_visits : Visits (checkFile settings) (fun tree _ => tree) Checked where
  unread file session fault read := by
    unfold checkFile
    rw [run_bind, readSource_run, read]
  read file session source read := by
    obtain ⟨messages, ran⟩ := checkFile_run settings read
    exact ⟨_, _, ran, rfl, source, read, rfl⟩
  readable _ _ := rfl
  unspoilt _ _ _ _ checked := checked

/-- Something failed to parse just when some file is broken. -/
theorem failures_iff {tree : FileTree} {files : List String} {reports : List CheckReport}
    (agree : List.Forall₂ (Checked tree) files reports) :
    0 < failures reports ↔ files.any tree.broken = true := by
  refine countP_pos_iff_any (fun file report checked => ?_) agree
  obtain ⟨source, read, rfl⟩ := checked
  exact CheckReport.error_ofSource read

/-- Checking ends as the files it finds deserve and changes none. -/
theorem check_ends (paths : List String) (session : Session) :
    Ends (session.tree.exitOn paths fun _ => .success) session.tree
      (check settings paths session) := by
  unfold check FileTree.exitOn
  rw [run_bind, discover_run]
  cases listed : Discovery.discover session.tree paths with
  | error error => exact ⟨rfl, rfl⟩
  | ok files =>
    simp only [run_bind]
    have ran := (checkFile_visits settings).run files session
    simp only [List.foldl_fixed] at ran
    cases result : files.mapM (checkFile settings) session with
    | error error later =>
      rw [result] at ran
      obtain ⟨⟨file, member, unread⟩, kept, path, message, rfl⟩ := ran
      rw [FileTree.verdict_unread member unread]
      exact ⟨rfl, kept⟩
    | ok reports later =>
      rw [result] at ran
      obtain ⟨readable, kept, agree⟩ := ran
      rw [FileTree.verdict_read readable]
      rw [← kept] at agree ⊢
      have close (output messages : String) :
          Ends (if files.any later.tree.broken = true then .parseError else .success) later.tree
            ((if 0 < failures reports then throw (.parseFailed (failures reports) files.length)
              else pure () : Command Unit) { later with output, messages }) := by
        by_cases failed : 0 < failures reports
        · rw [if_pos failed, if_pos ((failures_iff agree).1 failed)]
          exact ⟨rfl, rfl⟩
        · rw [if_neg failed, if_neg (mt (failures_iff agree).2 failed)]
          exact ⟨rfl, rfl⟩
      cases settings.format with
      | human =>
        apply ends_ite
        · exact (tells_warn settings _).writes.ends close
        · exact (tells_success settings _).writes.ends close
      | json => exact (writes_putJson _).ends close
      | plain => exact (writes_put _).ends close

/-! ## Other commands -/

theorem ast_ends (file : String) (session : Session) :
    Ends (session.tree.verdict [file] .success) session.tree (ast file session) := by
  unfold ast
  rw [run_bind, readSource_run]
  cases read : session.tree.read file with
  | error fault =>
    have verdict : session.tree.verdict [file] .success = .generalError := by
      simp [FileTree.verdict, FileTree.readable_of_error read]
    rw [verdict]
    exact ⟨rfl, rfl⟩
  | ok source =>
    have readable := FileTree.readable_of_ok read
    have broken := FileTree.broken_of_ok read
    simp only
    cases parsed : Document.parse source with
    | error error =>
      rw [canonical?_of_error parsed] at broken
      have verdict : session.tree.verdict [file] .success = .parseError := by
        simp [FileTree.verdict, readable, broken]
      rw [verdict]
      exact ⟨rfl, rfl⟩
    | ok document =>
      obtain ⟨canonical, -, found⟩ := canonical?_of_ok parsed
      rw [found] at broken
      have verdict : session.tree.verdict [file] .success = .success := by
        simp [FileTree.verdict, readable, broken]
      rw [verdict]
      exact ⟨rfl, rfl⟩

theorem completions_ends (shell : String) (session : Session) :
    ∃ exit, Ends exit session.tree (completions shell session) := by
  unfold completions
  split
  all_goals exact ⟨_, rfl, rfl⟩

/-! ## Command lines -/

/-- A command line ends as its command does. The report on an error comes last and changes
no file. -/
theorem execute_ends {invocation : Invocation} {tree after : FileTree} {exit : ExitCode}
    (ends : Ends exit after
      (perform ⟨invocation.format, invocation.quiet⟩ invocation.request { tree })) :
    (execute invocation tree).exit = exit.toNat ∧ (execute invocation tree).tree = after := by
  unfold execute
  cases result : perform ⟨invocation.format, invocation.quiet⟩ invocation.request { tree } with
  | ok value later =>
    rw [result] at ends
    obtain ⟨rfl, rfl⟩ := ends
    simp [result]
  | error error later =>
    rw [result] at ends
    obtain ⟨rfl, rfl⟩ := ends
    obtain ⟨messages, told⟩ :=
      tells_reportError ⟨invocation.format, invocation.quiet⟩ error later
    simp [result, told]

end Command

end SchemaLang
