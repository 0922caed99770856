import Mathlib.Data.List.TakeWhile
import SchemaLang.Proofs.Endings

/-! What commands do to files. Only formatting with the option to write changes any: of the
files it finds, those in front of the first that cannot be read, and of these the ones that
parse, are given their canonical texts. After that there is nothing left to write and nothing
to complain of. -/
namespace SchemaLang

/-- What is left when files are rewritten: the same places; in each of the files in front of
the first that cannot be read its canonical text, if it parses; and what was there before in
every place to which no such file leads. -/
structure FileTree.Rewritten (tree : FileTree) (files : List String) (after : FileTree) : Prop
    extends SameShape tree after where
  canonical : ∀ file ∈ tree.reached files, ∀ source document, tree.read file = .ok source →
    Document.parse source = .ok document →
      ∃ text, document.print = .ok text ∧ after.read file = .ok text
  kept : ∀ location, (∀ file ∈ tree.reached files, ∀ source document,
    tree.read file = .ok source → Document.parse source = .ok document →
      tree.resolve file ≠ .ok location) → after.get? location = tree.get? location

theorem FileTree.rewritten_tidyAll (tree : FileTree) (files : List String) :
    tree.Rewritten files (tree.tidyAll (tree.reached files)) where
  toSameShape := (tree.tidied_tidyAll _).toSameShape
  canonical file listed source document read parsed := by
    obtain ⟨text, wrote, found⟩ := canonical?_of_ok parsed
    exact ⟨text, wrote, read_tidyAll listed read found⟩
  kept location spared := by
    apply get?_tidyAll
    intro file listed source read
    cases parsed : Document.parse source with
    | error error => exact .inl (canonical?_of_error parsed)
    | ok document => exact .inr (spared file listed source document read parsed)

namespace Command

variable (settings : Settings)

/-! ## Checking files that are formatted -/

/-- Formatting one file that needs no change: it is read and parsed, and nothing is said of
it unless it does not parse. -/
def surveyFile (file : String) : Command FormatReport := do
  let source ← readSource file
  match Document.parse source with
  | .error error =>
    reportFailure settings error source file
    return .failed file error
  | .ok _ => return .formatted file false source

/-- A check for files that are not formatted that finds none. -/
def survey (paths : List String) : Command Unit := do
  let files ← discover paths
  let reports ← files.mapM (surveyFile settings)
  if settings.format = .json then putJson (formatSummary .check reports)
  let failed := reports.countP FormatReport.isFailure
  if 0 < failed then throw (.parseFailed failed files.length)
  success settings (toString files.length ++ " files already formatted")

theorem formatFile_neat {file : String} {session : Session}
    (neat : session.tree.unformatted file = false) :
    formatFile settings .check file session = surveyFile settings file session := by
  unfold formatFile surveyFile
  rw [run_bind, run_bind, readSource_run]
  cases read : session.tree.read file with
  | error fault => rfl
  | ok source =>
    simp only
    cases parsed : Document.parse source with
    | error error => rfl
    | ok document =>
      obtain ⟨canonical, wrote, found⟩ := canonical?_of_ok parsed
      rw [FileTree.unformatted_of_ok read, found] at neat
      have same : canonical = source := by simpa using neat
      subst same
      have unchanged : (canonical != canonical) = false := bne_self_eq_false canonical
      simp only [wrote, unchanged]
      rfl

/-- Checking files that are formatted, up to one that cannot be read, leaves the tree as it
is and so goes on as it began. -/
theorem formatFiles_neat (files : List String) (session : Session)
    (neat : ∀ file ∈ session.tree.reached files, session.tree.unformatted file = false) :
    files.mapM (formatFile settings .check) session =
      files.mapM (surveyFile settings) session := by
  induction files generalizing session with
  | nil => rfl
  | cons file files ih =>
    rw [List.mapM_cons, List.mapM_cons, run_bind, run_bind]
    have visits := formatFile_visits settings .check
    cases read : session.tree.read file with
    | error fault =>
      rw [← formatFile_neat settings (FileTree.unformatted_of_error read),
        visits.unread file session fault read]
    | ok source =>
      rw [FileTree.reached, List.takeWhile_cons_of_pos (FileTree.readable_of_ok read)] at neat
      obtain ⟨here, others⟩ := List.forall_mem_cons.1 neat
      obtain ⟨report, later, ran, moved, -⟩ := visits.read file session source read
      rw [← formatFile_neat settings here, ran]
      have same : later.tree = session.tree := moved
      simp only [run_bind]
      rw [ih later (by rwa [same])]

/-- Every file that paths stand for is formatted, as far as they are reached. -/
def Neat (tree : FileTree) (paths : List String) : Prop :=
  ∀ file ∈ tree.reached (tree.found paths), tree.unformatted file = false

variable {paths : List String} {session : Session}

/-- Where all files are readable, all are reached. -/
theorem Neat.none {tree : FileTree} (neat : Neat tree paths)
    (readable : ∀ file ∈ tree.found paths, tree.readable file = true) :
    (tree.found paths).any tree.unformatted = false := by
  have all : tree.reached (tree.found paths) = tree.found paths :=
    List.takeWhile_eq_self_iff.2 readable
  rw [List.any_eq_false]
  intro file listed changed
  rw [neat file (by rwa [all])] at changed
  cases changed

/-- Where files are formatted, a check for those that are not finds none. -/
theorem Neat.format_eq (session : Session) (neat : Neat session.tree paths) :
    format settings .check paths session = survey settings paths session := by
  unfold format survey
  rw [run_bind, run_bind, discover_run]
  cases listed : Discovery.discover session.tree paths with
  | error error => rfl
  | ok files =>
    have found := FileTree.found_of_ok listed
    have formatted := neat.none
    rw [Neat, found] at neat
    rw [found] at formatted
    simp only [run_bind]
    have ran := (formatFile_visits settings .check).run files session
    rw [← formatFiles_neat settings files session neat]
    cases result : files.mapM (formatFile settings .check) session with
    | error error later => rfl
    | ok reports later =>
      rw [result] at ran
      obtain ⟨readable, -, agree⟩ := ran
      have nothing : Command.unformatted .check reports = [] := by
        by_contra pending
        obtain ⟨-, changed⟩ := (pending_iff agree).1 pending
        rw [formatted readable] at changed
        cases changed
      simp only [nothing]
      rfl

/-- Where files are formatted, a check for those that are not has no use for the exit code
it has of its own. -/
theorem Neat.exit_ne {tree : FileTree} (neat : Neat tree paths) :
    tree.exitOn paths (FormatMode.check.clean tree) ≠ .unformatted := by
  unfold FileTree.exitOn
  cases listed : Discovery.discover tree paths with
  | error error => cases error <;> simp [CommandError.ofDiscovery, CommandError.exitCode]
  | ok files =>
    have formatted := neat.none
    rw [FileTree.found_of_ok listed] at formatted
    simp only
    by_cases readable : ∀ file ∈ files, tree.readable file = true
    · rw [FileTree.verdict_read readable, FormatMode.clean, formatted readable]
      split <;> simp
    · push Not at readable
      obtain ⟨file, member, unread⟩ := readable
      rw [FileTree.verdict_unread member (by simpa using unread)]
      decide

/-! ## The effect of a command line -/

/-- Only formatting with the option to write, and without the one to check, can change
files. -/
theorem perform_kept {request : Request} (other : ∀ paths, request ≠ .format paths false true)
    (session : Session) : ∃ exit, Ends exit session.tree (perform settings request session) := by
  cases request with
  | check paths => exact ⟨_, check_ends settings paths session⟩
  | format paths checkOnly write =>
    have reads : formatMode checkOnly write ≠ .write := by
      cases checkOnly <;> cases write <;> first | exact absurd rfl (other paths) | decide
    have ends := format_ends settings (formatMode checkOnly write) paths session
    rw [FormatMode.foldl_effect_of_ne reads] at ends
    exact ⟨_, ends⟩
  | ast file => exact ⟨_, ast_ends file session⟩
  | completions shell => exact completions_ends shell session

/-- What a command line that writes leaves behind: a tree in which all that it reaches is
tidied. -/
theorem execute_write {invocation : Invocation}
    (writes : invocation.request = .format paths false true) (tree : FileTree) :
    (execute invocation tree).tree = tree.tidyAll (tree.reached (tree.found paths)) := by
  have ends := format_ends ⟨invocation.format, invocation.quiet⟩ .write paths { tree }
  have performs : perform ⟨invocation.format, invocation.quiet⟩ invocation.request { tree } =
      format ⟨invocation.format, invocation.quiet⟩ .write paths { tree } := by
    rw [writes]
    rfl
  rw [FormatMode.foldl_effect_write, ← performs] at ends
  exact (execute_ends ends).2

/-- After writing, files are formatted: the search finds the same again, and as many of them
are reached. -/
theorem neat_write (tree : FileTree) (paths : List String) :
    Neat (tree.tidyAll (tree.reached (tree.found paths))) paths := by
  have tidied := tree.tidied_tidyAll (tree.reached (tree.found paths))
  intro file listed
  rw [FileTree.found_congr tidied.toSameShape, FileTree.reached, tidied.readable] at listed
  exact FileTree.unformatted_tidyAll listed

/-- **Formatting with the option to write rewrites the files it reaches, and nothing else
changes a file.** In whatever form results are written, the files that are found, read and
parsed hold their canonical texts afterwards and everything else is as it was. A second run
changes nothing, and a check that follows lists no file as not formatted: it behaves as one
that takes every file for formatted. No other command changes the tree. -/
theorem execute_rewrites (invocation : Invocation) (tree : FileTree) :
    let after := (execute invocation tree).tree
    match invocation.request with
    | .format paths false true =>
      (match Discovery.discover tree paths with
        | .error _ => after = tree
        | .ok files => tree.Rewritten files after) ∧
      (∀ again : Invocation,
        (execute { again with request := .format paths false true } after).tree = after) ∧
      (∀ settings, perform settings (.format paths true false) { tree := after } =
        survey settings paths { tree := after }) ∧
      ∀ later : Invocation,
        (execute { later with request := .format paths true false } after).exit ≠
          ExitCode.unformatted.toNat
    | _ => after = tree := by
  intro after
  by_cases writes : ∃ paths, invocation.request = .format paths false true
  · obtain ⟨paths, writes⟩ := writes
    have wrote : after = _ := execute_write writes tree
    -- All that is said of later runs follows from this, however the tree came about.
    have neat : Neat after paths := by
      rw [wrote]
      exact neat_write tree paths
    clear_value after
    simp only [writes]
    refine ⟨?_, ?_, ?_, ?_⟩
    · cases listed : Discovery.discover tree paths with
      | error error =>
        rw [wrote, FileTree.found_of_error listed]
        rfl
      | ok files =>
        rw [wrote, FileTree.found_of_ok listed]
        exact tree.rewritten_tidyAll files
    · intro again
      rw [execute_write rfl after]
      exact FileTree.tidyAll_eq_self neat
    · intro settings
      exact Neat.format_eq settings { tree := after } neat
    · intro later
      have ends := format_ends ⟨later.format, later.quiet⟩ .check paths { tree := after }
      rw [(execute_ends ends).1]
      exact ExitCode.toNat_injective.ne neat.exit_ne
  · push Not at writes
    obtain ⟨exit, ends⟩ := perform_kept ⟨invocation.format, invocation.quiet⟩ writes { tree }
    have kept : after = tree := (execute_ends ends).2
    split
    · rename_i paths writing
      exact absurd writing (writes paths)
    · exact kept

end Command

end SchemaLang
