import SchemaLang.Proofs.Onward

/-! What a choice selects. The first alternative that matches is taken, and so is the first
fatal failure. If all alternatives merely fail, the failure that got furthest is reported,
and the first of these if there are several; the choice's own message stands in front of
them all. Alternatives are compared as if each were run from the state in which the choice
begins. Since no failure stands in front of that place, the own message wins exactly if no
alternative got beyond it. -/
namespace SchemaLang

variable {κ : Type} {Γ : κ → Type} {α β : Type}

namespace ParseError

/-- The first of those failures in a list that got furthest. -/
def FirstFurthest (errors : List ParseError) (error : ParseError) : Prop :=
  ∃ before behind, errors = before ++ error :: behind ∧
    (∀ other ∈ before, other.position.offset < error.position.offset) ∧
    ∀ other ∈ behind, other.position.offset ≤ error.position.offset

variable {errors : List ParseError} {first error : ParseError}

theorem FirstFurthest.le (winner : FirstFurthest errors error) {other : ParseError}
    (found : other ∈ errors) : other.position.offset ≤ error.position.offset := by
  obtain ⟨before, behind, rfl, less, atMost⟩ := winner
  rcases List.mem_append.1 found with earlier | rest
  · exact Nat.le_of_lt (less other earlier)
  · rcases List.mem_cons.1 rest with rfl | later
    · exact Nat.le_refl _
    · exact atMost other later

/-- A failure that got less far changes nothing in front of the others. -/
theorem FirstFurthest.cons (winner : FirstFurthest errors error)
    (less : first.position.offset < error.position.offset) :
    FirstFurthest (first :: errors) error := by
  obtain ⟨before, behind, rfl, lesser, atMost⟩ := winner
  refine ⟨first :: before, behind, rfl, ?_, atMost⟩
  intro other found
  rcases List.mem_cons.1 found with rfl | later
  · exact less
  · exact lesser other later

/-- Nor does a failure that got no further than the one in front of it. -/
theorem FirstFurthest.insert {second : ParseError} (winner : FirstFurthest (first :: errors) error)
    (atMost : second.position.offset ≤ first.position.offset) :
    FirstFurthest (first :: second :: errors) error := by
  obtain ⟨before, behind, same, lesser, most⟩ := winner
  cases before with
  | nil =>
    cases same
    refine ⟨[], second :: errors, rfl, List.forall_mem_nil _, ?_⟩
    intro other found
    rcases List.mem_cons.1 found with rfl | later
    · exact atMost
    · exact most other later
  | cons head before =>
    cases same
    have less := lesser first List.mem_cons_self
    refine ⟨first :: second :: before, behind, rfl, ?_, most⟩
    intro other found
    rcases List.mem_cons.1 found with rfl | rest
    · exact less
    · rcases List.mem_cons.1 rest with rfl | later
      · exact Nat.lt_of_le_of_lt atMost less
      · exact lesser other (List.mem_cons_of_mem _ later)

/-- Weighing failures one by one finds the first that got furthest. -/
theorem firstFurthest_foldl (own : ParseError) (errors : List ParseError) :
    FirstFurthest (own :: errors) (errors.foldl furthest own) := by
  induction errors generalizing own with
  | nil => exact ⟨[], [], rfl, List.forall_mem_nil _, List.forall_mem_nil _⟩
  | cons error errors ih =>
    have winner := ih (own.furthest error)
    rw [List.foldl_cons]
    unfold furthest at winner ⊢
    split at winner
    · rename_i further
      rw [if_pos further]
      exact winner.cons (Nat.lt_of_lt_of_le further (winner.le List.mem_cons_self))
    · rename_i short
      rw [if_neg short]
      exact winner.insert (Nat.le_of_not_lt short)

/-- If nothing got further than the first failure, it is the one that is found. -/
theorem FirstFurthest.eq_head_iff {own : ParseError} (winner : FirstFurthest (own :: errors) error)
    (onward : ∀ other ∈ errors,
      other.position = own.position ∨ own.position.offset < other.position.offset) :
    error = own ↔ ∀ other ∈ errors, other.position = own.position := by
  constructor
  · rintro rfl other found
    rcases onward other found with same | beyond
    · exact same
    · exact absurd beyond (Nat.not_lt.2 (winner.le (List.mem_cons_of_mem _ found)))
  · intro level
    obtain ⟨before, behind, same, lesser, -⟩ := winner
    cases before with
    | nil =>
      cases same
      rfl
    | cons head before =>
      cases same
      have found : error ∈ before ++ error :: behind := by simp
      have less := lesser own List.mem_cons_self
      rw [level error found] at less
      exact absurd less (Nat.lt_irrefl _)

end ParseError

/-! ## Alternatives -/

/-- The rules to choose from, in order. -/
def Alternatives.rules {α : Type} : Alternatives Γ α → List (Rule Γ α)
  | .last rule => [rule]
  | .orElse rule others => rule :: others.rules

theorem Alternatives.readers_eq (read : {α : Type} → Rule Γ α → Reader α) {α : Type} :
    (alternatives : Alternatives Γ α) →
      alternatives.readers read = alternatives.rules.map fun rule => read rule
  | .last _ => rfl
  | .orElse rule others => congrArg (read rule :: ·) (others.readers_eq read)

/-- An outcome after which a choice tries the next alternative. -/
def Recoverable (outcome : Except ParseError α) : Prop :=
  ∃ error, outcome = .error error ∧ error.isFatal = false

namespace Rule

/-- A rule neither matches nor fails fatally. -/
def GivenUp (grammar : Grammar Γ) (state : ParserState) (rule : Rule Γ α) : Prop :=
  ∀ outcome final, rule.Ends grammar state outcome final → Recoverable outcome

/-- What a choice comes to, told from what its alternatives come to when each of them is
run from the state in which the choice begins. -/
structure Selects (grammar : Grammar Γ) (rules : List (Rule Γ α)) (own : ParseError)
    (state : ParserState) (outcome : Except ParseError α) (after : ParserState) : Prop where
  /-- The first alternative to match or to fail fatally is the choice. -/
  first : ∀ earlier rule later result final, rules = earlier ++ rule :: later →
    (∀ other ∈ earlier, other.GivenUp grammar state) → rule.Ends grammar state result final →
    ¬ Recoverable result →
    outcome = result ∧ after.cursor.pointer = final.cursor.pointer
  /-- If all fail and no failure is fatal, the first to get furthest is reported. The own
  message is, exactly if all failures stand where the choice begins. -/
  furthest : ∀ errors, List.Forall₂ (Misses grammar state) rules errors →
    ∃ error, outcome = .error error ∧ ParseError.FirstFurthest (own :: errors) error ∧
      (error = own ↔ ∀ other ∈ errors, other.position = own.position)
  /-- One of these is the case, and no alternative in front of the deciding one is without
  an end. -/
  decided :
    (∃ earlier rule later, rules = earlier ++ rule :: later ∧
      (∀ other ∈ earlier, ∃ error, other.Misses grammar state error) ∧
      ∃ result final, rule.Ends grammar state result final ∧ ¬ Recoverable result) ∨
    ∃ errors, List.Forall₂ (Misses grammar state) rules errors

end Rule

/-! ## Readings of a choice -/

/-- The alternatives are gone through up to the first that decides. If none does, their
failures have been weighed one by one. -/
theorem Reader.firstOf_cases (read : Rule Γ α → Reader α) (depth : Nat) (feed : Feed)
    (rules : List (Rule Γ α)) (own : ParseError) :
    (∃ earlier rule later, rules = earlier ++ rule :: later ∧
      (∀ other ∈ earlier, ∃ error, (read other depth feed).Misses error) ∧
      (∀ error, ¬ (read rule depth feed).Misses error) ∧
      firstOf own (rules.map read) depth feed = read rule depth feed) ∨
    ∃ errors, List.Forall₂ (fun rule error => (read rule depth feed).Misses error) rules errors ∧
      firstOf own (rules.map read) depth feed = .failure (errors.foldl ParseError.furthest own) := by
  induction rules generalizing own with
  | nil => exact .inr ⟨[], .nil, rfl⟩
  | cons rule others ih =>
    have decides (reading : Reading α) (same : read rule depth feed = reading)
        (last : ∀ error, ¬ reading.Misses error)
        (chosen : firstOf own ((rule :: others).map read) depth feed = reading) :
        ∃ earlier rule' later, rule :: others = earlier ++ rule' :: later ∧
          (∀ other ∈ earlier, ∃ error, (read other depth feed).Misses error) ∧
          (∀ error, ¬ (read rule' depth feed).Misses error) ∧
          firstOf own ((rule :: others).map read) depth feed = read rule' depth feed :=
      ⟨[], rule, others, rfl, List.forall_mem_nil _, same.symm ▸ last, chosen.trans same.symm⟩
    cases reading : read rule depth feed with
    | value tree rest =>
      refine .inl (decides _ reading (by rintro _ ⟨-, ⟨⟩⟩) ?_)
      rw [List.map_cons, firstOf, reading, Reading.resolve]
    | exhausted =>
      refine .inl (decides _ reading (by rintro _ ⟨-, ⟨⟩⟩) ?_)
      rw [List.map_cons, firstOf, reading, Reading.resolve]
    | failure error =>
      cases fatal : error.isFatal with
      | true =>
        refine .inl (decides _ reading ?_ ?_)
        · rintro other ⟨soft, same⟩
          cases same
          exact Bool.false_ne_true (soft.symm.trans fatal)
        · rw [List.map_cons, firstOf, reading, Reading.resolve, if_pos fatal]
      | false =>
        have next : firstOf own ((rule :: others).map read) depth feed =
            firstOf (own.furthest error) (others.map read) depth feed := by
          rw [List.map_cons, firstOf, reading, Reading.resolve, fatal]
          rfl
        rw [next]
        rcases ih (own.furthest error) with
          ⟨earlier, chosen, later, rfl, missed, last, same⟩ | ⟨errors, missed, same⟩
        · refine .inl ⟨rule :: earlier, chosen, later, rfl, ?_, last, same⟩
          intro other found
          rcases List.mem_cons.1 found with rfl | inner
          · exact ⟨error, fatal, reading⟩
          · exact missed other inner
        · exact .inr ⟨error :: errors, .cons ⟨fatal, reading⟩ missed, same⟩

namespace Rule

variable {grammar : Grammar Γ} {rule : Rule Γ α} {text : List Char} {state after : ParserState}
  {outcome : Except ParseError α}

/-- A choice ends as its first deciding alternative does, or with all failures weighed. -/
private theorem choice_cases {message : String} {alternatives : Alternatives Γ α} {next : Token}
    (reachable : state.Reachable text) (looked : state.cursor.peek.1 = .ok next)
    (ends : (Rule.choice message alternatives).Ends grammar state outcome after) :
    (∃ earlier rule later, alternatives.rules = earlier ++ rule :: later ∧
      (∀ other ∈ earlier, ∃ error, other.Misses grammar state error) ∧ ¬ Recoverable outcome ∧
      ∃ final, rule.Ends grammar state outcome final ∧
        after.cursor.pointer = final.cursor.pointer) ∨
    ∃ errors, List.Forall₂ (Misses grammar state) alternatives.rules errors ∧
      outcome = .error (errors.foldl ParseError.furthest (.mismatch message next.start)) := by
  have shown := reachable.shows
  generalize Feed.next^[state.cursor.pointer] (.ofText text) = feed at shown
  obtain ⟨budget, left, read, moved⟩ := report_of_ends shown ends
  cases budget with
  | zero => cases read
  | succ budget =>
    rw [reader, Reader.choice, ← shown.peek, looked, Alternatives.readers_eq] at read
    rcases Reader.firstOf_cases (fun rule => rule.reader grammar budget) state.depth feed
      alternatives.rules (.mismatch message next.start) with
      ⟨earlier, rule, later, split, missed, last, same⟩ | ⟨errors, missed, same⟩
    · simp only [same] at read
      obtain ⟨final, ends'⟩ := ends_of_report shown read
      obtain ⟨_, left', read', moved'⟩ := report_of_ends shown ends'
      cases report_unique read read'
      refine .inl ⟨earlier, rule, later, split, ?_, ?_, final, ends', by omega⟩
      · intro other found
        obtain ⟨error, missing⟩ := missed other found
        exact ⟨error, misses_of_reading shown missing⟩
      · rintro ⟨error, rfl, soft⟩
        cases reading : rule.reader grammar budget state.depth feed with
        | value tree rest => rw [reading] at read; cases read
        | exhausted => rw [reading] at read; cases read
        | failure other =>
          rw [reading] at read
          cases read
          exact last error ⟨soft, reading⟩
    · simp only [same] at read
      cases read
      exact .inr ⟨errors, missed.imp fun _ _ missing => misses_of_reading shown missing, rfl⟩

/-- Of two places in a list one is in front of the other, or they are the same. -/
private theorem split_cases {first second : Rule Γ α} {earlier earlier' later later' : List (Rule Γ α)}
    (same : earlier ++ first :: later = earlier' ++ second :: later') :
    second ∈ earlier ∨ first ∈ earlier' ∨ first = second := by
  rcases List.append_eq_append_iff.1 same with ⟨between, rfl, rest⟩ | ⟨between, rfl, rest⟩
  · cases between with
    | nil => cases rest; exact .inr (.inr rfl)
    | cons head between => cases rest; exact .inr (.inl (by simp))
  · cases between with
    | nil => cases rest; exact .inr (.inr rfl)
    | cons head between => cases rest; exact .inl (by simp)

/-- A rule that has been missed does not decide. -/
private theorem Misses.recoverable {error : ParseError} {final : ParserState}
    (reachable : state.Reachable text) (missed : rule.Misses grammar state error)
    (ends : rule.Ends grammar state outcome final) : Recoverable outcome := by
  obtain ⟨soft, other, failed⟩ := missed
  exact ⟨error, (ends_unique reachable reachable rfl rfl failed ends).1, soft⟩

private theorem exists_of_forall₂ {γ δ : Type _} {related : γ → δ → Prop} {firsts : List γ}
    {seconds : List δ} (all : List.Forall₂ related firsts seconds) {first : γ}
    (found : first ∈ firsts) : ∃ second, related first second := by
  induction all with
  | nil => cases found
  | cons head _ ih =>
    rcases List.mem_cons.1 found with rfl | later
    · exact ⟨_, head⟩
    · exact ih later

/-- A choice is its first alternative that decides. -/
private theorem choice_first {message : String} {alternatives : Alternatives Γ α} {next : Token}
    (reachable : state.Reachable text) (looked : state.cursor.peek.1 = .ok next)
    (ends : (Rule.choice message alternatives).Ends grammar state outcome after)
    {earlier later : List (Rule Γ α)} (split : alternatives.rules = earlier ++ rule :: later)
    (skipped : ∀ other ∈ earlier, other.GivenUp grammar state) {result : Except ParseError α}
    {final : ParserState} (decides : rule.Ends grammar state result final)
    (last : ¬ Recoverable result) :
    outcome = result ∧ after.cursor.pointer = final.cursor.pointer := by
  rcases choice_cases reachable looked ends with
    ⟨earlier', chosen, later', split', missed, settled, final', ends', stopped⟩ | ⟨errors, missed, -⟩
  · rcases split_cases (split.symm.trans split') with inside | inside | rfl
    · exact absurd (skipped chosen inside outcome final' ends') settled
    · obtain ⟨error, missing⟩ := missed rule inside
      exact absurd (missing.recoverable reachable decides) last
    · obtain ⟨same, moved⟩ := ends_unique reachable reachable rfl rfl decides ends'
      exact ⟨same, stopped.trans moved⟩
  · have found : rule ∈ alternatives.rules := by simp [split]
    obtain ⟨error, missing⟩ := exists_of_forall₂ missed found
    exact absurd (missing.recoverable reachable decides) last

/-- Failures begin where the rule begins, or at a greater offset. -/
private theorem Misses.onward {next : Token} {error : ParseError} (reachable : state.Reachable text)
    (looked : state.cursor.peek.1 = .ok next) (missed : rule.Misses grammar state error) :
    error.position = next.start ∨ next.start.offset < error.position.offset := by
  obtain ⟨-, final, ends⟩ := missed
  obtain ⟨rest, left, front⟩ := failure_fronts reachable ends
  rw [front, ← Feed.place_of_look (reachable.shows.peek.symm.trans looked)]
  exact ((Feed.ordered_ofText text).next_iterate state.cursor.pointer).place_le left

/-- If all alternatives fail and no failure is fatal, the first to get furthest is reported. -/
private theorem choice_furthest {message : String} {alternatives : Alternatives Γ α} {next : Token}
    (reachable : state.Reachable text) (looked : state.cursor.peek.1 = .ok next)
    (ends : (Rule.choice message alternatives).Ends grammar state outcome after)
    {errors : List ParseError}
    (missed : List.Forall₂ (Misses grammar state) alternatives.rules errors) :
    ∃ error, outcome = .error error ∧
      ParseError.FirstFurthest (.mismatch message next.start :: errors) error ∧
      (error = .mismatch message next.start ↔ ∀ other ∈ errors, other.position = next.start) := by
  have one : Relator.RightUnique (Misses grammar state : Rule Γ α → ParseError → Prop) := by
    rintro rule error error' ⟨-, final, failed⟩ ⟨-, final', failed'⟩
    exact Except.error.inj (ends_unique reachable reachable rfl rfl failed' failed).1
  rcases choice_cases reachable looked ends with
    ⟨earlier, chosen, later, split, -, settled, final, ends', -⟩ | ⟨errors', missed', rfl⟩
  · have found : chosen ∈ alternatives.rules := by simp [split]
    obtain ⟨error, missing⟩ := exists_of_forall₂ missed found
    exact absurd (missing.recoverable reachable ends') settled
  · cases List.right_unique_forall₂' one missed missed'
    have winner := ParseError.firstFurthest_foldl (.mismatch message next.start) errors
    refine ⟨_, rfl, winner, winner.eq_head_iff fun other found => ?_⟩
    obtain ⟨rule, missing⟩ := exists_of_forall₂ missed.flip found
    exact Misses.onward reachable looked missing

/-- A choice selects the first alternative that decides, and else the first failure that got
furthest, if it ends at all and what comes next can be scanned. Wherever a rule fails, its
failure stands at an element of the text that is not in front of where the rule began. -/
theorem choice_selects (grammar : Grammar Γ) (message : String) (alternatives : Alternatives Γ α)
    {text : List Char} {state after : ParserState} {next : Token} {outcome : Except ParseError α}
    (reachable : state.Reachable text) (looked : state.cursor.peek.1 = .ok next)
    (ends : (Rule.choice message alternatives).Ends grammar state outcome after) :
    Selects grammar alternatives.rules (.mismatch message next.start) state outcome after ∧
    ∀ {β : Type} (rule : Rule Γ β) (state after : ParserState) (error : ParseError),
      state.Reachable text → rule.Ends grammar state (.error error) after →
      ∃ ordinal element, state.cursor.pointer ≤ ordinal ∧
        (TokenStream.ofText text).lasting? ordinal = some element ∧
        error.position = TokenStream.startOf element := by
  constructor
  · refine ⟨?_, fun errors missed => choice_furthest reachable looked ends missed, ?_⟩
    · intro earlier rule later result final split skipped decides last
      exact choice_first reachable looked ends split skipped decides last
    · rcases choice_cases reachable looked ends with
        ⟨earlier, rule, later, split, missed, settled, final, ends', -⟩ | ⟨errors, missed, -⟩
      · exact .inl ⟨earlier, rule, later, split, missed, outcome, final, ends', settled⟩
      · exact .inr ⟨errors, missed⟩
  · intro β rule state after error reached failed
    obtain ⟨rest, ⟨count, rfl⟩, front⟩ := failure_fronts reached failed
    rw [← Function.iterate_add_apply] at front
    have element := Feed.lasting?_stream (.ofText text) (count + state.cursor.pointer)
    rw [Feed.stream_ofText] at element
    exact ⟨_, _, Nat.le_add_left .., element, by rw [front, Feed.startOf_look]⟩

/-- A choice whose first alternative gets to the second token of the text, on a cursor that
has been there before. Its failure is reported in place of the choice's own message. -/
theorem choice_selects_pair :
    let grammar : Grammar (fun _ : Unit => Token) := fun _ => .token .identifier
    let alternatives : Alternatives (fun _ : Unit => Token) Token :=
      .orElse (.map Prod.fst (.pair (.ref ()) (.token .comma))) (.last (.token .string))
    let state : ParserState :=
      ⟨(Cursor.ofText ['a', ' ', 'b']).after [.advance, .peek, .restore 0], 3⟩
    let error : ParseError := .mismatch ("Expected " ++ TokenKind.comma.description) ⟨2, 1, 3⟩
    ∃ after, (Rule.choice "item" alternatives).Ends grammar state (.error error) after ∧
      Selects grammar alternatives.rules (.mismatch "item" .start) state (.error error) after ∧
      ∃ ordinal element, state.cursor.pointer ≤ ordinal ∧
        (TokenStream.ofText ['a', ' ', 'b']).lasting? ordinal = some element ∧
        error.position = TokenStream.startOf element := by
  intro grammar alternatives state error
  have ends : (Rule.choice "item" alternatives).Ends grammar state (.error error) state := ⟨6, rfl⟩
  have reachable : state.Reachable ['a', ' ', 'b'] := ⟨_, rfl⟩
  have looked : state.cursor.peek.1 = .ok ⟨.identifier, .ofList ['a'], .start, ⟨1, 1, 2⟩⟩ := rfl
  have ⟨selects, stands⟩ := choice_selects grammar "item" alternatives reachable looked ends
  exact ⟨state, ends, selects, stands _ state state error reachable ends⟩

end Rule

end SchemaLang
