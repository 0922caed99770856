import SchemaLang.Proofs.Foresight
import SchemaLang.Proofs.Progress
import SchemaLang.Proofs.RunLaws

/-! Runs leave nothing behind. A rule that fails has its cursor where it was, one that
matches has it there or further on, and both close the levels they open. Earlier runs
may have cached any number of tokens, and none of this shows in a later one: what a rule
makes of a text depends on where it begins and how deep, and on nothing else. -/
namespace SchemaLang

variable {κ : Type} {Γ : κ → Type} {α : Type}

/-- A state that work on a text can lead to: some session has taken the cursor there,
and any number of levels is open. -/
def ParserState.Reachable (text : List Char) (state : ParserState) : Prop :=
  ∃ requests, state.cursor = (Cursor.ofText text).after requests

/-- A rule run from a state ends, if it is given steps enough, with an outcome and in
another state. -/
def Rule.Ends (grammar : Grammar Γ) (rule : Rule Γ α) (state : ParserState)
    (outcome : Except ParseError α) (after : ParserState) : Prop :=
  ∃ budget, rule.parse grammar budget state = match outcome with
    | .ok value => .ok value after
    | .error error => .error (.failed error) after

/-- What a run that ends may do to its state, and what it may depend on. -/
structure Rule.Contained (grammar : Grammar Γ) (rule : Rule Γ α) (text : List Char)
    (state : ParserState) (outcome : Except ParseError α) (after : ParserState) : Prop where
  /-- A failure is back where it began, a match has not gone back. -/
  moved : match outcome with
    | .ok _ => state.cursor.pointer ≤ after.cursor.pointer
    | .error _ => after.cursor.pointer = state.cursor.pointer
  /-- All levels are closed that were opened. -/
  depth : after.depth = state.depth
  /-- What is left is again a state that work on the text leads to. -/
  reachable : after.Reachable text
  /-- From every state at the same ordinal and depth the run ends in the same way. -/
  regardless : ∀ other : ParserState, other.Reachable text →
    other.cursor.pointer = state.cursor.pointer → other.depth = state.depth →
    (∃ final, rule.Ends grammar other outcome final) ∧
    ∀ outcome' final, rule.Ends grammar other outcome' final →
      outcome' = outcome ∧ final.cursor.pointer = after.cursor.pointer

/-- A cursor that is reached shows the part of the text that its ordinal stands for. -/
theorem ParserState.Reachable.shows {text : List Char} {state : ParserState}
    (reachable : state.Reachable text) :
    state.cursor.Shows (Feed.next^[state.cursor.pointer] (.ofText text)) := by
  obtain ⟨requests, same⟩ := reachable
  rw [same]
  exact (Cursor.reads_session text requests).here

/-- A run takes a reachable state to a reachable one and closes the levels it opens. -/
theorem Rule.final_parse (grammar : Grammar Γ) (budget : Nat) (rule : Rule Γ α)
    {text : List Char} {state : ParserState} (reachable : state.Reachable text) :
    (Traced.final (rule.parse grammar budget state)).Reachable text ∧
      (Traced.final (rule.parse grammar budget state)).depth = state.depth := by
  have orderly := rule.trace_orderly grammar (fun _ => True) (fun _ _ _ _ _ => trivial)
    (fun _ _ _ _ => trivial) budget state
  obtain ⟨requests, here⟩ := reachable
  obtain ⟨further, -, stopped⟩ := orderly.asked
  have depth := orderly.depth
  rw [rule.trace_mirrors grammar budget state] at stopped depth
  exact ⟨⟨requests ++ further, by rw [stopped, here, Cursor.after_append]⟩, depth⟩

/-! ## Outcomes -/

/-- What can be seen of a reading from outside: its outcome, and how much is left. -/
def Reading.report (feed : Feed) : Reading α → Option (Except ParseError α × Nat)
  | value tree rest => some (.ok tree, rest.size)
  | failure error => some (.error error, feed.size)
  | exhausted => none

namespace Rule

variable {grammar : Grammar Γ} {rule : Rule Γ α} {depth : Nat} {feed : Feed}

/-- A larger budget changes nothing about a reading that has ended. -/
theorem report_mono {budget more : Nat} (enough : budget ≤ more)
    {reported : Except ParseError α × Nat}
    (read : (rule.reader grammar budget depth feed).report feed = some reported) :
    (rule.reader grammar more depth feed).report feed = some reported := by
  have carries := fun cut => rule.reader_carries grammar enough depth (Feed.cut_refl cut feed)
  cases reading : rule.reader grammar budget depth feed with
  | value tree rest =>
    rw [reading] at read carries
    cases read
    obtain ⟨behind, whole, -, same⟩ := carries ⟨.start, 'a'⟩
    rw [whole, Reading.report, show behind.size = rest.size by omega]
  | failure error =>
    rw [reading] at read carries
    cases read
    have whole : rule.reader grammar more depth feed = .failure error :=
      Reading.lasts_of_carries carries
    rw [whole, Reading.report]
  | exhausted => rw [reading] at read; cases read

theorem report_unique {budget other : Nat} {reported reported' : Except ParseError α × Nat}
    (read : (rule.reader grammar budget depth feed).report feed = some reported)
    (read' : (rule.reader grammar other depth feed).report feed = some reported') :
    reported' = reported := by
  have same := report_mono (Nat.le_max_left budget other) read
  have same' := report_mono (Nat.le_max_right budget other) read'
  exact Option.some.inj (same'.symm.trans same)

/-- A match leaves at most what it found, and a failure leaves all of it. -/
theorem left_of_report {budget left : Nat} {outcome : Except ParseError α}
    (read : (rule.reader grammar budget depth feed).report feed = some (outcome, left)) :
    left ≤ feed.size ∧ ∀ error, outcome = .error error → left = feed.size := by
  have taken := rule.reader_forward grammar budget depth feed
  cases reading : rule.reader grammar budget depth feed with
  | value tree rest =>
    rw [reading] at read taken
    cases read
    exact ⟨taken, by rintro _ ⟨⟩⟩
  | failure error =>
    rw [reading] at read
    cases read
    exact ⟨Nat.le_refl _, fun _ _ => rfl⟩
  | exhausted => rw [reading] at read; cases read

variable {state after : ParserState} {outcome : Except ParseError α}

/-- A run that ends is reported by the reading, which also says where the cursor is. -/
theorem report_of_ends (shown : state.cursor.Shows feed)
    (ends : rule.Ends grammar state outcome after) :
    ∃ budget left,
      (rule.reader grammar budget state.depth feed).report feed = some (outcome, left) ∧
      after.cursor.pointer + left = state.cursor.pointer + feed.size := by
  obtain ⟨budget, ran⟩ := ends
  have ⟨follows, returns⟩ := rule.parse_rewinds grammar budget
  have tracked := follows state feed shown
  rw [ran] at tracked
  cases outcome with
  | ok value =>
    obtain ⟨rest, read, reached⟩ := tracked
    exact ⟨budget, rest.size, by rw [read, Reading.report], reached.moved⟩
  | error error =>
    refine ⟨budget, feed.size, by rw [tracked.1, Reading.report], ?_⟩
    exact (returns state feed error after shown ran).moved

/-- A reading that has ended is that of a run that ends. -/
theorem ends_of_report (shown : state.cursor.Shows feed) {budget left : Nat}
    (read : (rule.reader grammar budget state.depth feed).report feed = some (outcome, left)) :
    ∃ final, rule.Ends grammar state outcome final := by
  have tracked := (rule.parse_rewinds grammar budget).follows state feed shown
  cases ran : rule.parse grammar budget state with
  | ok value final =>
    rw [ran] at tracked
    obtain ⟨rest, same, -⟩ := tracked
    rw [same] at read
    cases read
    exact ⟨final, budget, ran⟩
  | error halt final =>
    rw [ran] at tracked
    cases halt with
    | failed error =>
      rw [tracked.1] at read
      cases read
      exact ⟨final, budget, ran⟩
    | exhausted =>
      rw [show rule.reader grammar budget state.depth feed = .exhausted from tracked] at read
      cases read
    | misplaced fault => exact tracked.elim

/-- No run asks its cursor to go where it has not been. -/
theorem parse_placed (grammar : Grammar Γ) (rule : Rule Γ α) {text : List Char}
    {state : ParserState} (reachable : state.Reachable text) (budget : Nat) (fault : RestoreFault)
    (after : ParserState) : rule.parse grammar budget state ≠ .error (.misplaced fault) after := by
  intro ran
  have tracked := (rule.parse_rewinds grammar budget).follows state _ reachable.shows
  rw [ran] at tracked
  exact tracked

/-- No run asks to go where it has not been, and every run that ends is contained. -/
theorem parse_contained (grammar : Grammar Γ) (rule : Rule Γ α) {text : List Char}
    {state : ParserState} (reachable : state.Reachable text) :
    (∀ budget fault after, rule.parse grammar budget state ≠ .error (.misplaced fault) after) ∧
    ∀ outcome after, rule.Ends grammar state outcome after →
      rule.Contained grammar text state outcome after := by
  refine ⟨rule.parse_placed grammar reachable, fun outcome after ends => ?_⟩
  obtain ⟨budget, left, read, moved⟩ := report_of_ends reachable.shows ends
  obtain ⟨steps, ran⟩ := ends
  have stopped := rule.final_parse grammar steps reachable
  have stop : Traced.final (rule.parse grammar steps state) = after := by
    rw [ran]
    cases outcome <;> rfl
  rw [stop] at stopped
  refine ⟨?_, stopped.2, stopped.1, fun other met same deep => ?_⟩
  · obtain ⟨fewer, all⟩ := left_of_report read
    cases outcome with
    | ok value =>
      show state.cursor.pointer ≤ after.cursor.pointer
      omega
    | error error =>
      have whole := all error rfl
      show after.cursor.pointer = state.cursor.pointer
      omega
  · -- the other run is read from the same feed, whatever its cursor holds
    have there := met.shows
    rw [same] at there
    rw [← deep] at read
    refine ⟨ends_of_report there read, fun outcome' final ends' => ?_⟩
    obtain ⟨_, left', read', moved'⟩ := report_of_ends there ends'
    cases report_unique read read'
    exact ⟨rfl, by omega⟩

/-- A pair whose second part is missing, run on a cursor that has been further on. -/
theorem parse_contained_pair :
    let rule : Rule (fun _ : Unit => Token) (Token × Token) := .pair (.ref ()) (.token .comma)
    let state : ParserState :=
      ⟨(Cursor.ofText ['a', ' ', 'b']).after [.advance, .peek, .restore 0], 3⟩
    let error : ParseError := .mismatch ("Expected " ++ TokenKind.comma.description) ⟨2, 1, 3⟩
    ∃ after, rule.Ends (fun _ => .token .identifier) state (.error error) after ∧
      rule.Contained (fun _ => .token .identifier) ['a', ' ', 'b'] state (.error error) after := by
  intro rule state error
  have ends : rule.Ends (fun _ => .token .identifier) state (.error error) state := ⟨3, rfl⟩
  exact ⟨state, ends, (parse_contained _ rule ⟨_, rfl⟩).2 _ _ ends⟩

end Rule

end SchemaLang
