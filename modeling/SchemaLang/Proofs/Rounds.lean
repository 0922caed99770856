import SchemaLang.Proofs.Counting

/-! What repetitions read. A repetition goes through rounds of its part, each beginning where
the one before ended, and stops for a reason that can be told from where it stopped: its
part fails there, or the last round took nothing, or the closing token comes next. It does
not stop before, and a separator without a part behind it is not passed. If its part always
comes to an end, so does the repetition, as long as it gives up behind a round that took
nothing. -/
namespace SchemaLang

variable {κ : Type} {Γ : κ → Type} {α β : Type}

namespace Rule

/-- A rule that comes to an end from every state that work on a text can lead to. -/
def Total (grammar : Grammar Γ) (text : List Char) (rule : Rule Γ α) : Prop :=
  ∀ state : ParserState, state.Reachable text →
    ∃ outcome after, rule.Ends grammar state outcome after

/-- Matches of a rule, each beginning where the one before ended: where they begin, their
values, and where the last one ends. -/
inductive Rounds (grammar : Grammar Γ) (rule : Rule Γ α) :
    ParserState → List (ParserState × α) → ParserState → Prop where
  | none (state : ParserState) : Rounds grammar rule state [] state
  | next {state middle stop : ParserState} {value : α} {others : List (ParserState × α)}
      (ends : rule.Ends grammar state (.ok value) middle)
      (rounds : Rounds grammar rule middle others stop) :
      Rounds grammar rule state ((state, value) :: others) stop

/-- What a rule does as often as it matches. -/
structure Repeats (grammar : Grammar Γ) (text : List Char) (rule : Rule Γ α)
    (state : ParserState) : Prop where
  /-- The repetition comes to an end. -/
  ends : ∃ outcome after, (Rule.zeroOrMore rule).Ends grammar state outcome after
  /-- With whatever budget, the rule matches at most once for each token that is left, and
  once more. -/
  bounded : ∀ budget, ((Traced.watch (rule.parse grammar budget)).zeroOrMore budget).Counts
    ((Rule.zeroOrMore rule).apply grammar (budget + 1)) (state.left text + 1) state
  /-- A repetition that matches has stopped where the rule fails, or behind a round that
  took nothing. -/
  greedy : ∀ values after, (Rule.zeroOrMore rule).Ends grammar state (.ok values) after →
    ∃ rounds last, rule.Rounds grammar state rounds last ∧ values = rounds.map Prod.snd ∧
      after.cursor.pointer = last.cursor.pointer ∧
      ((∃ error, rule.Misses grammar after error) ∨
        ∃ round, rounds.getLast? = some round ∧
          round.1.cursor.pointer = last.cursor.pointer)

/-- What a rule does again and again until a closing token. -/
structure Closes (grammar : Grammar Γ) (text : List Char) (rule : Rule Γ α) (stop : TokenKind)
    (state : ParserState) : Prop where
  /-- The repetition comes to an end. -/
  ends : ∃ outcome after, (Rule.takeUntil rule stop).Ends grammar state outcome after
  /-- With whatever budget, the rule matches at most once for each token that is left, and
  once more. -/
  bounded : ∀ budget, ((Traced.watch (rule.parse grammar budget)).takeUntil stop budget).Counts
    ((Rule.takeUntil rule stop).apply grammar (budget + 1)) (state.left text + 1) state
  /-- A repetition that matches has stopped behind the first closing token that came next
  after a round, or on it if it is the end of input. -/
  first : ∀ values close after,
    (Rule.takeUntil rule stop).Ends grammar state (.ok (values, close)) after →
    ∃ rounds last, rule.Rounds grammar state rounds last ∧ values = rounds.map Prod.snd ∧
      (∀ round ∈ rounds, ∃ token, round.1.cursor.peek.1 = .ok token ∧ token.kind ≠ stop) ∧
      last.cursor.peek.1 = .ok close ∧ close.kind = stop ∧
      after.cursor.pointer =
        if stop = .endOfInput then last.cursor.pointer else last.cursor.pointer + 1

/-- What a list that matches consists of. It has stopped behind its last part, and no
separator with a part behind it comes next. -/
def Lists (grammar : Grammar Γ) (rule : Rule Γ α) (separator : Rule Γ β) (state : ParserState) :
    Prop :=
  ∀ values after, (Rule.separated rule separator).Ends grammar state (.ok values) after →
    (values = [] ∧ after.cursor.pointer = state.cursor.pointer ∧
      ∃ error, rule.Misses grammar after error) ∨
    ∃ first begun rounds last, rule.Ends grammar state (.ok first) begun ∧
      (pair separator rule).Rounds grammar begun rounds last ∧
      values = first :: rounds.map (·.2.2) ∧
      after.cursor.pointer = last.cursor.pointer ∧
      ∃ error, (pair separator rule).Misses grammar after error

end Rule

/-! ## Rules that come to an end -/

namespace Feed

variable {feed rest : Feed}

theorem Leaves.size_le (left : feed.Leaves rest) : rest.size ≤ feed.size := by
  obtain ⟨count, rfl⟩ := left
  rw [size_next_iterate]
  exact Nat.sub_le ..

/-- In front of the end of input there is nothing to take. -/
theorem next_of_end {last : Token} (looked : feed.look = .ok last)
    (ended : last.kind = .endOfInput) : feed.next = feed := by
  cases feed with
  | token first proper others =>
    cases looked
    exact absurd ended proper
  | finish | fault => rfl

theorem leaves_token {first : Token} {proper : first.kind ≠ .endOfInput} {others : Feed}
    (left : (token first proper others).Leaves rest) :
    rest = token first proper others ∨ others.Leaves rest := by
  obtain ⟨count, rfl⟩ := left
  cases count with
  | zero => exact .inl rfl
  | succ count => exact .inr ⟨count, Function.iterate_succ_apply ..⟩

/-- What is possible with some budget from everything that may be left of a feed is
possible with one budget from all of it. -/
theorem exists_budget {holds : Nat → Feed → Prop}
    (mono : ∀ {budget more rest}, budget ≤ more → holds budget rest → holds more rest)
    (each : ∀ rest, feed.Leaves rest → ∃ budget, holds budget rest) :
    ∃ budget, ∀ rest, feed.Leaves rest → holds budget rest := by
  induction feed with
  | token first proper others ih =>
    obtain ⟨budget, here⟩ := each _ (leaves_refl _)
    obtain ⟨more, behind⟩ := ih fun rest left => each rest ((leaves_next _).trans left)
    refine ⟨max budget more, fun rest left => ?_⟩
    rcases leaves_token left with rfl | later
    · exact mono (Nat.le_max_left ..) here
    · exact mono (Nat.le_max_right ..) (behind rest later)
  | finish place =>
    obtain ⟨budget, here⟩ := each _ (leaves_refl _)
    refine ⟨budget, ?_⟩
    rintro _ ⟨count, rfl⟩
    exact (next_iterate_finish place count).symm ▸ here
  | fault failure =>
    obtain ⟨budget, here⟩ := each _ (leaves_refl _)
    refine ⟨budget, ?_⟩
    rintro _ ⟨count, rfl⟩
    exact (next_iterate_fault failure count).symm ▸ here

end Feed

/-- Whatever may be left of a text is in front of some state. -/
theorem ParserState.exists_reachable {text : List Char} {rest : Feed} (depth : Nat)
    (left : (Feed.ofText text).Leaves rest) :
    ∃ state : ParserState, state.Reachable text ∧ state.depth = depth ∧
      state.cursor.Shows rest := by
  obtain ⟨count, rfl⟩ := left
  induction count with
  | zero => exact ⟨⟨.ofText text, depth⟩, ⟨[], rfl⟩, rfl, Cursor.shows_ofText text⟩
  | succ count ih =>
    obtain ⟨state, ⟨requests, here⟩, deep, shown⟩ := ih
    obtain ⟨after, moved, shownAfter, -⟩ := Cursor.advance_shows shown
    refine ⟨⟨after, depth⟩, ⟨requests ++ [.advance], ?_⟩, rfl, ?_⟩
    · rw [Cursor.after_append, ← here]
      show after = state.cursor.advance.2
      rw [moved]
    · rw [Function.iterate_succ_apply']
      exact shownAfter

/-- A reader that does not run out of steps on whatever may be left of a feed. -/
def Reader.EndsOn (reader : Reader α) (depth : Nat) (feed : Feed) : Prop :=
  ∀ rest, feed.Leaves rest → (reader depth rest).Ended

namespace Rule

variable {grammar : Grammar Γ} {rule : Rule Γ α} {text : List Char} {depth : Nat} {feed : Feed}

theorem ended_mono {budget more : Nat} (enough : budget ≤ more)
    (ended : (rule.reader grammar budget depth feed).Ended) :
    (rule.reader grammar more depth feed).Ended := by
  have lasts := Reading.lasts_of_carries fun cut =>
    rule.reader_carries grammar enough depth (Feed.cut_refl cut feed)
  cases reading : rule.reader grammar budget depth feed with
  | value tree rest =>
    rw [reading] at lasts
    obtain ⟨behind, same⟩ := lasts
    rw [same]
    trivial
  | failure error =>
    rw [reading] at lasts
    rw [show rule.reader grammar more depth feed = .failure error from lasts]
    trivial
  | exhausted => rw [reading] at ended; exact ended.elim

/-- A rule that comes to an end from every state does so with one budget everywhere. -/
theorem Total.exists_budget (total : rule.Total grammar text) (depth : Nat) :
    ∃ budget, (rule.reader grammar budget).EndsOn depth (.ofText text) := by
  refine Feed.exists_budget (fun enough ended => ended_mono enough ended) fun rest left => ?_
  obtain ⟨state, reachable, rfl, shown⟩ := ParserState.exists_reachable depth left
  obtain ⟨outcome, after, ends⟩ := total state reachable
  obtain ⟨budget, size, read, -⟩ := report_of_ends shown ends
  refine ⟨budget, ?_⟩
  cases reading : rule.reader grammar budget state.depth rest with
  | value | failure => trivial
  | exhausted => rw [reading] at read; cases read

end Rule

/-! ## Loops that come to an end -/

namespace Reading

variable {reading : Reading α}

theorem Ended.map (ended : reading.Ended) (change : α → β) : (reading.map change).Ended := by
  cases reading with
  | value | failure => trivial
  | exhausted => exact ended.elim

theorem Ended.andThen (ended : reading.Ended) {next : α → Feed → Reading β}
    (goesOn : ∀ tree rest, reading = .value tree rest → (next tree rest).Ended) :
    (reading.andThen next).Ended := by
  cases reading with
  | value tree rest => exact goesOn tree rest rfl
  | failure => trivial
  | exhausted => exact ended.elim

theorem Ended.resolve (ended : reading.Ended) {found : α → Feed → Reading β}
    {missing : ParseError → Reading β}
    (goesOn : ∀ tree rest, reading = .value tree rest → (found tree rest).Ended)
    (missed : ∀ error, (missing error).Ended) : (reading.resolve found missing).Ended := by
  cases reading with
  | value tree rest => exact goesOn tree rest rfl
  | failure error =>
    simp only [Reading.resolve]
    split
    · trivial
    · exact missed error
  | exhausted => exact ended.elim

end Reading

namespace Reader

variable {reader : Reader α} {depth : Nat} {feed rest : Feed}

/-- What a reader leaves is left of the feed. -/
theorem Onward.leaves (onward : reader.Onward) {value : α}
    (read : reader depth feed = .value value rest) : feed.Leaves rest := by
  have left := onward depth feed
  rw [read] at left
  exact left

theorem EndsOn.here (ends : reader.EndsOn depth feed) : (reader depth feed).Ended :=
  ends feed feed.leaves_refl

theorem EndsOn.later (ends : reader.EndsOn depth feed) (left : feed.Leaves rest) :
    reader.EndsOn depth rest :=
  fun final further => ends final (left.trans further)

/-- With more rounds than there are tokens, a repetition comes to an end. -/
theorem zeroOrMore_ended (onward : reader.Onward) (ends : reader.EndsOn depth feed) {rounds : Nat}
    (enough : feed.size < rounds) : (zeroOrMore reader rounds depth feed).Ended := by
  induction rounds generalizing feed with
  | zero => cases enough
  | succ rounds ih =>
    refine ends.here.resolve (fun value rest read => ?_) fun _ => trivial
    split
    · trivial
    · rename_i moved
      have left := onward.leaves read
      have short := left.size_le
      exact (ih (ends.later left) (by omega)).map _

theorem takeUntil_ended (onward : reader.Onward) (ends : reader.EndsOn depth feed)
    (stop : TokenKind) {rounds : Nat} (enough : feed.size < rounds) :
    (takeUntil reader stop rounds depth feed).Ended := by
  induction rounds generalizing feed with
  | zero => cases enough
  | succ rounds ih =>
    unfold takeUntil
    cases feed.look with
    | error failure => trivial
    | ok token =>
      dsimp only
      split
      · trivial
      · refine ends.here.andThen fun value rest read => ?_
        split
        · trivial
        · rename_i moved
          have left := onward.leaves read
          have short := left.size_le
          exact (ih (ends.later left) (by omega)).map _

end Reader

/-! ## Rounds -/

namespace Reading

variable {reading : Reading α} {final : Feed} {result : β}

theorem map_eq_value {change : α → β} (read : reading.map change = .value result final) :
    ∃ tree, reading = .value tree final ∧ result = change tree := by
  cases reading with
  | value tree rest =>
    cases read
    exact ⟨tree, rfl, rfl⟩
  | failure | exhausted => cases read

/-- A failure is not one of the value that was changed. -/
theorem Misses.of_map {change : α → β} {error : ParseError}
    (missed : (reading.map change).Misses error) : reading.Misses error := by
  obtain ⟨soft, failed⟩ := missed
  cases reading with
  | failure other =>
    cases failed
    exact ⟨soft, rfl⟩
  | value | exhausted => cases failed

theorem andThen_eq_value {next : α → Feed → Reading β}
    (read : reading.andThen next = .value result final) :
    ∃ tree rest, reading = .value tree rest ∧ next tree rest = .value result final := by
  cases reading with
  | value tree rest => exact ⟨tree, rest, rfl, read⟩
  | failure | exhausted => cases read

theorem resolve_eq_value {found : α → Feed → Reading β} {missing : ParseError → Reading β}
    (read : reading.resolve found missing = .value result final) :
    (∃ tree rest, reading = .value tree rest ∧ found tree rest = .value result final) ∨
      ∃ error, reading.Misses error ∧ missing error = .value result final := by
  cases reading with
  | value tree rest => exact .inl ⟨tree, rest, rfl, read⟩
  | failure error =>
    rw [Reading.resolve] at read
    split at read
    · cases read
    · rename_i soft
      exact .inr ⟨error, ⟨Bool.eq_false_iff.2 soft, rfl⟩, read⟩
  | exhausted => cases read

end Reading

namespace Rule

variable {grammar : Grammar Γ} {rule : Rule Γ α} {separator : Rule Γ β} {state : ParserState}
  {feed final : Feed} {budget : Nat}

/-- A repetition reads rounds of its part until there are no more. -/
theorem rounds_of_zeroOrMore {count : Nat} {values : List α} (shown : state.cursor.Shows feed)
    (read : Reader.zeroOrMore (rule.reader grammar budget) count state.depth feed =
      .value values final) :
    ∃ rounds last, rule.Rounds grammar state rounds last ∧ values = rounds.map Prod.snd ∧
      state.Reaches feed last final ∧
      ((∃ error, (rule.reader grammar budget state.depth final).Misses error) ∨
        ∃ round, rounds.getLast? = some round ∧
          round.1.cursor.pointer = last.cursor.pointer) := by
  induction count generalizing state feed values with
  | zero => cases read
  | succ count ih =>
    rcases Reading.resolve_eq_value read with ⟨value, rest, reading, next⟩ | ⟨error, missed, next⟩
    · obtain ⟨middle, ends, reached⟩ := ends_of_value shown reading
      split at next
      · rename_i idle
        cases next
        have moved := reached.moved
        have same : state.cursor.pointer = middle.cursor.pointer := by omega
        exact ⟨[(state, value)], middle, .next ends (.none middle), rfl, reached,
          .inr ⟨_, rfl, same⟩⟩
      · obtain ⟨tail, others, rfl⟩ := Reading.map_eq_value next
        rw [← reached.leads.depth] at others
        obtain ⟨rounds, last, went, rfl, further, stopped⟩ := ih reached.shows others
        rw [reached.leads.depth] at stopped
        refine ⟨(state, value) :: rounds, last, .next ends went, rfl, reached.trans further, ?_⟩
        rcases stopped with missed | ⟨round, found, idle⟩
        · exact .inl missed
        · refine .inr ⟨round, ?_, idle⟩
          rw [List.getLast?_cons, found]
          rfl
    · cases next
      exact ⟨[], state, .none state, rfl, .here shown, .inl ⟨error, missed⟩⟩

/-- A repetition up to a closing token reads rounds of its part until that token comes next. -/
theorem rounds_of_takeUntil {stop : TokenKind} {count : Nat} {values : List α} {close : Token}
    (shown : state.cursor.Shows feed)
    (read : Reader.takeUntil (rule.reader grammar budget) stop count state.depth feed =
      .value (values, close) final) :
    ∃ rounds last rest, rule.Rounds grammar state rounds last ∧ values = rounds.map Prod.snd ∧
      (∀ round ∈ rounds, ∃ token, round.1.cursor.peek.1 = .ok token ∧ token.kind ≠ stop) ∧
      state.Reaches feed last rest ∧ rest.look = .ok close ∧ close.kind = stop ∧
      final = rest.next := by
  induction count generalizing state feed values with
  | zero => cases read
  | succ count ih =>
    rw [Reader.takeUntil] at read
    cases looked : feed.look with
    | error failure => rw [looked] at read; cases read
    | ok token =>
      rw [looked] at read
      dsimp only at read
      split at read
      · rename_i closing
        cases read
        exact ⟨[], state, feed, .none state, rfl, List.forall_mem_nil _, .here shown, looked,
          closing, rfl⟩
      · rename_i going
        obtain ⟨value, rest, reading, next⟩ := Reading.andThen_eq_value read
        obtain ⟨middle, ends, reached⟩ := ends_of_value shown reading
        split at next
        · cases next
        · obtain ⟨⟨tail, last⟩, others, same⟩ := Reading.map_eq_value next
          cases same
          rw [← reached.leads.depth] at others
          obtain ⟨rounds, last, place, went, rfl, before, further, closed⟩ :=
            ih reached.shows others
          refine ⟨(state, value) :: rounds, last, place, .next ends went, rfl, ?_,
            reached.trans further, closed⟩
          intro round found
          rcases List.mem_cons.1 found with rfl | later
          · exact ⟨token, shown.peek.trans looked, going⟩
          · exact before round later

/-- A separator and a part behind it are read as the pair of them. -/
theorem reader_pair (depth : Nat) :
    ((separator.reader grammar budget depth feed).andThen fun _ rest =>
      rule.reader grammar budget depth rest) =
      ((pair separator rule).reader grammar (budget + 1) depth feed).map Prod.snd := by
  show _ = Reading.map Prod.snd ((separator.reader grammar budget depth feed).andThen
    fun value rest => (rule.reader grammar budget depth rest).map fun values => (value, values))
  cases separator.reader grammar budget depth feed with
  | value between rest =>
    simp only [Reading.andThen]
    cases rule.reader grammar budget depth rest <;> rfl
  | failure | exhausted => rfl

/-- Behind its first part a list reads rounds of a separator and a part until there are
no more. -/
theorem rounds_of_separatedTail {count : Nat} {values : List α} (shown : state.cursor.Shows feed)
    (read : Reader.separatedTail (rule.reader grammar budget) (separator.reader grammar budget)
      count state.depth feed = .value values final) :
    ∃ rounds last, (pair separator rule).Rounds grammar state rounds last ∧
      values = rounds.map (·.2.2) ∧ state.Reaches feed last final ∧
      ∃ error, ((pair separator rule).reader grammar (budget + 1) state.depth final).Misses
        error := by
  induction count generalizing state feed values with
  | zero => cases read
  | succ count ih =>
    rw [Reader.separatedTail, reader_pair] at read
    rcases Reading.resolve_eq_value read with ⟨value, rest, round, next⟩ | ⟨error, missed, next⟩
    · obtain ⟨both, reading, rfl⟩ := Reading.map_eq_value round
      obtain ⟨middle, ends, reached⟩ := ends_of_value shown reading
      obtain ⟨tail, others, rfl⟩ := Reading.map_eq_value next
      rw [← reached.leads.depth] at others
      obtain ⟨rounds, last, went, rfl, further, missed⟩ := ih reached.shows others
      rw [reached.leads.depth] at missed
      exact ⟨(state, both) :: rounds, last, .next ends went, rfl, reached.trans further, missed⟩
    · cases next
      exact ⟨[], state, .none state, rfl, .here shown, error, missed.of_map⟩

/-! ## What repetitions come to -/

variable {text : List Char} {after : ParserState} {stop : TokenKind}

/-- Two states from which the same is left stand at the same ordinal. -/
private theorem pointer_eq {last : ParserState} (reached : state.Reaches feed after final)
    (went : state.Reaches feed last final) : after.cursor.pointer = last.cursor.pointer := by
  have moved := reached.moved
  have moved' := went.moved
  omega

private theorem misses_of_reaches {error : ParseError} (reached : state.Reaches feed after final)
    (missed : (rule.reader grammar budget state.depth final).Misses error) :
    rule.Misses grammar after error := by
  rw [← reached.leads.depth] at missed
  exact misses_of_reading reached.shows missed

/-- With one budget a total rule comes to an end wherever it may be run again. -/
theorem Total.exists_steps (total : rule.Total grammar text) (state : ParserState) :
    ∃ budget, (Feed.next^[state.cursor.pointer] (.ofText text)).size < budget ∧
      (rule.reader grammar budget).EndsOn state.depth
        (Feed.next^[state.cursor.pointer] (.ofText text)) := by
  obtain ⟨budget, ends⟩ := total.exists_budget state.depth
  refine ⟨max budget ((Feed.next^[state.cursor.pointer] (.ofText text)).size + 1),
    Nat.le_max_right .., fun rest left => ?_⟩
  exact ended_mono (Nat.le_max_left ..) (ends.later ⟨_, rfl⟩ rest left)

theorem repeats (total : rule.Total grammar text) (reachable : state.Reachable text) :
    rule.Repeats grammar text state where
  ends := by
    obtain ⟨budget, enough, ended⟩ := total.exists_steps state
    have read : ((Rule.zeroOrMore rule).reader grammar (budget + 1) state.depth _).Ended :=
      Reader.zeroOrMore_ended (rule.reader_onward grammar budget) ended enough
    exact ends_of_reading reachable.shows read
  bounded budget := by
    refine ⟨(Traced.mirrors_watch _).zeroOrMore budget state, ?_⟩
    rw [← ParserState.size_left, Nat.add_comm]
    exact Traced.few_zeroOrMore (rule.parse_rewinds grammar budget)
      (rule.reader_forward grammar budget) budget reachable.shows
  greedy values after ends := by
    obtain ⟨budget, final, read, reached⟩ := value_of_ends reachable.shows ends
    cases budget with
    | zero => cases read
    | succ budget =>
      obtain ⟨rounds, last, went, same, passed, stopped⟩ :=
        rounds_of_zeroOrMore reachable.shows read
      refine ⟨rounds, last, went, same, pointer_eq reached passed, stopped.imp_left ?_⟩
      rintro ⟨error, missed⟩
      exact ⟨error, misses_of_reaches reached missed⟩

theorem closes (total : rule.Total grammar text) (reachable : state.Reachable text) :
    rule.Closes grammar text stop state where
  ends := by
    obtain ⟨budget, enough, ended⟩ := total.exists_steps state
    have read : ((Rule.takeUntil rule stop).reader grammar (budget + 1) state.depth _).Ended :=
      Reader.takeUntil_ended (rule.reader_onward grammar budget) ended stop enough
    exact ends_of_reading reachable.shows read
  bounded budget := by
    refine ⟨(Traced.mirrors_watch _).takeUntil stop budget state, ?_⟩
    rw [← ParserState.size_left, Nat.add_comm]
    exact Traced.few_takeUntil (rule.parse_rewinds grammar budget)
      (rule.reader_forward grammar budget) stop budget reachable.shows
  first values close after ends := by
    obtain ⟨budget, final, read, reached⟩ := value_of_ends reachable.shows ends
    cases budget with
    | zero => cases read
    | succ budget =>
      obtain ⟨rounds, last, rest, went, same, before, passed, looked, closing, rfl⟩ :=
        rounds_of_takeUntil reachable.shows read
      refine ⟨rounds, last, went, same, before, passed.shows.peek.trans looked, closing, ?_⟩
      have moved := reached.moved
      have moved' := passed.moved
      split
      · rename_i ended
        have short := Feed.next_of_end looked (closing.trans ended)
        rw [short] at moved
        omega
      · rename_i more
        have taken := Feed.size_next looked (closing ▸ more)
        omega

theorem lists (separator : Rule Γ β) (reachable : state.Reachable text) :
    rule.Lists grammar separator state := by
  intro values after ends
  have shown := reachable.shows
  generalize Feed.next^[state.cursor.pointer] (.ofText text) = feed at shown
  obtain ⟨budget, final, read, reached⟩ := value_of_ends shown ends
  cases budget with
  | zero => cases read
  | succ budget =>
    rw [reader, Reader.separated] at read
    rcases Reading.resolve_eq_value read with ⟨first, rest, reading, next⟩ | ⟨error, missed, next⟩
    · obtain ⟨begun, began, passed⟩ := ends_of_value shown reading
      obtain ⟨tail, others, rfl⟩ := Reading.map_eq_value next
      rw [← passed.leads.depth] at others
      obtain ⟨rounds, last, went, rfl, further, error, missed⟩ :=
        rounds_of_separatedTail passed.shows others
      rw [passed.leads.depth] at missed
      exact .inr ⟨first, begun, rounds, last, began, went, rfl,
        pointer_eq reached (passed.trans further), error, misses_of_reaches reached missed⟩
    · cases next
      exact .inl ⟨rfl, pointer_eq reached (.here shown), error, misses_of_reaches reached missed⟩

/-- **Repetitions are greedy and come to an end.** A rule that always comes to an end does so
when it is repeated, with or without a closing token, within one more match than there are
tokens left. What a repetition reads are rounds of its part, and it has stopped where there
are no more of them. So has every list that comes to an end. -/
theorem repetitions_greedy (grammar : Grammar Γ) (rule : Rule Γ α) {text : List Char}
    (total : rule.Total grammar text) {state : ParserState} (reachable : state.Reachable text) :
    rule.Repeats grammar text state ∧ (∀ stop, rule.Closes grammar text stop state) ∧
      ∀ {β : Type} (separator : Rule Γ β), rule.Lists grammar separator state :=
  ⟨repeats total reachable, fun _ => closes total reachable, fun separator =>
    lists separator reachable⟩

/-- One token is read or missed at once. -/
theorem total_token (grammar : Grammar Γ) (text : List Char) (kind : TokenKind) :
    (Rule.token kind).Total grammar text := by
  intro state reachable
  have read : ((Rule.token kind).reader grammar 1 state.depth
      (Feed.next^[state.cursor.pointer] (.ofText text))).Ended := by
    rw [reader, Reader.token, Reader.one]
    split
    · trivial
    · split <;> trivial
  exact ends_of_reading reachable.shows read

/-- Identifiers, repeated on a cursor that has been further on. -/
theorem repetitions_greedy_identifier :
    let grammar : Grammar (fun _ : Unit => Token) := fun _ => .token .comma
    let rule : Rule (fun _ : Unit => Token) Token := .token .identifier
    let text := ['a', ' ', 'b', ',']
    let state : ParserState := ⟨(Cursor.ofText text).after [.advance, .peek, .restore 0], 3⟩
    rule.Total grammar text ∧ state.Reachable text ∧ rule.Repeats grammar text state ∧
      (∀ stop, rule.Closes grammar text stop state) ∧
      ∀ {β : Type} (separator : Rule (fun _ : Unit => Token) β),
        rule.Lists grammar separator state := by
  intro grammar rule text state
  have total : rule.Total grammar text := total_token grammar text .identifier
  have reachable : state.Reachable text := ⟨_, rfl⟩
  exact ⟨total, reachable, repetitions_greedy grammar rule total reachable⟩

end Rule

end SchemaLang
