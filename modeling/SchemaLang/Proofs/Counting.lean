import SchemaLang.Proofs.Onward

/-! How often a repeated rule matches. What a loop repeats is put on record from outside,
run by run. A loop that goes on only behind a round that took a token has no more such
rounds than there are tokens left, and at most one round that took none, which is its
last. This bounds its matches whatever becomes of the loop, also if it runs out of steps
or ends in a failure. -/
namespace SchemaLang

variable {κ : Type} {Γ : κ → Type} {α β : Type}

/-- How many tokens a state has in front of it, the end of input not counted. -/
def ParserState.left (text : List Char) (state : ParserState) : Nat :=
  (TokenStream.ofText text).proper - state.cursor.pointer

theorem ParserState.size_left (text : List Char) (state : ParserState) :
    (Feed.next^[state.cursor.pointer] (.ofText text)).size = state.left text := by
  rw [Feed.size_next_iterate, Feed.size_ofText]
  rfl

namespace Traced

/-- A parser whose own begin and end are on record, and nothing in between. -/
def watch (parser : Parser α) : Traced α := fun state =>
  match parser state with
  | .ok value after => ([.enter state, .leave none], .ok value after)
  | .error (.failed error) after =>
    ([.enter state, .leave (some error)], .error (.failed error) after)
  | .error halt after => ([.enter state], .error halt after)

/-- A parser of which nothing is on record. -/
def silent (parser : Parser α) : Traced α := fun state => ([], parser state)

/-- How many of the runs on record have matched. -/
def matched (log : List Event) : Nat :=
  log.countP fun
    | .leave none => true
    | _ => false

/-- A run on record with at most so many matches. -/
def Few (traced : Traced α) (count : Nat) (state : ParserState) : Prop :=
  matched (traced state).1 ≤ count

/-- What a parser does from a state, with at most so many matches on record. -/
structure Counts (traced : Traced α) (parser : Parser α) (count : Nat) (state : ParserState) :
    Prop where
  recorded : (traced state).2 = parser state
  few : traced.Few count state

/-! ## Operations -/

variable {parser : Parser α} {traced : Traced α} {next : α → Traced β} {state : ParserState}
  {count more : Nat}

theorem mirrors_silent (parser : Parser α) : (silent parser).Mirrors parser := fun _ => rfl

theorem mirrors_watch (parser : Parser α) : (watch parser).Mirrors parser := by
  intro state
  unfold watch
  cases parser state with
  | ok value after => rfl
  | error halt after => cases halt <;> rfl

theorem few_watch (parser : Parser α) (state : ParserState) : (watch parser).Few 1 state := by
  unfold Few watch
  cases parser state with
  | ok value after => exact Nat.le_refl 1
  | error halt after => cases halt <;> exact Nat.zero_le 1

theorem few_watch_of_failed (failed : ∀ value after, parser state ≠ .ok value after) :
    (watch parser).Few count state := by
  unfold Few watch
  cases ran : parser state with
  | ok value after => exact absurd ran (failed value after)
  | error halt after => cases halt <;> exact Nat.zero_le count

theorem few_silent (parser : Parser α) (state : ParserState) : (silent parser).Few count state :=
  Nat.zero_le count

theorem few_asking (request : Cursor.Request) (parser : Parser α) (state : ParserState) :
    (asking request parser).Few count state :=
  Nat.zero_le count

theorem few_pure (value : α) (state : ParserState) : Few (pure value) count state :=
  Nat.zero_le count

theorem few_halt (reason : Halt) (state : ParserState) :
    Few (halt reason : Traced α) count state :=
  Nat.zero_le count

theorem Few.bind (few : traced.Few count state)
    (goesOn : ∀ value after, (traced state).2 = .ok value after → (next value).Few more after) :
    (traced >>= next).Few (count + more) state := by
  unfold Few at few ⊢
  rw [bind_run]
  cases ran : traced state with
  | mk log result =>
    rw [ran] at few goesOn
    cases result with
    | ok value after =>
      have others := goesOn value after rfl
      exact Nat.le_trans (Nat.le_of_eq List.countP_append) (Nat.add_le_add few others)
    | error halt after => exact Nat.le_trans few (Nat.le_add_right ..)

/-- What has no matches leaves all of them to what goes on behind it. -/
theorem Few.behind (quiet : traced.Few 0 state)
    (goesOn : ∀ value after, (traced state).2 = .ok value after → (next value).Few count after) :
    (traced >>= next).Few count state := by
  rw [← Nat.zero_add count]
  exact quiet.bind goesOn

theorem Few.map (few : traced.Few count state) (change : α → β) :
    (traced >>= fun value => pure (change value)).Few count state :=
  Nat.add_zero count ▸ few.bind fun _ after _ => few_pure _ after

theorem Few.attempt (few : traced.Few count state) : traced.attempt.Few count state := by
  unfold Few Traced.attempt at *
  cases ran : traced state with
  | mk log result =>
    rw [ran] at few
    cases result with
    | ok value after => exact few
    | error halt after => cases halt <;> exact few

/-- What goes on behind a part that may be missing. -/
theorem few_recovered {outcome : Except ParseError α} {next : Option α → Traced β}
    (found : ∀ value, outcome = .ok value → (next (some value)).Few count state)
    (missing : (next none).Few count state) :
    (recovered outcome >>= next).Few count state := by
  cases outcome with
  | ok value => exact found value rfl
  | error error =>
    simp only [recovered]
    split
    · refine (few_halt _ state).behind ?_
      rintro _ _ ⟨⟩
    · exact missing

/-- A value that was handed out is that of a run that matched. -/
theorem attempt_ok {value : α} {after : ParserState}
    (ran : parser.attempt state = .ok (.ok value) after) : parser state = .ok value after := by
  unfold Parser.attempt at ran
  cases result : parser state with
  | ok found final =>
    rw [result] at ran
    cases ran
    rfl
  | error halt final =>
    rw [result] at ran
    cases halt <;> cases ran

/-! ## A part behind a separator -/

/-- A separator of which nothing is on record, and a part that is watched. -/
def watchBehind (separator : Parser β) (parser : Parser α) : Traced α := do
  let _ ← silent separator
  watch parser

theorem mirrors_watchBehind (separator : Parser β) (parser : Parser α) :
    (watchBehind separator parser).Mirrors (do let _ ← separator; parser) :=
  (mirrors_silent separator).bind fun _ => mirrors_watch parser

theorem few_watchBehind (separator : Parser β) (parser : Parser α) (state : ParserState) :
    (watchBehind separator parser).Few 1 state :=
  (few_silent separator state).behind fun _ middle _ => few_watch parser middle

/-- The part has not matched, whether it was the separator that failed or the part itself. -/
theorem few_watchBehind_of_failed {separator : Parser β}
    (failed : ∀ value after,
      (do let _ ← separator; parser : Parser α) state ≠ .ok value after) :
    (watchBehind separator parser).Few count state := by
  refine (few_silent separator state).behind fun found middle passed => ?_
  refine few_watch_of_failed fun value after matched => failed value after ?_
  replace passed : separator state = .ok found middle := passed
  rw [Parser.bind_run, passed]
  exact matched

/-! ## Loops -/

variable {reader : Reader α} {feed : Feed}

/-- A round that took no token stands where it began, and every other one further on. -/
private theorem rest_lt {value : α} {after : ParserState} (same : parser.Rewinds reader)
    (forward : reader.Spends 0) (shown : state.cursor.Shows feed)
    (ran : parser state = .ok value after) (moved : after.cursor.pointer ≠ state.cursor.pointer) :
    ∃ rest, after.cursor.Shows rest ∧ rest.size < feed.size := by
  have tracked := same.follows state feed shown
  rw [ran] at tracked
  obtain ⟨rest, read, reached⟩ := tracked
  have spends := forward state.depth feed
  rw [read] at spends
  have short : rest.size ≤ feed.size := spends
  have place := reached.moved
  exact ⟨rest, reached.shows, by omega⟩

/-- However many rounds it is given, a repetition matches its part at most once for each
token in front of it, and once more. -/
theorem few_zeroOrMore (same : parser.Rewinds reader) (forward : reader.Spends 0) (rounds : Nat)
    (shown : state.cursor.Shows feed) :
    ((watch parser).zeroOrMore rounds).Few (1 + feed.size) state := by
  induction rounds generalizing state feed with
  | zero => exact few_halt _ state
  | succ rounds ih =>
    refine (few_asking ..).behind ?_
    rintro before _ ⟨⟩
    -- One match is counted for this round, and the bound behind it is for one token less.
    refine (few_watch parser state).attempt.bind fun outcome after ran => ?_
    rw [(mirrors_watch parser).attempt] at ran
    refine few_recovered (fun value matched => ?_) (few_pure [] after)
    subst matched
    refine (few_asking ..).behind ?_
    rintro now _ ⟨⟩
    split
    · exact few_pure _ after
    · rename_i moved
      obtain ⟨rest, shownAfter, less⟩ := rest_lt same forward shown (attempt_ok ran) moved
      refine Few.map ?_ _
      exact Nat.le_trans (ih shownAfter) (by omega)

private theorem shows_of_peek {token : Token} {seen : ParserState}
    (shown : state.cursor.Shows feed) (looked : Parser.peek state = .ok token seen) :
    seen.cursor.Shows feed := by
  obtain ⟨after, reached, peeked⟩ := Parser.peek_reaches shown
  rw [looked] at peeked
  cases front : feed.look with
  | error failure => rw [front] at peeked; cases peeked
  | ok first =>
    rw [front] at peeked
    cases peeked
    exact reached.shows

/-- And so does a repetition up to a closing token. -/
theorem few_takeUntil (same : parser.Rewinds reader) (forward : reader.Spends 0)
    (stop : TokenKind) (rounds : Nat) (shown : state.cursor.Shows feed) :
    ((watch parser).takeUntil stop rounds).Few (1 + feed.size) state := by
  induction rounds generalizing state feed with
  | zero => exact few_halt _ state
  | succ rounds ih =>
    refine (few_asking ..).behind fun token seen looked => ?_
    split
    · exact (few_asking ..).behind fun _ after _ => few_pure _ after
    · refine (few_asking ..).behind ?_
      rintro before _ ⟨⟩
      refine (few_watch parser seen).bind fun value after ran => ?_
      rw [mirrors_watch parser] at ran
      refine (few_asking ..).behind ?_
      rintro now _ ⟨⟩
      split
      · exact few_halt _ after
      · rename_i moved
        obtain ⟨rest, shownAfter, less⟩ :=
          rest_lt same forward (shows_of_peek shown looked) ran moved
        refine Few.map ?_ _
        exact Nat.le_trans (ih shownAfter) (by omega)

end Traced

end SchemaLang
