import SchemaLang.Proofs.Rounds

/-! When lists come to an end. A list has nothing that stops it behind a round that took
nothing, as other repetitions have: it goes on with the same round for ever. This is the
only way in which a list of parts and separators that come to an end does not: if every
round behind its first part takes a token, there are no more of them than there are tokens
left. -/
namespace SchemaLang

variable {κ : Type} {Γ : κ → Type} {α β : Type}

namespace Rule

/-- A rule that is repeated comes to match without taking anything. -/
def Idles (grammar : Grammar Γ) (rule : Rule Γ α) (state : ParserState) : Prop :=
  ∃ rounds last value after, rule.Rounds grammar state rounds last ∧
    rule.Ends grammar last (.ok value) after ∧ after.cursor.pointer = last.cursor.pointer

/-- A list comes to a separator and a part that take nothing, the one behind the other. -/
def Spins (grammar : Grammar Γ) (rule : Rule Γ α) (separator : Rule Γ β) (state : ParserState) :
    Prop :=
  ∃ first begun, rule.Ends grammar state (.ok first) begun ∧
    (pair separator rule).Idles grammar begun

variable {grammar : Grammar Γ} {rule : Rule Γ α} {separator : Rule Γ β} {text : List Char}
  {state middle after : ParserState} {value : α} {feed rest : Feed} {depth budget : Nat}

theorem idles_of_round (ends : rule.Ends grammar state (.ok value) after)
    (idle : after.cursor.pointer = state.cursor.pointer) : rule.Idles grammar state :=
  ⟨[], state, value, after, .none state, ends, idle⟩

theorem Idles.earlier (ends : rule.Ends grammar state (.ok value) middle)
    (idles : rule.Idles grammar middle) : rule.Idles grammar state := by
  obtain ⟨rounds, last, found, after, went, idle⟩ := idles
  exact ⟨(state, value) :: rounds, last, found, after, .next ends went, idle⟩

end Rule

/-! ## Going on for ever -/

/-- Going back is for failures only. -/
theorem Parser.rewinding_ok {parser : Parser α} {state after : ParserState} {value : α}
    (ran : parser state = .ok value after) : parser.rewinding state = .ok value after := by
  simp only [Parser.rewinding, bind_run, pointer, attempt, ran]
  rfl

/-- What is left of a feed is told by how much it is. -/
theorem Feed.Leaves.eq_of_size {feed rest other : Feed} (left : feed.Leaves rest)
    (left' : feed.Leaves other) (same : rest.size = other.size) : rest = other := by
  induction feed with
  | token first proper others ih =>
    rcases leaves_token left with rfl | later <;> rcases leaves_token left' with rfl | later'
    · rfl
    · exact absurd later'.size_le (by rw [← same, size]; omega)
    · exact absurd later.size_le (by rw [same, size]; omega)
    · exact ih later later'
  | finish place =>
    obtain ⟨count, rfl⟩ := left
    obtain ⟨more, rfl⟩ := left'
    rw [next_iterate_finish, next_iterate_finish]
  | fault failure =>
    obtain ⟨count, rfl⟩ := left
    obtain ⟨more, rfl⟩ := left'
    rw [next_iterate_fault, next_iterate_fault]

namespace Rule

variable {grammar : Grammar Γ} {rule : Rule Γ α} {separator : Rule Γ β} {text : List Char}
  {state middle after : ParserState} {value : α} {feed rest : Feed} {depth budget : Nat}

/-- With any budget a reading is cut short, or it is the same. -/
theorem exhausted_or_value (read : rule.reader grammar budget depth feed = .value value rest)
    (other : Nat) :
    rule.reader grammar other depth feed = .exhausted ∨
      rule.reader grammar other depth feed = .value value rest := by
  have left := (rule.reader_onward grammar budget).leaves read
  have report : (rule.reader grammar budget depth feed).report feed =
      some (.ok value, rest.size) := by rw [read, Reading.report]
  cases reading : rule.reader grammar other depth feed with
  | exhausted => exact .inl rfl
  | failure error =>
    have report' : (rule.reader grammar other depth feed).report feed =
        some (.error error, feed.size) := by rw [reading, Reading.report]
    cases report_unique report report'
  | value found behind =>
    have report' : (rule.reader grammar other depth feed).report feed =
        some (.ok found, behind.size) := by rw [reading, Reading.report]
    have same := report_unique report report'
    simp only [Prod.mk.injEq, Except.ok.injEq] at same
    have left' := (rule.reader_onward grammar other).leaves reading
    rw [same.1, left'.eq_of_size left same.2]
    exact .inr rfl

/-- If nothing comes of a list behind a round, nothing comes of it in front of the round. -/
private theorem separatedTail_exhausted {count : Nat} {both : β × α}
    (read : (pair separator rule).reader grammar budget depth feed = .value both rest)
    (endless : ∀ budget, Reader.separatedTail (rule.reader grammar budget)
      (separator.reader grammar budget) count depth rest = .exhausted) (budget : Nat) :
    Reader.separatedTail (rule.reader grammar budget) (separator.reader grammar budget)
      (count + 1) depth feed = .exhausted := by
  rw [Reader.separatedTail, reader_pair]
  rcases exhausted_or_value read (budget + 1) with same | same
  · rw [same]
    rfl
  · rw [same, Reading.map, Reading.resolve, endless]
    rfl

/-- Nothing comes of a list in which a round takes nothing: there is always one more. -/
theorem exhausted_of_idles (idles : (pair separator rule).Idles grammar state)
    (shown : state.cursor.Shows feed) (budget count : Nat) :
    Reader.separatedTail (rule.reader grammar budget) (separator.reader grammar budget) count
      state.depth feed = .exhausted := by
  obtain ⟨rounds, last, both, after, went, ends, idle⟩ := idles
  induction went generalizing feed budget count with
  | none state =>
    obtain ⟨steps, rest, read, reached⟩ := value_of_ends shown ends
    have left := ((pair separator rule).reader_onward grammar steps).leaves read
    have moved := reached.moved
    -- The round leaves the very feed that it found, so the next one is the same again.
    obtain rfl : rest = feed := left.eq_of_size feed.leaves_refl (by omega)
    induction count generalizing budget with
    | zero => rfl
    | succ count ih => exact separatedTail_exhausted read (fun budget => ih budget) budget
  | next round _ ih =>
    obtain ⟨steps, rest, read, reached⟩ := value_of_ends shown round
    cases count with
    | zero => rfl
    | succ count =>
      refine separatedTail_exhausted read (fun budget => ?_) budget
      rw [← reached.leads.depth]
      exact ih reached.shows budget count ends idle

/-- A list that comes to a round without progress has no end. -/
theorem not_ends_of_spins (reachable : state.Reachable text)
    (spins : rule.Spins grammar separator state) :
    ¬ ∃ outcome after, (Rule.separated rule separator).Ends grammar state outcome after := by
  rintro ⟨outcome, final, ends⟩
  obtain ⟨first, begun, began, idles⟩ := spins
  have shown := reachable.shows
  generalize Feed.next^[state.cursor.pointer] (.ofText text) = feed at shown
  obtain ⟨steps, rest, read, reached⟩ := value_of_ends shown began
  obtain ⟨budget, left, reported, -⟩ := report_of_ends shown ends
  cases budget with
  | zero => cases reported
  | succ budget =>
    rw [reader, Reader.separated] at reported
    rcases exhausted_or_value read budget with same | same
    · rw [same] at reported
      cases reported
    · have endless := exhausted_of_idles idles reached.shows budget budget
      rw [reached.leads.depth] at endless
      rw [same, Reading.resolve, endless] at reported
      cases reported

/-! ## Coming to an end -/

private theorem pair_ended (ends : (rule.reader grammar budget).EndsOn depth feed)
    (between : (separator.reader grammar budget).EndsOn depth feed) :
    ((pair separator rule).reader grammar (budget + 1) depth feed).Ended := by
  refine between.here.andThen fun found rest read => ?_
  have left := (separator.reader_onward grammar budget).leaves read
  exact (ends rest left).map _

/-- A round that is not idle takes a token. -/
private theorem size_lt_of_round (busy : ¬ rule.Idles grammar state)
    (ends : rule.Ends grammar state (.ok value) after)
    (read : rule.reader grammar budget state.depth feed = .value value rest)
    (reached : state.Reaches feed after rest) : rest.size < feed.size := by
  have moved := reached.moved
  have short := ((rule.reader_onward grammar budget).leaves read).size_le
  have going : after.cursor.pointer ≠ state.cursor.pointer := fun idle =>
    busy (idles_of_round ends idle)
  omega

/-- If every round takes a token, a list comes to an end within as many rounds as there are
tokens. -/
theorem separatedTail_ended (shown : state.cursor.Shows feed)
    (ends : (rule.reader grammar budget).EndsOn state.depth feed)
    (between : (separator.reader grammar budget).EndsOn state.depth feed)
    (busy : ¬ (pair separator rule).Idles grammar state) {count : Nat}
    (enough : feed.size < count) :
    (Reader.separatedTail (rule.reader grammar budget) (separator.reader grammar budget) count
      state.depth feed).Ended := by
  induction count generalizing state feed with
  | zero => cases enough
  | succ count ih =>
    rw [Reader.separatedTail, reader_pair]
    refine ((pair_ended ends between).map _).resolve (fun value rest round => ?_) fun _ => trivial
    obtain ⟨both, read, rfl⟩ := Reading.map_eq_value round
    have left := ((pair separator rule).reader_onward grammar (budget + 1)).leaves read
    obtain ⟨middle, matched, reached⟩ := ends_of_value shown read
    have less := size_lt_of_round busy matched read reached
    refine Reading.Ended.map ?_ _
    rw [← reached.leads.depth] at ends between ⊢
    exact ih reached.shows (ends.later left) (between.later left)
      (fun idles => busy (idles.earlier matched)) (by omega)

/-- A list of rules that come to an end does so itself, unless it comes to a round without
progress. -/
theorem ends_of_not_spins (total : rule.Total grammar text)
    (between : separator.Total grammar text) (reachable : state.Reachable text)
    (busy : ¬ rule.Spins grammar separator state) :
    ∃ outcome after, (Rule.separated rule separator).Ends grammar state outcome after := by
  obtain ⟨budget, enough, ends⟩ := total.exists_steps state
  obtain ⟨budget', enough', ends'⟩ := between.exists_steps state
  have shown := reachable.shows
  generalize Feed.next^[state.cursor.pointer] (.ofText text) = feed at *
  replace ends : (rule.reader grammar (max budget budget')).EndsOn state.depth feed :=
    fun rest left => ended_mono (Nat.le_max_left ..) (ends rest left)
  replace ends' : (separator.reader grammar (max budget budget')).EndsOn state.depth feed :=
    fun rest left => ended_mono (Nat.le_max_right ..) (ends' rest left)
  have read : ((Rule.separated rule separator).reader grammar (max budget budget' + 1) state.depth
      feed).Ended := by
    rw [reader, Reader.separated]
    refine ends.here.resolve (fun first rest read => ?_) fun _ => trivial
    obtain ⟨begun, began, reached⟩ := ends_of_value shown read
    have left := (rule.reader_onward grammar _).leaves read
    have short := left.size_le
    refine Reading.Ended.map ?_ _
    rw [← reached.leads.depth] at ends ends' ⊢
    exact separatedTail_ended reached.shows (ends.later left) (ends'.later left)
      (fun idles => busy ⟨first, begun, began, idles⟩) (by omega)
  exact ends_of_reading shown read

/-! ## Counting rounds -/

/-- What matches as a separator and a part behind it matches as the pair of them. -/
private theorem ends_pair {budget : Nat}
    (ran : (do let _ ← separator.parse grammar budget; rule.parse grammar budget : Parser α)
      state = .ok value after) :
    ∃ found, (pair separator rule).Ends grammar state (.ok (found, value)) after := by
  rw [Parser.bind_run] at ran
  cases first : separator.parse grammar budget state with
  | error halt middle => rw [first] at ran; cases ran
  | ok found middle =>
    rw [first] at ran
    replace ran : rule.parse grammar budget middle = .ok value after := ran
    refine ⟨found, budget + 1, Parser.rewinding_ok ?_⟩
    show (separator.parse grammar budget >>= fun between =>
      rule.parse grammar budget >>= fun part => pure (between, part)) state = _
    rw [Parser.bind_run, first]
    show (rule.parse grammar budget >>= fun part => pure (found, part)) middle = _
    rw [Parser.bind_run, ran]
    rfl

/-- However many rounds it is given, a list in which every round takes a token matches its
part at most once for each token in front of it. -/
theorem few_separatedTail (shown : state.cursor.Shows feed)
    (busy : ¬ (pair separator rule).Idles grammar state) (budget rounds : Nat) :
    ((Traced.watch (rule.parse grammar budget)).separatedTail
      (.silent (separator.parse grammar budget)) rounds).Few feed.size state := by
  induction rounds generalizing state feed with
  | zero => exact Traced.few_halt _ state
  | succ rounds ih =>
    have round := Traced.mirrors_watchBehind (separator.parse grammar budget)
      (rule.parse grammar budget)
    refine (Traced.few_asking ..).behind ?_
    rintro before _ ⟨⟩
    cases ran : (do let _ ← separator.parse grammar budget
                    rule.parse grammar budget : Parser α) state with
    | ok value after =>
      obtain ⟨found, ends⟩ := ends_pair ran
      obtain ⟨steps, rest, read, reached⟩ := value_of_ends shown ends
      have less := size_lt_of_round busy ends read reached
      have one := (Traced.few_watchBehind (separator.parse grammar budget)
        (rule.parse grammar budget) state).attempt
      refine Nat.le_trans (one.bind fun outcome final attempted => ?_)
        (show 1 + rest.size ≤ feed.size by omega)
      rw [round.attempt state, Parser.attempt, ran] at attempted
      cases attempted
      exact (ih reached.shows fun idles => busy (idles.earlier ends)).map _
    | error halt after =>
      have unmatched : (Traced.watchBehind (separator.parse grammar budget)
          (rule.parse grammar budget)).Few 0 state :=
        Traced.few_watchBehind_of_failed fun value final matched => by
          cases matched.symm.trans ran
      refine unmatched.attempt.behind fun outcome final attempted => ?_
      rw [round.attempt state, Parser.attempt, ran] at attempted
      cases halt with
      | failed error =>
        cases attempted
        refine (Traced.few_asking ..).behind fun _ back _ => ?_
        split
        · exact Traced.few_halt _ back
        · exact Traced.few_pure [] back
      | misplaced fault => cases attempted
      | exhausted => cases attempted

theorem few_separated (shown : state.cursor.Shows feed)
    (busy : ¬ rule.Spins grammar separator state) (budget : Nat) :
    ((Traced.watch (rule.parse grammar budget)).separated
      (.silent (separator.parse grammar budget)) budget).Few (1 + feed.size) state := by
  refine (Traced.few_watch ..).attempt.bind fun outcome after ran => ?_
  rw [(Traced.mirrors_watch _).attempt] at ran
  refine Traced.few_recovered (fun first matched => ?_) (Traced.few_pure [] after)
  subst matched
  have begun : rule.Ends grammar state (.ok first) after := ⟨budget, Traced.attempt_ok ran⟩
  obtain ⟨steps, rest, read, reached⟩ := value_of_ends shown begun
  have short := ((rule.reader_onward grammar steps).leaves read).size_le
  refine Traced.Few.map ?_ _
  exact Nat.le_trans (few_separatedTail reached.shows
    (fun idles => busy ⟨first, after, begun, idles⟩) budget budget) short

/-- **A list comes to an end unless it spins.** Where parts and separators come to an end
from every state, a list of them does so exactly if it comes to no separator and part that
take nothing. Then its part matches at most once for each token that is left, and once
more, whatever becomes of the list. -/
theorem separated_ends_iff (grammar : Grammar Γ) (rule : Rule Γ α) (separator : Rule Γ β)
    {text : List Char} (total : rule.Total grammar text)
    (between : separator.Total grammar text) {state : ParserState}
    (reachable : state.Reachable text) :
    ((∃ outcome after, (Rule.separated rule separator).Ends grammar state outcome after) ↔
      ¬ rule.Spins grammar separator state) ∧
    (¬ rule.Spins grammar separator state → ∀ budget,
      ((Traced.watch (rule.parse grammar budget)).separated
        (.silent (separator.parse grammar budget)) budget).Counts
        ((Rule.separated rule separator).apply grammar (budget + 1)) (state.left text + 1)
        state) := by
  refine ⟨⟨fun ends spins => not_ends_of_spins reachable spins ends,
    ends_of_not_spins total between reachable⟩, fun busy budget => ⟨?_, ?_⟩⟩
  · exact (Traced.mirrors_watch _).separated (Traced.mirrors_silent _) budget state
  · rw [← ParserState.size_left, Nat.add_comm]
    exact few_separated reachable.shows busy budget

/-- A list that does not spin, on a cursor that has been further on, with a separator that is
given back. -/
theorem separated_ends_identifiers :
    let grammar : Grammar (fun _ : Unit => Token) := fun _ => .token .string
    let rule : Rule (fun _ : Unit => Token) Token := .token .identifier
    let separator : Rule (fun _ : Unit => Token) Token := .token .comma
    let text := ['a', ',']
    let state : ParserState := ⟨(Cursor.ofText text).after [.advance, .peek, .restore 0], 3⟩
    rule.Total grammar text ∧ separator.Total grammar text ∧ state.Reachable text ∧
      ¬ rule.Spins grammar separator state ∧
      ∀ budget, ((Traced.watch (rule.parse grammar budget)).separated
        (.silent (separator.parse grammar budget)) budget).Counts
        ((Rule.separated rule separator).apply grammar (budget + 1)) (state.left text + 1)
        state := by
  intro grammar rule separator text state
  have total : rule.Total grammar text := total_token grammar text .identifier
  have between : separator.Total grammar text := total_token grammar text .comma
  have reachable : state.Reachable text := ⟨_, rfl⟩
  have ⟨ends, counts⟩ := separated_ends_iff grammar rule separator total between reachable
  have busy := ends.1 ⟨.ok _, _, 5, rfl⟩
  exact ⟨total, between, reachable, busy, counts busy⟩

/-- The end of input, listed with the end of input between. Both always come to an end, but a
list of them, even on no text at all, does not. -/
theorem not_separated_ends_end :
    let grammar : Grammar (fun _ : Unit => Token) := fun _ => .token .comma
    let rule : Rule (fun _ : Unit => Token) Token := .token .endOfInput
    rule.Total grammar [] ∧ (ParserState.ofText []).Reachable [] ∧
      ¬ ∃ outcome after,
        (Rule.separated rule rule).Ends grammar (.ofText []) outcome after := by
  intro grammar rule
  have reachable : (ParserState.ofText []).Reachable [] := ⟨[], rfl⟩
  let seen : ParserState := ⟨(Cursor.ofText []).after [.peek], 0⟩
  have begun : rule.Ends grammar (.ofText []) (.ok (.endAt .start)) seen := ⟨1, rfl⟩
  have idle : (pair rule rule).Ends grammar seen (.ok (.endAt .start, .endAt .start)) seen :=
    ⟨2, rfl⟩
  exact ⟨total_token grammar [] .endOfInput, reachable,
    not_ends_of_spins reachable ⟨_, seen, begun, idles_of_round idle rfl⟩⟩

end Rule

end SchemaLang
