import SchemaLang.Proofs.Rollback

/-! Fatal failures. A text that cannot be scanned, or that nests too deeply, is refused
on the spot: once a rule anywhere inside a run has failed for such a reason, no rule is
invoked any more, every rule around it ends with the same failure, and so does the run.
The cursor is only told to go back on the way out. -/
namespace SchemaLang

variable {κ : Type} {Γ : κ → Type} {α β : Type}

namespace Event

/-- The fatal failure that an event brings into a run: a rule ends with one, or the
cursor answers that it stands before a character that begins no lexeme. -/
def fatal? : Event → Option ParseError
  | .enter _ => none
  | .leave none => none
  | .leave (some error) => if error.isFatal then some error else none
  | .exchange asked =>
    match asked.reply with
    | .element (.error failure) => some (.ofLexError failure)
    | _ => none

/-- What may still happen after a fatal failure: rules end with it, and the cursor goes
back. -/
def Echoes (error : ParseError) : Event → Prop
  | .enter _ => False
  | .leave failure => failure = some error
  | .exchange asked => ∃ cursor ordinal, asked = Cursor.exchange cursor (.restore ordinal)

theorem isFatal_of_fatal? {event : Event} {error : ParseError}
    (fatal : event.fatal? = some error) : error.isFatal = true := by
  unfold fatal? at fatal
  split at fatal
  · cases fatal
  · cases fatal
  · split at fatal
    · cases fatal
      assumption
    · cases fatal
  · split at fatal
    · cases fatal
      rfl
    · cases fatal

@[simp] theorem fatal?_restore (cursor : Cursor) (ordinal : Nat) :
    (Event.exchange (cursor.exchange (.restore ordinal))).fatal? = none := by
  simp only [fatal?, Cursor.exchange]
  cases cursor.restore ordinal <;> rfl

/-- An echo brings in no other failure. -/
theorem Echoes.eq_of_fatal? {event : Event} {error other : ParseError}
    (echoes : event.Echoes error) (fatal : event.fatal? = some other) : other = error := by
  cases event with
  | enter state => exact echoes.elim
  | leave failure =>
    cases echoes
    simp only [fatal?] at fatal
    split at fatal
    · exact (Option.some.inj fatal).symm
    · cases fatal
  | exchange exchange =>
    obtain ⟨cursor, ordinal, rfl⟩ := echoes
    rw [fatal?_restore] at fatal
    cases fatal

end Event

namespace Traced

/-- A result that is this failure, unless the cursor was misplaced on the way out. -/
def Refuses (error : ParseError) (result : EStateM.Result Halt ParserState α) : Prop :=
  (∃ after, result = .error (.failed error) after) ∨
    ∃ fault after, result = .error (.misplaced fault) after

/-- A run in which only echoes follow a fatal failure, and which ends with it. -/
structure Aborted (run : List Event × EStateM.Result Halt ParserState α) : Prop where
  echoed : run.1.Pairwise fun earlier later =>
    ∀ error, earlier.fatal? = some error → later.Echoes error
  ended : ∀ event ∈ run.1, ∀ error, event.fatal? = some error → Refuses error run.2

/-- A parser that does nothing but hand a failure on. -/
def Echoing (error : ParseError) (traced : Traced α) : Prop :=
  ∀ state, (∀ event ∈ (traced state).1, event.Echoes error) ∧ Refuses error (traced state).2

section

variable {state after after' : ParserState} {error : ParseError} {log others : List Event}
  {result : EStateM.Result Halt ParserState α}

private theorem not_refuses_ok {value : α} : ¬ Refuses error (.ok value after) := by
  rintro (⟨_, ⟨⟩⟩ | ⟨_, _, ⟨⟩⟩)

private theorem eq_of_refuses {other : ParseError}
    (refuses : Refuses error (.error (.failed other) after : EStateM.Result Halt ParserState α)) :
    error = other := by
  rcases refuses with ⟨_, ⟨⟩⟩ | ⟨_, _, ⟨⟩⟩
  rfl

/-! ### Runs -/

/-- A run without a fatal failure has nothing to answer for. -/
private theorem Aborted.clean (harmless : ∀ event ∈ log, event.fatal? = none) :
    Aborted (log, result) where
  echoed := by
    refine List.pairwise_of_forall_mem_list fun earlier found later _ error fatal => ?_
    rw [harmless earlier found] at fatal
    cases fatal
  ended event found error fatal := by
    rw [harmless event found] at fatal
    cases fatal

/-- A run that cannot have ended with a fatal failure has met none. -/
private theorem Aborted.harmless (aborted : Aborted (log, result))
    (mild : ∀ error, error.isFatal = true → ¬ Refuses error result) :
    ∀ event ∈ log, event.fatal? = none := by
  intro event found
  cases fatal : event.fatal? with
  | none => rfl
  | some error =>
    exact absurd (aborted.ended event found error fatal)
      (mild error (Event.isFatal_of_fatal? fatal))

/-- What follows a run without a fatal failure is judged by itself. -/
private theorem Aborted.append (harmless : ∀ event ∈ log, event.fatal? = none)
    (later : Aborted (others, result)) : Aborted (log ++ others, result) where
  echoed := by
    have alone : Aborted (log, result) := .clean harmless
    refine List.pairwise_append.2 ⟨alone.echoed, later.echoed, ?_⟩
    intro earlier found _ _ error fatal
    rw [harmless earlier found] at fatal
    cases fatal
  ended event found error fatal := by
    rcases List.mem_append.1 found with earlier | inner
    · rw [harmless event earlier] at fatal
      cases fatal
    · exact later.ended event inner error fatal

/-- A run that has ended with a failure may be followed by echoes of it. -/
private theorem Aborted.echo {other : EStateM.Result Halt ParserState β}
    (aborted : Aborted (log, (.error (.failed error) after : EStateM.Result Halt ParserState α)))
    (echoes : ∀ event ∈ others, event.Echoes error) (refuses : Refuses error other) :
    Aborted (log ++ others, other) := by
  have only : ∀ event ∈ log ++ others, ∀ fatal, event.fatal? = some fatal → fatal = error := by
    intro event found fatal same
    rcases List.mem_append.1 found with earlier | later
    · exact eq_of_refuses (aborted.ended event earlier fatal same)
    · exact (echoes event later).eq_of_fatal? same
  refine ⟨List.pairwise_append.2 ⟨aborted.echoed, ?_, ?_⟩, fun event found fatal same => ?_⟩
  · refine List.pairwise_of_forall_mem_list fun earlier found later met fatal same => ?_
    rw [only earlier (List.mem_append_right _ found) fatal same]
    exact echoes later met
  · intro earlier found later met fatal same
    rw [only earlier (List.mem_append_left _ found) fatal same]
    exact echoes later met
  · rw [only event found fatal same]
    exact refuses

/-- The reason why a run halted is all that counts about its result. -/
private theorem Aborted.halted {reason : Halt}
    (aborted : Aborted (log, (.error reason after : EStateM.Result Halt ParserState α))) :
    Aborted (log, (.error reason after' : EStateM.Result Halt ParserState β)) where
  echoed := aborted.echoed
  ended event found error fatal := by
    rcases aborted.ended event found error fatal with ⟨_, ⟨⟩⟩ | ⟨fault, _, ⟨⟩⟩
    · exact .inl ⟨_, rfl⟩
    · exact .inr ⟨fault, _, rfl⟩

/-! ### Operations -/

private theorem echoing_fail (error : ParseError) : Echoing error (fail error : Traced α) :=
  fun state => ⟨by rintro _ ⟨⟩, .inl ⟨state, rfl⟩⟩

/-- Going back before a failure is handed on is an echo of it. -/
private theorem Echoing.restoring {traced : Traced α} (inner : Echoing error traced)
    (ordinal : Nat) : Echoing error (restore ordinal >>= fun _ => traced) := by
  intro state
  have asked : ∀ event ∈ (restore ordinal state).1, event.Echoes error := by
    intro event found
    cases List.mem_singleton.1 found
    exact ⟨state.cursor, ordinal, rfl⟩
  rw [bind_run]
  cases granted : state.cursor.restore ordinal with
  | ok cursor =>
    have went : (restore ordinal state).2 = .ok () { state with cursor } := by
      show Parser.restore ordinal state = _
      rw [Parser.restore, granted]
    rw [show restore ordinal state = (_, .ok () { state with cursor }) from Prod.ext rfl went]
    obtain ⟨echoes, refuses⟩ := inner { state with cursor }
    refine ⟨fun event found => ?_, refuses⟩
    rcases List.mem_append.1 found with earlier | later
    · exact asked event earlier
    · exact echoes event later
  | error fault =>
    have went : (restore ordinal state).2 = .error (.misplaced fault) state := by
      show Parser.restore ordinal state = _
      rw [Parser.restore, granted]
    rw [show restore ordinal state = (_, .error (.misplaced fault) state) from Prod.ext rfl went]
    exact ⟨asked, .inr ⟨fault, state, rfl⟩⟩

/-- A rule that ends with the failure that is handed on is an echo of it. -/
private theorem Echoing.leaving {traced : Traced α} (inner : Echoing error traced) :
    Echoing error ((record fun _ => .leave (some error)) >>= fun _ => traced) := by
  intro state
  obtain ⟨echoes, refuses⟩ := inner state
  refine ⟨fun event found => ?_, refuses⟩
  rcases List.mem_append.1 found with here | later
  · cases List.mem_singleton.1 here
    exact rfl
  · exact echoes event later

private theorem echoing_of_raises {traced : Traced α} (raises : traced.Raises error) :
    Echoing error traced := by
  rcases raises with rfl | ⟨ordinal, rfl⟩
  · exact echoing_fail error
  · exact (echoing_fail error).restoring ordinal

private theorem aborted_bind {traced : Traced α} {next : α → Traced β}
    (first : Aborted (traced state)) (second : ∀ value middle, Aborted (next value middle)) :
    Aborted ((traced >>= next) state) := by
  rw [bind_run]
  cases ran : traced state with
  | mk log result =>
    rw [ran] at first
    cases result with
    | ok value after =>
      exact .append (first.harmless fun _ _ => not_refuses_ok) (second value after)
    | error reason after => exact first.halted

/-- Taking a failure in hand is safe as long as a fatal one is only handed on. -/
private theorem aborted_catching {traced : Traced α} {next : Except ParseError α → Traced β}
    (inner : Aborted (traced state)) (onValue : ∀ value state, Aborted (next (.ok value) state))
    (onSoft : ∀ error, error.isFatal = false → ∀ state, Aborted (next (.error error) state))
    (onFatal : ∀ error, error.isFatal = true → Echoing error (next (.error error))) :
    Aborted ((traced.attempt >>= next) state) := by
  rw [bind_run]
  unfold attempt
  cases ran : traced state with
  | mk log result =>
    rw [ran] at inner
    cases result with
    | ok value after =>
      exact .append (inner.harmless fun _ _ => not_refuses_ok) (onValue value after)
    | error reason after =>
      cases reason with
      | failed error =>
        cases fatal : error.isFatal with
        | true =>
          obtain ⟨echoes, refuses⟩ := onFatal error fatal after
          exact inner.echo echoes refuses
        | false =>
          refine .append (inner.harmless fun other grave refuses => ?_) (onSoft error fatal after)
          rw [eq_of_refuses refuses, fatal] at grave
          cases grave
      | misplaced fault => exact inner.halted
      | exhausted => exact inner.halted

/-- An answer of the cursor that is fatal ends the run. -/
private theorem aborted_reading {request : Cursor.Request}
    {operation : Cursor → Except LexError Token × Cursor}
    (replied : (state.cursor.exchange request).reply = .element (operation state.cursor).1) :
    Aborted (asking request (Parser.reading operation) state) := by
  refine ⟨List.pairwise_singleton _ _, fun event found error fatal => ?_⟩
  cases List.mem_singleton.1 found
  simp only [Event.fatal?, replied] at fatal
  split at fatal
  · rename_i failure same
    cases fatal
    refine .inl ⟨⟨(operation state.cursor).2, state.depth⟩, ?_⟩
    have answered : operation state.cursor = (.error failure, (operation state.cursor).2) :=
      Prod.ext (Cursor.Reply.element.inj same) rfl
    simp only [asking, Parser.reading]
    rw [answered]
  · cases fatal

private theorem aborted_peek : Aborted (peek state) := aborted_reading rfl

private theorem aborted_restore (ordinal : Nat) : Aborted (restore ordinal state) := by
  refine .clean fun event found => ?_
  cases List.mem_singleton.1 found
  exact Event.fatal?_restore state.cursor ordinal

private theorem aborted_pointer : Aborted (pointer state) := by
  refine .clean fun event found => ?_
  cases List.mem_singleton.1 found
  rfl

private theorem aborted_nested {traced : Traced α} {limit : Nat}
    (inner : ∀ state, Aborted (traced state)) : Aborted (traced.nested limit state) := by
  unfold nested
  split
  · exact aborted_bind aborted_peek fun _ _ => .clean (by rintro _ ⟨⟩)
  · have aborted := inner { state with depth := state.depth + 1 }
    cases ran : traced { state with depth := state.depth + 1 } with
    | mk log result =>
      rw [ran] at aborted
      cases result with
      | ok value after => exact .clean (aborted.harmless fun _ _ => not_refuses_ok)
      | error reason after => exact aborted.halted

private theorem aborted_invoke {traced : Traced α} (inner : ∀ state, Aborted (traced state)) :
    Aborted (traced.invoke state) := by
  have marked : ∀ {event : ParserState → Event}, (∀ state, (event state).fatal? = none) →
      ∀ state, Aborted (record event state) := by
    intro event harmless state
    refine .clean fun found same => ?_
    cases List.mem_singleton.1 same
    exact harmless state
  have stopped : ∀ {γ : Type} {result : EStateM.Result Halt ParserState γ}, Aborted ([], result) :=
    .clean (by rintro _ ⟨⟩)
  refine aborted_bind (marked (fun _ => rfl) state) fun _ state => aborted_bind aborted_pointer
    fun start state => aborted_catching (inner state) ?_ ?_ ?_
  · exact fun value state => aborted_bind (marked (fun _ => rfl) state) fun _ _ => stopped
  · intro error soft state
    refine aborted_bind (aborted_restore start) fun _ state => ?_
    refine aborted_bind (marked (fun _ => ?_) state) fun _ _ => stopped
    simp only [Event.fatal?, soft, Bool.false_eq_true, if_false]
  · exact fun error _ => ((echoing_fail error).leaving).restoring start

end

/-- Every operation ends with the first fatal failure in it. -/
theorem aborted_closed :
    Closed (fun _ => True) fun traced => ∀ state, Aborted (traced state) where
  pure _ _ := .clean (by rintro _ ⟨⟩)
  bind first second state := aborted_bind (first state) second
  peek _ := aborted_peek
  advance _ := aborted_reading rfl
  pointer _ := aborted_pointer
  restore ordinal _ := aborted_restore ordinal
  halt _ _ := .clean (by rintro _ ⟨⟩)
  catching inner onValue onSoft onFatal state :=
    aborted_catching (inner state) onValue onSoft fun error fatal =>
      echoing_of_raises (onFatal error fatal)
  invoke inner _ := aborted_invoke inner
  nested _ inner _ := aborted_nested inner

end Traced

/-- In every run of a rule only echoes follow a fatal failure. -/
theorem Rule.trace_aborted (grammar : Grammar Γ) (rule : Rule Γ α) (budget : Nat)
    (state : ParserState) : Traced.Aborted (rule.trace grammar budget state) :=
  have closed := Traced.aborted_closed
  closed.invoke (closed.rule (fun _ _ _ => trivial) budget rule fun _ _ => trivial) state

/-- What brings a fatal failure into a run is followed by its echoes, and the run ends
with it. -/
theorem Rule.echoes_of_fatal? (grammar : Grammar Γ) (rule : Rule Γ α) {text : List Char}
    {state : ParserState} (reachable : state.Reachable text) (budget : Nat)
    {earlier later : List Event} {event : Event} {error : ParseError}
    (fatal : event.fatal? = some error)
    (log : (rule.trace grammar budget state).1 = earlier ++ event :: later) :
    (∀ event ∈ later, event.Echoes error) ∧
      ∃ after, rule.parse grammar budget state = .error (.failed error) after := by
  have aborted := rule.trace_aborted grammar budget state
  have echoed := aborted.echoed
  rw [log] at echoed
  have behind := List.pairwise_cons.1 (List.pairwise_append.1 echoed).2.1
  refine ⟨fun other found => behind.1 other found error fatal, ?_⟩
  have refuses := aborted.ended event (by rw [log]; simp) error fatal
  rw [rule.trace_mirrors grammar budget state] at refuses
  rcases refuses with failed | ⟨fault, after, misplaced⟩
  · exact failed
  · exact absurd misplaced (rule.parse_placed grammar reachable budget fault after)

/-- A fatal failure ends the run around it and is its outcome. Whether a rule inside the
run has ended with it, however deep, or the cursor has answered with it, nothing follows
but the same failure, and no rule is invoked any more. -/
theorem Rule.parse_of_fatal (grammar : Grammar Γ) (rule : Rule Γ α) {text : List Char}
    {state : ParserState} (reachable : state.Reachable text) (budget : Nat) :
    (rule.trace grammar budget state).2 = rule.parse grammar budget state ∧
    (∀ earlier error later, error.isFatal = true →
      (rule.trace grammar budget state).1 = earlier ++ .leave (some error) :: later →
      (∀ event ∈ later, event.Echoes error) ∧
        ∃ after, rule.parse grammar budget state = .error (.failed error) after) ∧
    ∀ earlier exchange failure later, exchange.reply = .element (.error failure) →
      (rule.trace grammar budget state).1 = earlier ++ .exchange exchange :: later →
      (∀ event ∈ later, event.Echoes (.ofLexError failure)) ∧
        ∃ after,
          rule.parse grammar budget state = .error (.failed (.ofLexError failure)) after := by
  refine ⟨rule.trace_mirrors grammar budget state, ?_, ?_⟩
  · intro earlier error later fatal log
    have brought : (Event.leave (some error)).fatal? = some error := by
      simp only [Event.fatal?, fatal, if_true]
    exact rule.echoes_of_fatal? grammar reachable budget brought log
  · intro earlier exchange failure later replied log
    have brought : (Event.exchange exchange).fatal? = some (.ofLexError failure) := by
      simp only [Event.fatal?, replied]
    exact rule.echoes_of_fatal? grammar reachable budget brought log

/-- A choice whose first alternative comes upon a character that begins no lexeme. The
second one would match, and is not invoked. -/
theorem Rule.parse_of_fatal_choice :
    let rule : Rule (fun _ : Unit => Token) (Option Token) :=
      .optional (.choice "item" (.orElse (.map Prod.fst (.pair (.ref ()) (.token .comma)))
        (.last (.ref ()))))
    let grammar : Grammar (fun _ : Unit => Token) := fun _ => .token .identifier
    let state : ParserState := .ofText ['a', ' ', '$']
    let error : ParseError := .ofLexError ⟨⟨2, 1, 3⟩, '$'⟩
    ∃ earlier later,
      (rule.trace grammar 6 state).1 = earlier ++ .leave (some error) :: later ∧
      (∀ event ∈ later, event.Echoes error) ∧
      ∃ after, rule.parse grammar 6 state = .error (.failed error) after := by
  intro rule grammar state error
  let log := (rule.trace grammar 6 state).1
  have split : log = log.take 21 ++ .leave (some error) :: log.drop 22 := rfl
  exact ⟨_, _, split, (parse_of_fatal grammar rule ⟨[], rfl⟩ 6).2.1 _ _ _ rfl split⟩

end SchemaLang
