import SchemaLang.Proofs.Running
import SchemaLang.Proofs.Tracing

/-! Laws of runs. A law that a few operations keep is one of every rule: what looks,
moves, goes back or ends a run, what takes a failure in hand, and what invokes a rule or
opens a level. The first law says what a run may do to its state at all. It works on the
cursor through requests only, closes the levels it opens, opens none past their limits,
and is over as soon as a request to go back is refused. -/
namespace SchemaLang

variable {κ : Type} {Γ : κ → Type} {α β : Type}

/-! ## Nesting limits -/

mutual

/-- The limits up to which a rule nests what is inside it. Names are not followed. -/
def Rule.limits {α : Type} : Rule Γ α → List Nat
  | .token _ => []
  | .keyword _ => []
  | .map _ rule => rule.limits
  | .sequence steps => steps.limits
  | .choice _ alternatives => alternatives.limits
  | .optional rule => rule.limits
  | .zeroOrMore rule => rule.limits
  | .separated rule separator => rule.limits ++ separator.limits
  | .takeUntil rule _ => rule.limits
  | .withMessage _ rule => rule.limits
  | .nested limit rule => limit :: rule.limits
  | .ref _ => []

/-- The limits inside the parts of a sequence. -/
def Steps.limits {α : Type} : Steps Γ α → List Nat
  | .last rule => rule.limits
  | .next rule others => rule.limits ++ others.limits

/-- The limits inside the alternatives of a choice. -/
def Alternatives.limits {α : Type} : Alternatives Γ α → List Nat
  | .last rule => rule.limits
  | .orElse rule others => rule.limits ++ others.limits

end

/-- What is true of the rules behind all alternatives is true of the alternatives. -/
theorem Alternatives.traced_all {run : {α : Type} → Rule Γ α → Traced α} {allowed : Nat → Prop}
    {holds : {α : Type} → Traced α → Prop} {α : Type} :
    (alternatives : Alternatives Γ α) → (∀ limit ∈ alternatives.limits, allowed limit) →
    (∀ {α : Type} (rule : Rule Γ α), (∀ limit ∈ rule.limits, allowed limit) → holds (run rule)) →
    ∀ alternative ∈ alternatives.traced run, holds alternative
  | .last rule, within, inner => by
    intro alternative found
    cases List.mem_singleton.1 found
    exact inner rule within
  | .orElse rule others, within, inner => by
    intro alternative found
    rcases List.mem_cons.1 found with rfl | later
    · exact inner rule fun limit found => within limit (List.mem_append_left _ found)
    · exact others.traced_all (fun limit found => within limit (List.mem_append_right _ found))
        inner alternative later

namespace Traced

/-- Ends in a failure at once, or after going back. -/
def Raises (error : ParseError) (traced : Traced α) : Prop :=
  traced = fail error ∨ ∃ pointer, traced = restore pointer >>= fun _ => fail error

/-- A property that the operations have, or hand on, out of which rules are made. A
failure is taken in hand only to go on after one that is not fatal; a fatal one is
raised again. -/
structure Closed (allowed : Nat → Prop) (holds : {α : Type} → Traced α → Prop) : Prop where
  pure : ∀ {α : Type} (value : α), holds (Pure.pure value : Traced α)
  bind : ∀ {α β : Type} {traced : Traced α} {next : α → Traced β}, holds traced →
    (∀ value, holds (next value)) → holds (traced >>= next)
  peek : holds peek
  advance : holds advance
  pointer : holds pointer
  restore : ∀ pointer, holds (restore pointer)
  halt : ∀ {α : Type} (reason : Halt), holds (halt reason : Traced α)
  catching : ∀ {α β : Type} {traced : Traced α} {next : Except ParseError α → Traced β},
    holds traced → (∀ value, holds (next (.ok value))) →
    (∀ error, error.isFatal = false → holds (next (.error error))) →
    (∀ error, error.isFatal = true → (next (.error error)).Raises error) →
    holds (traced.attempt >>= next)
  invoke : ∀ {α : Type} {traced : Traced α}, holds traced → holds traced.invoke
  nested : ∀ {α : Type} {traced : Traced α} {limit : Nat}, allowed limit → holds traced →
    holds (traced.nested limit)

namespace Closed

variable {allowed : Nat → Prop} {holds : {α : Type} → Traced α → Prop}
  (closed : Closed allowed holds)

include closed

theorem fail (error : ParseError) : holds (Traced.fail error : Traced α) :=
  closed.halt _

theorem map {traced : Traced α} (inner : holds traced) (change : α → β) :
    holds (change <$> traced) :=
  closed.bind inner fun _ => closed.pure _

private theorem recovered (outcome : Except ParseError α) : holds (recovered outcome) := by
  cases outcome with
  | ok value => exact closed.pure _
  | error error =>
    simp only [Traced.recovered]
    split
    · exact closed.fail error
    · exact closed.pure none

/-- A part whose failure counts as its absence, unless it is fatal. -/
private theorem recovering {traced : Traced α} (inner : holds traced) {next : Option α → Traced β}
    (goesOn : ∀ part, holds (next part)) :
    holds (traced.attempt >>= fun outcome => Traced.recovered outcome >>= next) := by
  refine closed.catching inner ?_ ?_ ?_
  · exact fun value => closed.bind (closed.recovered _) goesOn
  · exact fun error _ => closed.bind (closed.recovered _) goesOn
  · intro error fatal
    refine .inl ?_
    simp only [Traced.recovered, fatal, if_true]
    rfl

theorem token (kind : TokenKind) : holds (token kind) := by
  refine closed.bind closed.peek fun next => ?_
  split
  · exact closed.advance
  · exact closed.fail _

theorem keyword (word : String) : holds (keyword word) := by
  refine closed.bind closed.peek fun next => ?_
  split
  · exact closed.advance
  · exact closed.fail _

theorem firstOf {alternatives : List (Traced α)}
    (inner : ∀ alternative ∈ alternatives, holds alternative) (furthest : ParseError) :
    holds (firstOf furthest alternatives) := by
  induction alternatives generalizing furthest with
  | nil => exact closed.fail furthest
  | cons first others ih =>
    have later := fun error => ih (fun other found => inner other (List.mem_cons_of_mem _ found))
      (furthest.furthest error)
    refine closed.catching (inner first List.mem_cons_self) ?_ ?_ ?_
    · exact fun value => closed.pure value
    · intro error soft
      simp only [soft, Bool.false_eq_true, if_false]
      exact later error
    · intro error fatal
      simp only [fatal, if_true]
      exact .inl rfl

theorem choice {alternatives : List (Traced α)}
    (inner : ∀ alternative ∈ alternatives, holds alternative) (message : String) :
    holds (choice message alternatives) :=
  closed.bind closed.peek fun _ => closed.firstOf inner _

theorem optional {traced : Traced α} (inner : holds traced) : holds traced.optional := by
  refine closed.catching inner ?_ ?_ ?_
  · exact fun value => closed.recovered _
  · exact fun error _ => closed.recovered _
  · intro error fatal
    simp only [Traced.recovered, fatal, if_true]
    exact .inl rfl

theorem zeroOrMore {traced : Traced α} (inner : holds traced) (budget : Nat) :
    holds (traced.zeroOrMore budget) := by
  induction budget with
  | zero => exact closed.halt _
  | succ budget ih =>
    refine closed.bind closed.pointer fun before => closed.recovering inner fun part => ?_
    cases part with
    | none => exact closed.pure _
    | some value =>
      refine closed.bind closed.pointer fun now => ?_
      split
      · exact closed.pure _
      · exact closed.bind ih fun _ => closed.pure _

theorem separatedTail {traced : Traced α} {separator : Traced β} (inner : holds traced)
    (between : holds separator) (budget : Nat) : holds (traced.separatedTail separator budget) := by
  induction budget with
  | zero => exact closed.halt _
  | succ budget ih =>
    refine closed.bind closed.pointer fun before => ?_
    refine closed.catching (closed.bind between fun _ => inner) ?_ ?_ ?_
    · exact fun value => closed.bind ih fun _ => closed.pure _
    · intro error soft
      simp only [soft, Bool.false_eq_true, if_false]
      exact closed.bind (closed.restore before) fun _ => closed.pure _
    · intro error fatal
      simp only [fatal, if_true]
      exact .inr ⟨before, rfl⟩

theorem separated {traced : Traced α} {separator : Traced β} (inner : holds traced)
    (between : holds separator) (budget : Nat) : holds (traced.separated separator budget) := by
  refine closed.recovering inner fun part => ?_
  cases part with
  | none => exact closed.pure _
  | some first =>
    exact closed.bind (closed.separatedTail inner between budget) fun _ => closed.pure _

theorem takeUntil {traced : Traced α} (inner : holds traced) (stop : TokenKind) (budget : Nat) :
    holds (traced.takeUntil stop budget) := by
  induction budget with
  | zero => exact closed.halt _
  | succ budget ih =>
    refine closed.bind closed.peek fun next => ?_
    split
    · exact closed.bind closed.advance fun _ => closed.pure _
    · refine closed.bind closed.pointer fun before => closed.bind inner fun value =>
        closed.bind closed.pointer fun now => ?_
      split
      · exact closed.fail _
      · exact closed.bind ih fun _ => closed.pure _

theorem withMessage {traced : Traced α} (inner : holds traced) (message : String) :
    holds (traced.withMessage message) := by
  refine closed.catching inner ?_ ?_ ?_
  · exact fun value => closed.pure value
  · exact fun error _ => closed.fail _
  · intro error fatal
    simp only [fatal, if_true]
    exact .inl rfl

theorem steps {run : {α : Type} → Rule Γ α → Traced α} {α : Type} :
    (steps : Steps Γ α) → (∀ limit ∈ steps.limits, allowed limit) →
    (∀ {α : Type} (rule : Rule Γ α), (∀ limit ∈ rule.limits, allowed limit) → holds (run rule)) →
    holds (steps.traced run)
  | .last rule, within, inner => inner rule within
  | .next rule others, within, inner =>
    closed.bind (inner rule fun limit found => within limit (List.mem_append_left _ found)) fun _ =>
      closed.bind (steps others (fun limit found => within limit (List.mem_append_right _ found))
        inner) fun _ => closed.pure _

/-- What the operations hand on is true of all rules. -/
theorem rule {grammar : Grammar Γ}
    (names : ∀ name, ∀ limit ∈ (grammar name).limits, allowed limit) (budget : Nat) {α : Type}
    (rule : Rule Γ α) (within : ∀ limit ∈ rule.limits, allowed limit) :
    holds (rule.traced grammar budget) := by
  induction budget generalizing α with
  | zero => cases rule <;> exact closed.halt _
  | succ budget ih =>
    have inner : ∀ {α : Type} (rule : Rule Γ α), (∀ limit ∈ rule.limits, allowed limit) →
        holds (rule.traced grammar budget).invoke :=
      fun rule within => closed.invoke (ih rule within)
    cases rule with
    | token kind => exact closed.token kind
    | keyword word => exact closed.keyword word
    | map change rule => exact closed.map (inner rule within) change
    | sequence steps => exact closed.steps steps within inner
    | choice message alternatives =>
      exact closed.choice (alternatives.traced_all within inner) message
    | optional rule => exact closed.optional (inner rule within)
    | zeroOrMore rule => exact closed.zeroOrMore (inner rule within) budget
    | separated rule separator =>
      exact closed.separated
        (inner rule fun limit found => within limit (List.mem_append_left _ found))
        (inner separator fun limit found => within limit (List.mem_append_right _ found)) budget
    | takeUntil rule stop => exact closed.takeUntil (inner rule within) stop budget
    | withMessage message rule => exact closed.withMessage (inner rule within) message
    | nested limit rule =>
      exact closed.nested (within limit List.mem_cons_self)
        (inner rule fun limit found => within limit (List.mem_cons_of_mem _ found))
    | ref name => exact inner (grammar name) (names name)

end Closed

/-! ## Orderly runs -/

/-- The state in which a run stops. -/
def final : EStateM.Result Halt ParserState α → ParserState
  | .ok _ after => after
  | .error _ after => after

/-- What a cursor is asked in the course of a run. -/
def exchanges (log : List Event) : List Cursor.Exchange :=
  log.filterMap fun
    | .exchange exchange => some exchange
    | _ => none

@[simp] theorem mem_exchanges {log : List Event} {exchange : Cursor.Exchange} :
    exchange ∈ exchanges log ↔ .exchange exchange ∈ log := by
  simp only [exchanges, List.mem_filterMap]
  constructor
  · rintro ⟨event, found, same⟩
    cases event with
    | exchange other => cases same; exact found
    | _ => cases same
  · exact fun found => ⟨_, found, rfl⟩

/-- A run closes the levels it opens and works on its cursor through requests alone. It
ends with the first request to go back that is refused, and the depths at which it
invokes rules stay within bounds. -/
structure Orderly (bound : Nat → Prop) (state : ParserState)
    (run : List Event × EStateM.Result Halt ParserState α) : Prop where
  depth : (final run.2).depth = state.depth
  asked : ∃ requests, exchanges run.1 = state.cursor.session requests ∧
    (final run.2).cursor = state.cursor.after requests
  refused : ∀ exchange fault, .exchange exchange ∈ run.1 → exchange.reply = .refused fault →
    ∃ after, run.2 = .error (.misplaced fault) after
  levels : bound state.depth → ∀ inner, .enter inner ∈ run.1 → bound inner.depth

section

variable {bound : Nat → Prop} {state middle : ParserState}

/-- A run that does nothing with its cursor and invokes nothing. -/
private theorem Orderly.still {result : EStateM.Result Halt ParserState α} {log : List Event}
    (stays : final result = state) (silent : exchanges log = [])
    (levels : ∀ inner, .enter inner ∈ log → inner = state) :
    Orderly bound state (log, result) where
  depth := by rw [stays]
  asked := ⟨[], silent, by rw [stays]; rfl⟩
  refused exchange fault found := by
    rw [← mem_exchanges, silent] at found
    cases found
  levels low inner found := by rw [levels inner found]; exact low

/-- One orderly run behind another is an orderly run. -/
private theorem Orderly.trans {log others : List Event} {value : α}
    {result : EStateM.Result Halt ParserState β}
    (first : Orderly bound state (log, EStateM.Result.ok value middle))
    (second : Orderly bound middle (others, result)) :
    Orderly bound state (log ++ others, result) where
  depth := second.depth.trans first.depth
  asked := by
    obtain ⟨requests, listed, stopped⟩ := first.asked
    obtain ⟨further, listed', stopped'⟩ := second.asked
    have here : middle.cursor = state.cursor.after requests := stopped
    rw [here] at listed' stopped'
    refine ⟨requests ++ further, ?_, by rw [Cursor.after_append]; exact stopped'⟩
    rw [Cursor.session_append, ← listed, ← listed', exchanges, List.filterMap_append]
    rfl
  refused exchange fault found same := by
    rcases List.mem_append.1 found with earlier | later
    · obtain ⟨after, ended⟩ := first.refused exchange fault earlier same
      cases ended
    · exact second.refused exchange fault later same
  levels low inner found := by
    rcases List.mem_append.1 found with earlier | later
    · exact first.levels low inner earlier
    · have deep : middle.depth = state.depth := first.depth
      exact second.levels (deep ▸ low) inner later

/-- Asking the cursor once is in order, if the parser does with its cursor what was
asked and halts when it is refused. -/
private theorem orderly_asking {request : Cursor.Request} {parser : Parser α}
    (depth : (final (parser state)).depth = state.depth)
    (cursor : (final (parser state)).cursor = (state.cursor.exchange request).after)
    (refused : ∀ fault, (state.cursor.exchange request).reply = .refused fault →
      ∃ after, parser state = .error (.misplaced fault) after) :
    Orderly bound state (asking request parser state) where
  depth := depth
  asked := ⟨[request], rfl, cursor⟩
  refused exchange fault found same := by
    cases List.mem_singleton.1 found
    exact refused fault same
  levels _ inner found := by cases List.mem_singleton.1 found

private theorem orderly_peek : Orderly bound state (peek state) := by
  refine orderly_asking ?_ ?_ ?_
  all_goals simp only [Parser.peek, Parser.reading, Cursor.exchange]
  · split <;> rfl
  · split <;> (rename_i looked; rw [looked]; rfl)
  · rintro _ ⟨⟩

private theorem orderly_advance : Orderly bound state (advance state) := by
  refine orderly_asking ?_ ?_ ?_
  all_goals simp only [Parser.advance, Parser.reading, Cursor.exchange]
  · split <;> rfl
  · split <;> (rename_i looked; rw [looked]; rfl)
  · rintro _ ⟨⟩

private theorem orderly_restore (pointer : Nat) : Orderly bound state (restore pointer state) := by
  refine orderly_asking ?_ ?_ ?_
  all_goals simp only [Parser.restore, Cursor.exchange]
  · cases state.cursor.restore pointer <;> rfl
  · cases state.cursor.restore pointer <;> rfl
  · cases state.cursor.restore pointer with
    | ok after => rintro _ ⟨⟩
    | error fault =>
      rintro _ ⟨⟩
      exact ⟨state, rfl⟩

/-- What a run ends with may be changed, unless its cursor was misplaced. -/
private theorem Orderly.ending {log : List Event} {result : EStateM.Result Halt ParserState α}
    {other : EStateM.Result Halt ParserState β} (inner : Orderly bound state (log, result))
    (stops : final other = final result)
    (misplaced : ∀ fault after, result = .error (.misplaced fault) after →
      ∃ after, other = .error (.misplaced fault) after) : Orderly bound state (log, other) where
  depth := by rw [stops]; exact inner.depth
  asked := by rw [stops]; exact inner.asked
  refused exchange fault found same := by
    obtain ⟨after, ended⟩ := inner.refused exchange fault found same
    exact misplaced fault after ended
  levels := inner.levels

private theorem orderly_bind {traced : Traced α} {next : α → Traced β}
    (first : Orderly bound state (traced state))
    (second : ∀ value middle, Orderly bound middle (next value middle)) :
    Orderly bound state ((traced >>= next) state) := by
  rw [bind_run]
  cases ran : traced state with
  | mk log result =>
    rw [ran] at first
    cases result with
    | ok value after => exact first.trans (second value after)
    | error halt after =>
      refine first.ending rfl ?_
      rintro _ _ ⟨⟩
      exact ⟨_, rfl⟩

private theorem orderly_attempt {traced : Traced α} (inner : Orderly bound state (traced state)) :
    Orderly bound state (traced.attempt state) := by
  unfold attempt
  cases ran : traced state with
  | mk log result =>
    rw [ran] at inner
    cases result with
    | ok value after =>
      refine inner.ending rfl ?_
      rintro _ _ ⟨⟩
    | error halt after =>
      cases halt with
      | failed error =>
        refine inner.ending rfl ?_
        rintro _ _ ⟨⟩
      | misplaced fault =>
        refine inner.ending rfl ?_
        rintro _ _ ⟨⟩
        exact ⟨after, rfl⟩
      | exhausted =>
        refine inner.ending rfl ?_
        rintro _ _ ⟨⟩

private theorem orderly_nested {traced : Traced α} {limit : Nat}
    (allowed : ∀ depth < limit, bound (depth + 1))
    (inner : ∀ state, Orderly bound state (traced state)) :
    Orderly bound state (traced.nested limit state) := by
  unfold nested
  split
  · exact orderly_bind orderly_peek fun _ _ => .still rfl rfl (by rintro _ ⟨⟩)
  · rename_i room
    have ordered := inner { state with depth := state.depth + 1 }
    cases ran : traced { state with depth := state.depth + 1 } with
    | mk log result =>
      rw [ran] at ordered
      have deep := ordered.levels (allowed state.depth (Nat.lt_of_not_le room))
      cases result with
      | ok value after =>
        refine ⟨Nat.sub_eq_of_eq_add ordered.depth, ordered.asked, ?_, fun _ => deep⟩
        intro exchange fault found same
        obtain ⟨_, ⟨⟩⟩ := ordered.refused exchange fault found same
      | error halt after =>
        refine ⟨Nat.sub_eq_of_eq_add ordered.depth, ordered.asked, ?_, fun _ => deep⟩
        intro exchange fault found same
        obtain ⟨_, ended⟩ := ordered.refused exchange fault found same
        cases ended
        exact ⟨_, rfl⟩

/-- Raising a failure again is in order. -/
private theorem orderly_raises {traced : Traced α} {error : ParseError}
    (raises : traced.Raises error) : Orderly bound state (traced state) := by
  rcases raises with rfl | ⟨pointer, rfl⟩
  · exact .still rfl rfl (by rintro _ ⟨⟩)
  · exact orderly_bind (orderly_restore pointer) fun _ _ => .still rfl rfl (by rintro _ ⟨⟩)

private theorem orderly_invoke {traced : Traced α}
    (inner : ∀ state, Orderly bound state (traced state)) :
    Orderly bound state (traced.invoke state) := by
  have entered : Orderly bound state (record .enter state) := by
    refine .still rfl rfl fun inner found => ?_
    cases List.mem_singleton.1 found
    rfl
  have left : ∀ failure state, Orderly bound state (record (fun _ => .leave failure) state) :=
    fun failure state => .still rfl rfl fun inner found => by cases List.mem_singleton.1 found
  have pointed : ∀ state, Orderly bound state (pointer state) :=
    fun state => orderly_asking rfl rfl (by rintro _ ⟨⟩)
  refine orderly_bind entered fun _ state => orderly_bind (pointed state) fun start state =>
    orderly_bind (orderly_attempt (inner state)) fun outcome state => ?_
  cases outcome with
  | ok value => exact orderly_bind (left none state) fun _ _ => .still rfl rfl (by rintro _ ⟨⟩)
  | error error =>
    refine orderly_bind (orderly_restore start) fun _ state => ?_
    exact orderly_bind (left (some error) state) fun _ _ => .still rfl rfl (by rintro _ ⟨⟩)

end

/-- Every operation is in order as long as levels are opened within bounds. -/
theorem orderly_closed (bound : Nat → Prop) :
    Closed (fun limit => ∀ depth < limit, bound (depth + 1))
      fun traced => ∀ state, Orderly bound state (traced state) where
  pure _ _ := .still rfl rfl (by rintro _ ⟨⟩)
  bind first second state := orderly_bind (first state) second
  peek _ := orderly_peek
  advance _ := orderly_advance
  pointer _ := orderly_asking rfl rfl (by rintro _ ⟨⟩)
  restore pointer _ := orderly_restore pointer
  halt _ _ := .still rfl rfl (by rintro _ ⟨⟩)
  catching inner onValue onSoft onFatal state := by
    refine orderly_bind (orderly_attempt (inner state)) fun outcome state => ?_
    cases outcome with
    | ok value => exact onValue value state
    | error error =>
      cases fatal : error.isFatal with
      | true => exact orderly_raises (onFatal error fatal)
      | false => exact onSoft error fatal state
  invoke inner _ := orderly_invoke inner
  nested allowed inner _ := orderly_nested allowed inner

end Traced

/-- Every run of a rule is in order. The depths of the rules it invokes are bounded by
what its nesting limits allow. -/
theorem Rule.trace_orderly (grammar : Grammar Γ) (rule : Rule Γ α) (bound : Nat → Prop)
    (names : ∀ name, ∀ limit ∈ (grammar name).limits, ∀ depth < limit, bound (depth + 1))
    (within : ∀ limit ∈ rule.limits, ∀ depth < limit, bound (depth + 1)) (budget : Nat)
    (state : ParserState) :
    Traced.Orderly bound state (rule.trace grammar budget state) :=
  have closed := Traced.orderly_closed bound
  closed.invoke (closed.rule names budget rule within) state

end SchemaLang
