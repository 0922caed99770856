import Mathlib.Data.List.Forall2
import SchemaLang.Proofs.Session
import SchemaLang.Rule

/-! Runs on record. Every operation of a parser has a form here that also writes down
what it does: which rules begin and end, and what the cursor is asked. Leaving the
record out gives the parsers of the library back, so whatever is found on record is
what these do. -/
namespace SchemaLang

variable {κ : Type} {Γ : κ → Type} {α β γ δ : Type}

/-- What happens in a run. -/
inductive Event where
  /-- A rule begins to run, in a state. -/
  | enter (state : ParserState)
  /-- A rule that was running ends, with a value or with a failure. -/
  | leave (failure : Option ParseError)
  /-- The cursor is asked, and replies. -/
  | exchange (exchange : Cursor.Exchange)

/-- A parser with the record of its run. -/
def Traced (α : Type) := ParserState → List Event × EStateM.Result Halt ParserState α

namespace Traced

instance : Monad Traced where
  pure value := fun state => ([], .ok value state)
  bind traced next := fun state =>
    match traced state with
    | (log, .ok value after) =>
      let (others, result) := next value after
      (log ++ others, result)
    | (log, .error halt after) => (log, .error halt after)

/-! ## Operations -/

/-- A parser that asks the cursor once. -/
def asking (request : Cursor.Request) (parser : Parser α) : Traced α := fun state =>
  ([.exchange (state.cursor.exchange request)], parser state)

/-- Looks at the next token. -/
def peek : Traced Token := asking .peek .peek

/-- Takes the next token. -/
def advance : Traced Token := asking .advance .advance

/-- The ordinal of the next token. -/
def pointer : Traced Nat := asking .pointer .pointer

/-- Goes to an ordinal that has been read before. -/
def restore (pointer : Nat) : Traced Unit := asking (.restore pointer) (.restore pointer)

/-- Puts an event on record. -/
def record (event : ParserState → Event) : Traced Unit := fun state => ([event state], .ok () state)

/-- Ends the run. -/
def halt (reason : Halt) : Traced α := fun state => ([], .error reason state)

/-- Ends the run with a failure. -/
def fail (error : ParseError) : Traced α := halt (.failed error)

/-- Runs a parser and hands out its failure as a value. -/
def attempt (traced : Traced α) : Traced (Except ParseError α) := fun state =>
  match traced state with
  | (log, .ok value after) => (log, .ok (.ok value) after)
  | (log, .error (.failed error) after) => (log, .ok (.error error) after)
  | (log, .error halt after) => (log, .error halt after)

/-- Runs a rule, with its begin and its end on record, and goes back to where it began
if it fails. -/
def invoke (traced : Traced α) : Traced α := do
  record .enter
  let start ← pointer
  match ← traced.attempt with
  | .ok value =>
    record fun _ => .leave none
    return value
  | .error error =>
    restore start
    record fun _ => .leave (some error)
    fail error

/-- Runs a parser one level deeper. -/
def nested (limit : Nat) (traced : Traced α) : Traced α := fun state =>
  if limit ≤ state.depth then
    (do fail (.tooDeep (← peek).start) : Traced α) state
  else
    match traced { state with depth := state.depth + 1 } with
    | (log, .ok value after) => (log, .ok value { after with depth := after.depth - 1 })
    | (log, .error halt after) => (log, .error halt { after with depth := after.depth - 1 })

/-! ## Combinators -/

/-- The value of an optional part. -/
def recovered : Except ParseError α → Traced (Option α)
  | .ok value => pure (some value)
  | .error error => if error.isFatal then fail error else pure none

/-- One token of a kind. -/
def token (kind : TokenKind) : Traced Token := do
  let next ← peek
  if next.kind = kind then advance
  else fail (.mismatch ("Expected " ++ kind.description) next.start)

/-- One identifier with a given spelling. -/
def keyword (word : String) : Traced Token := do
  let next ← peek
  if next.kind = .identifier ∧ next.text = word then advance
  else fail (.mismatch ("Expected keyword " ++ word) next.start)

/-- The first alternative that matches. -/
def firstOf (furthest : ParseError) : List (Traced α) → Traced α
  | [] => fail furthest
  | alternative :: others => do
    match ← alternative.attempt with
    | .ok value => return value
    | .error error =>
      if error.isFatal then fail error else firstOf (furthest.furthest error) others

/-- A choice between alternatives. -/
def choice (message : String) (alternatives : List (Traced α)) : Traced α := do
  let next ← peek
  firstOf (.mismatch message next.start) alternatives

/-- A part or nothing. -/
def optional (traced : Traced α) : Traced (Option α) := do
  recovered (← traced.attempt)

/-- As many parts as there are. -/
def zeroOrMore (traced : Traced α) : Nat → Traced (List α)
  | 0 => halt .exhausted
  | budget + 1 => do
    let before ← pointer
    match ← recovered (← traced.attempt) with
    | none => return []
    | some value =>
      if (← pointer) = before then return [value]
      else return value :: (← zeroOrMore traced budget)

/-- The parts of a list after its first one. -/
def separatedTail (traced : Traced α) (separator : Traced β) : Nat → Traced (List α)
  | 0 => halt .exhausted
  | budget + 1 => do
    let before ← pointer
    match ← attempt (do let _ ← separator; traced) with
    | .ok value => return value :: (← separatedTail traced separator budget)
    | .error error =>
      restore before
      if error.isFatal then fail error else return []

/-- A list of parts with separators between them. -/
def separated (traced : Traced α) (separator : Traced β) (budget : Nat) : Traced (List α) := do
  match ← recovered (← traced.attempt) with
  | none => return []
  | some first => return first :: (← separatedTail traced separator budget)

/-- Parts up to a closing token. -/
def takeUntil (traced : Traced α) (stop : TokenKind) : Nat → Traced (List α × Token)
  | 0 => halt .exhausted
  | budget + 1 => do
    let next ← peek
    if next.kind = stop then
      return ([], ← advance)
    else
      let before ← pointer
      let value ← traced
      if (← pointer) = before then
        fail (.mismatch ("Expected " ++ stop.description) next.start)
      else
        let (values, close) ← takeUntil traced stop budget
        return (value :: values, close)

/-- Puts a failure that is not fatal into other words. -/
def withMessage (message : String) (traced : Traced α) : Traced α := do
  match ← traced.attempt with
  | .ok value => return value
  | .error error => fail (if error.isFatal then error else error.withMessage message)

end Traced

/-! ## Rules -/

/-- Runs the parts of a sequence in order. -/
def Steps.traced (run : {α : Type} → Rule Γ α → Traced α) {α : Type} : Steps Γ α → Traced α
  | .last rule => run rule
  | .next rule others => do
    let value ← run rule
    let values ← others.traced run
    return (value, values)

/-- The alternatives of a choice, in order. -/
def Alternatives.traced (run : {α : Type} → Rule Γ α → Traced α) {α : Type} :
    Alternatives Γ α → List (Traced α)
  | .last rule => [run rule]
  | .orElse rule others => run rule :: others.traced run

/-- Runs a rule on record, all rules inside it being invoked. -/
def Rule.traced (grammar : Grammar Γ) : Nat → {α : Type} → Rule Γ α → Traced α
  | 0, _, _ => .halt .exhausted
  | _ + 1, _, .token kind => .token kind
  | _ + 1, _, .keyword word => .keyword word
  | budget + 1, _, .map change rule => change <$> (traced grammar budget rule).invoke
  | budget + 1, _, .sequence steps => steps.traced fun rule => (traced grammar budget rule).invoke
  | budget + 1, _, .choice message alternatives =>
    .choice message (alternatives.traced fun rule => (traced grammar budget rule).invoke)
  | budget + 1, _, .optional rule => .optional (traced grammar budget rule).invoke
  | budget + 1, _, .zeroOrMore rule => .zeroOrMore (traced grammar budget rule).invoke budget
  | budget + 1, _, .separated rule separator =>
    .separated (traced grammar budget rule).invoke (traced grammar budget separator).invoke budget
  | budget + 1, _, .takeUntil rule stop =>
    .takeUntil (traced grammar budget rule).invoke stop budget
  | budget + 1, _, .withMessage message rule =>
    .withMessage message (traced grammar budget rule).invoke
  | budget + 1, _, .nested limit rule => .nested limit (traced grammar budget rule).invoke
  | budget + 1, _, .ref name => (traced grammar budget (grammar name)).invoke

/-- The run of a rule from outside, with everything that happens in it. -/
def Rule.trace (grammar : Grammar Γ) (budget : Nat) (rule : Rule Γ α) : Traced α :=
  (rule.traced grammar budget).invoke

/-! ## Leaving the record out -/

namespace Traced

theorem bind_run (traced : Traced α) (next : α → Traced β) (state : ParserState) :
    (traced >>= next) state = match traced state with
      | (log, .ok value after) => (log ++ (next value after).1, (next value after).2)
      | (log, .error halt after) => (log, .error halt after) := rfl

/-- A traced parser that does what a parser does. -/
def Mirrors (traced : Traced α) (parser : Parser α) : Prop :=
  ∀ state, (traced state).2 = parser state

theorem mirrors_pure (value : α) : Mirrors (pure value) (pure value) := fun _ => rfl

theorem mirrors_asking (request : Cursor.Request) (parser : Parser α) :
    (asking request parser).Mirrors parser := fun _ => rfl

theorem mirrors_fail (error : ParseError) :
    Mirrors (fail error : Traced α) (Parser.fail error) := fun _ => rfl

theorem mirrors_exhausted : Mirrors (halt .exhausted : Traced α) (throw .exhausted) := fun _ => rfl

section

variable {traced : Traced α} {parser : Parser α}

theorem Mirrors.bind (same : traced.Mirrors parser) {next : α → Traced β} {further : α → Parser β}
    (goesOn : ∀ value, (next value).Mirrors (further value)) :
    (traced >>= next).Mirrors (parser >>= further) := by
  intro state
  show _ = EStateM.bind parser further state
  rw [bind_run, EStateM.bind, ← same state]
  cases ran : traced state with
  | mk log result =>
    cases result with
    | ok value after => exact goesOn value after
    | error halt after => rfl

theorem Mirrors.attempt (same : traced.Mirrors parser) :
    traced.attempt.Mirrors parser.attempt := by
  intro state
  rw [Traced.attempt, Parser.attempt, ← same state]
  cases ran : traced state with
  | mk log result =>
    cases result with
    | ok value after => rfl
    | error halt after => cases halt <;> rfl

theorem Mirrors.invoke (same : traced.Mirrors parser) : traced.invoke.Mirrors parser.rewinding := by
  intro state
  have unmarked : Mirrors
      (pointer >>= fun start => traced.attempt >>= fun outcome => match outcome with
        | .ok value => (record fun _ => .leave none) >>= fun _ => pure value
        | .error error => restore start >>= fun _ =>
            (record fun _ => .leave (some error)) >>= fun _ => fail error)
      parser.rewinding := by
    refine (mirrors_asking _ _).bind fun start => same.attempt.bind fun outcome => ?_
    cases outcome with
    | ok value => exact fun _ => rfl
    | error error => exact (mirrors_asking _ _).bind fun _ => fun _ => rfl
  exact unmarked state

theorem Mirrors.nested (same : traced.Mirrors parser) (limit : Nat) :
    (traced.nested limit).Mirrors (parser.nested limit) := by
  intro state
  unfold Traced.nested Parser.nested
  split
  · exact (mirrors_asking _ _).bind (fun _ => mirrors_fail _) state
  · rw [← same]
    cases traced { state with depth := state.depth + 1 } with
    | mk log result => cases result <;> rfl

theorem Mirrors.map (same : traced.Mirrors parser) (change : α → β) :
    (change <$> traced).Mirrors (change <$> parser) := by
  intro state
  show ((traced >>= fun value => pure (change value)) state).2 = EStateM.map change parser state
  rw [bind_run, EStateM.map, ← same state]
  cases traced state with
  | mk log result => cases result <;> rfl

theorem mirrors_recovered (outcome : Except ParseError α) :
    (recovered outcome).Mirrors (Parser.recovered outcome) := by
  cases outcome with
  | ok value => exact mirrors_pure _
  | error error =>
    simp only [recovered, Parser.recovered]
    split
    · exact mirrors_fail error
    · exact mirrors_pure none

theorem mirrors_token (kind : TokenKind) : (token kind).Mirrors (Parser.token kind) := by
  refine (mirrors_asking _ _).bind fun next => ?_
  split
  · exact mirrors_asking _ _
  · exact mirrors_fail _

theorem mirrors_keyword (word : String) : (keyword word).Mirrors (Parser.keyword word) := by
  refine (mirrors_asking _ _).bind fun next => ?_
  split
  · exact mirrors_asking _ _
  · exact mirrors_fail _

theorem mirrors_firstOf {alternatives : List (Traced α)} {parsers : List (Parser α)}
    (same : List.Forall₂ Mirrors alternatives parsers) (furthest : ParseError) :
    (firstOf furthest alternatives).Mirrors (Parser.firstOf furthest parsers) := by
  induction same generalizing furthest with
  | nil => exact mirrors_fail furthest
  | cons first _ ih =>
    refine first.attempt.bind fun outcome => ?_
    cases outcome with
    | ok value => exact mirrors_pure value
    | error error =>
      dsimp only
      split
      · exact mirrors_fail error
      · exact ih _

theorem mirrors_choice {alternatives : List (Traced α)} {parsers : List (Parser α)}
    (same : List.Forall₂ Mirrors alternatives parsers) (message : String) :
    (choice message alternatives).Mirrors (Parser.choice message parsers) :=
  (mirrors_asking _ _).bind fun _ => mirrors_firstOf same _

theorem Mirrors.optional (same : traced.Mirrors parser) :
    traced.optional.Mirrors parser.optional :=
  same.attempt.bind mirrors_recovered

theorem Mirrors.zeroOrMore (same : traced.Mirrors parser) (budget : Nat) :
    (traced.zeroOrMore budget).Mirrors (parser.zeroOrMore budget) := by
  induction budget with
  | zero => exact mirrors_exhausted
  | succ budget ih =>
    refine (mirrors_asking _ _).bind fun before => same.attempt.bind fun outcome =>
      (mirrors_recovered outcome).bind fun part => ?_
    cases part with
    | none => exact mirrors_pure _
    | some value =>
      refine (mirrors_asking _ _).bind fun now => ?_
      split
      · exact mirrors_pure _
      · exact ih.bind fun _ => mirrors_pure _

theorem Mirrors.separatedTail (same : traced.Mirrors parser) {separator : Traced β}
    {between : Parser β} (sameBetween : separator.Mirrors between) (budget : Nat) :
    (traced.separatedTail separator budget).Mirrors (parser.separatedTail between budget) := by
  induction budget with
  | zero => exact mirrors_exhausted
  | succ budget ih =>
    have both : Mirrors (do let _ ← separator; traced) (do let _ ← between; parser) :=
      sameBetween.bind fun _ => same
    refine (mirrors_asking _ _).bind fun before => both.attempt.bind fun outcome => ?_
    cases outcome with
    | ok value => exact ih.bind fun _ => mirrors_pure _
    | error error =>
      refine (mirrors_asking _ _).bind fun _ => ?_
      split
      · exact mirrors_fail error
      · exact mirrors_pure _

theorem Mirrors.separated (same : traced.Mirrors parser) {separator : Traced β}
    {between : Parser β} (sameBetween : separator.Mirrors between) (budget : Nat) :
    (traced.separated separator budget).Mirrors (parser.separated between budget) := by
  refine same.attempt.bind fun outcome => (mirrors_recovered outcome).bind fun part => ?_
  cases part with
  | none => exact mirrors_pure _
  | some first => exact (same.separatedTail sameBetween budget).bind fun _ => mirrors_pure _

theorem Mirrors.takeUntil (same : traced.Mirrors parser) (stop : TokenKind) (budget : Nat) :
    (traced.takeUntil stop budget).Mirrors (parser.takeUntil stop budget) := by
  induction budget with
  | zero => exact mirrors_exhausted
  | succ budget ih =>
    refine (mirrors_asking _ _).bind fun next => ?_
    split
    · exact (mirrors_asking _ _).bind fun _ => mirrors_pure _
    · refine (mirrors_asking _ _).bind fun before => same.bind fun value =>
        (mirrors_asking _ _).bind fun now => ?_
      split
      · exact mirrors_fail _
      · exact ih.bind fun _ => mirrors_pure _

theorem Mirrors.withMessage (same : traced.Mirrors parser) (message : String) :
    (traced.withMessage message).Mirrors (parser.withMessage message) := by
  refine same.attempt.bind fun outcome => ?_
  cases outcome with
  | ok value => exact mirrors_pure value
  | error error => exact mirrors_fail _

end

end Traced

section

variable {run : {α : Type} → Rule Γ α → Traced α} {parse : {α : Type} → Rule Γ α → Parser α}

theorem Steps.traced_mirrors
    (same : ∀ {α : Type} (rule : Rule Γ α), (run rule).Mirrors (parse rule)) {α : Type} :
    (steps : Steps Γ α) → (steps.traced run).Mirrors (steps.parser parse)
  | .last rule => same rule
  | .next rule others => (same rule).bind fun _ =>
      (Steps.traced_mirrors same others).bind fun _ => Traced.mirrors_pure _

theorem Alternatives.traced_mirrors
    (same : ∀ {α : Type} (rule : Rule Γ α), (run rule).Mirrors (parse rule)) {α : Type} :
    (alternatives : Alternatives Γ α) →
      List.Forall₂ Traced.Mirrors (alternatives.traced run) (alternatives.parsers parse)
  | .last rule => .cons (same rule) .nil
  | .orElse rule others => .cons (same rule) (Alternatives.traced_mirrors same others)

end

theorem Rule.traced_mirrors (grammar : Grammar Γ) (budget : Nat) {α : Type} (rule : Rule Γ α) :
    (rule.traced grammar budget).Mirrors (rule.apply grammar budget) := by
  induction budget generalizing α with
  | zero => cases rule <;> exact Traced.mirrors_exhausted
  | succ budget ih =>
    have inner : ∀ {α : Type} (rule : Rule Γ α),
        (rule.traced grammar budget).invoke.Mirrors (rule.apply grammar budget).rewinding :=
      fun rule => (ih rule).invoke
    cases rule with
    | token kind => exact Traced.mirrors_token kind
    | keyword word => exact Traced.mirrors_keyword word
    | map change rule => exact (inner rule).map change
    | sequence steps => exact steps.traced_mirrors inner
    | choice message alternatives =>
      exact Traced.mirrors_choice (alternatives.traced_mirrors inner) message
    | optional rule => exact (inner rule).optional
    | zeroOrMore rule => exact (inner rule).zeroOrMore budget
    | separated rule separator => exact (inner rule).separated (inner separator) budget
    | takeUntil rule stop => exact (inner rule).takeUntil stop budget
    | withMessage message rule => exact (inner rule).withMessage message
    | nested limit rule => exact (inner rule).nested limit
    | ref name => exact inner (grammar name)

/-- A run on record is the run. -/
theorem Rule.trace_mirrors (grammar : Grammar Γ) (budget : Nat) (rule : Rule Γ α) :
    (rule.trace grammar budget).Mirrors (rule.parse grammar budget) :=
  (rule.traced_mirrors grammar budget).invoke

end SchemaLang
