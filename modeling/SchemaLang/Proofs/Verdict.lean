import SchemaLang.Document.Grammar
import SchemaLang.Proofs.Expectation
import SchemaLang.Proofs.Reading

/-! What becomes of a feed, judged from left to right and without ever going back.
A feed is accepted, or stops at a terminal that may not stand there, or is refused
for good: where it cannot be scanned, or behind the parenthesis that opens one
level too many. A reading of a rule fits a verdict when both agree on all of this. -/
namespace SchemaLang

namespace Feed

/-- What the grammar sees of a feed. -/
def terminals : Feed → List Terminal
  | token first _ rest => first.terminal :: rest.terminals
  | finish _ => [.endOfInput]
  | fault _ => []

/-- The first terminal, if it can be scanned. -/
def head? : Feed → Option Terminal
  | token first _ _ => some first.terminal
  | finish _ => some .endOfInput
  | fault _ => none

theorem look_of_head? {feed : Feed} {terminal : Terminal} (front : feed.head? = some terminal) :
    ∃ first, feed.look = .ok first ∧ first.terminal = terminal := by
  cases feed with
  | token first proper rest => exact ⟨first, rfl, Option.some.inj front⟩
  | finish place => exact ⟨.endAt place, rfl, Option.some.inj front⟩
  | fault failure => cases front

theorem eq_fault_of_head? {feed : Feed} (nothing : feed.head? = none) :
    ∃ failure, feed = .fault failure := by
  cases feed with
  | token first proper rest => cases nothing
  | finish place => cases nothing
  | fault failure => exact ⟨failure, rfl⟩

/-- The failure of a list that nests too deeply and ends in front of the feed. -/
def overflow (feed : Feed) : ParseError :=
  match feed.look with
  | .ok first => .tooDeep first.start
  | .error failure => .ofLexError failure

end Feed

/-- How the judgement of a feed ends. -/
inductive Verdict where
  | accepted
  /-- A terminal may not stand where it does. -/
  | stuck
  /-- The text is refused with this failure, whatever else could be tried. -/
  | fatal (error : ParseError)
deriving DecidableEq

namespace Expectation

/-- Judges a feed, beginning with what is expected in front of it. -/
def verdict (expectation : Expectation) : Feed → Verdict
  | .fault failure => .fatal (.ofLexError failure)
  | .finish _ => if (expectation.step .endOfInput).isSome then .accepted else .stuck
  | .token first _ rest =>
    match expectation.step first.terminal with
    | none => .stuck
    | some next =>
      if Schema.maxCallDepth < next.opened then .fatal rest.overflow else next.verdict rest

theorem verdict_step {expectation next : Expectation} {first : Token}
    {proper : first.kind ≠ .endOfInput} {rest : Feed}
    (stepped : expectation.step first.terminal = some next)
    (room : next.opened ≤ Schema.maxCallDepth) :
    expectation.verdict (.token first proper rest) = next.verdict rest := by
  rw [verdict, stepped]
  exact if_neg (Nat.not_lt.2 room)

theorem verdict_overflow {expectation next : Expectation} {first : Token}
    {proper : first.kind ≠ .endOfInput} {rest : Feed}
    (stepped : expectation.step first.terminal = some next)
    (full : Schema.maxCallDepth < next.opened) :
    expectation.verdict (.token first proper rest) = .fatal rest.overflow := by
  rw [verdict, stepped]
  exact if_pos full

theorem verdict_stuck {expectation : Expectation} {feed : Feed} {terminal : Terminal}
    (front : feed.head? = some terminal) (blocked : expectation.step terminal = none) :
    expectation.verdict feed = .stuck := by
  cases feed with
  | token first proper rest =>
    cases front
    rw [verdict, blocked]
  | finish place =>
    cases front
    rw [verdict, blocked]
    rfl
  | fault failure => cases front

/-- Only a terminal can stand where it may not. -/
theorem head?_of_stuck {expectation : Expectation} {feed : Feed}
    (stuck : expectation.verdict feed = .stuck) : ∃ terminal, feed.head? = some terminal := by
  cases feed with
  | token first proper rest => exact ⟨_, rfl⟩
  | finish place => exact ⟨_, rfl⟩
  | fault failure => cases stuck

/-- Expectations that treat the front of a feed alike judge all of it alike. -/
theorem verdict_congr {first second : Expectation} {feed : Feed}
    (alike : ∀ terminal, feed.head? = some terminal → first.step terminal = second.step terminal) :
    first.verdict feed = second.verdict feed := by
  cases feed with
  | token token proper rest => rw [verdict, verdict, alike _ rfl]
  | finish place => rw [verdict, verdict, alike _ rfl]
  | fault failure => rfl

theorem verdict_alike {first second : Expectation} {feed : Feed} {terminal : Terminal}
    (front : feed.head? = some terminal) (alike : first.step terminal = second.step terminal) :
    first.verdict feed = second.verdict feed := by
  refine verdict_congr fun other found => ?_
  cases front.symm.trans found
  exact alike

end Expectation

variable {α β : Type}

namespace Reading

/-- The reading of a part fits the verdict on the feed in front of it: a value is
a phrase, and the verdict is that on the rest. The one way in which a value is no
such phrase is that the text was stuck further on, and then the rest begins with
a parenthesis, which nothing that comes behind a value can take. -/
def Fits (reading : Reading α) (feed : Feed) (verdict : Verdict) (behind : Expectation)
    (phrase : List Terminal → α → List Terminal → Prop) : Prop :=
  match reading with
  | value tree rest =>
    rest.size < feed.size ∧
      (phrase feed.terminals tree rest.terminals ∧ verdict = behind.verdict rest ∨
        verdict = .stuck ∧ rest.head? = some .leftParen)
  | failure error => verdict = if error.isFatal then .fatal error else .stuck
  | exhausted => False

/-- A failure after which something else may be tried. -/
def Missed (reading : Reading α) : Prop := ∃ error, reading = .failure error ∧ error.isFatal = false

theorem Missed.fits {reading : Reading α} (missed : reading.Missed) {feed : Feed}
    {behind : Expectation} {phrase : List Terminal → α → List Terminal → Prop} :
    reading.Fits feed .stuck behind phrase := by
  obtain ⟨error, rfl, soft⟩ := missed
  simp [Fits, soft]

section

variable {reading : Reading α} {feed outer : Feed} {verdict : Verdict} {middle behind : Expectation}
  {phrase : List Terminal → α → List Terminal → Prop}
  {other : List Terminal → β → List Terminal → Prop}

/-- A part may be seen from further in front and with another value, as long as
its phrases change along with it. -/
theorem Fits.map (fits : reading.Fits feed verdict behind phrase) {change : α → β}
    (shorter : feed.size ≤ outer.size)
    (longer : ∀ tree after, phrase feed.terminals tree after →
      other outer.terminals (change tree) after) :
    (reading.map change).Fits outer verdict behind other := by
  cases reading with
  | value tree rest =>
    exact ⟨Nat.lt_of_lt_of_le fits.1 shorter, fits.2.imp (And.imp_left (longer _ _)) id⟩
  | failure error => exact fits
  | exhausted => exact fits

/-- What goes on behind a part, whether it is there or not. -/
theorem Fits.resolve (fits : reading.Fits feed verdict middle phrase)
    {next : α → Feed → Reading β} {missing : ParseError → Reading β}
    (clean : ∀ tree rest, rest.size < feed.size → phrase feed.terminals tree rest.terminals →
      verdict = middle.verdict rest → (next tree rest).Fits outer verdict behind other)
    (strayed : ∀ tree rest, rest.size < feed.size → rest.head? = some .leftParen →
      verdict = .stuck → (next tree rest).Fits outer .stuck behind other)
    (missed : ∀ error, reading = .failure error → error.isFatal = false → verdict = .stuck →
      (missing error).Fits outer .stuck behind other) :
    (reading.resolve next missing).Fits outer verdict behind other := by
  cases reading with
  | value tree rest =>
    obtain ⟨shorter, ⟨said, same⟩ | ⟨rfl, front⟩⟩ := fits
    · exact clean tree rest shorter said same
    · exact strayed tree rest shorter front rfl
  | failure error =>
    cases fatal : error.isFatal with
    | true =>
      simp only [Reading.resolve, fatal, if_true]
      exact fits
    | false =>
      have same : verdict = .stuck := by simpa [Fits, fatal] using fits
      simp only [Reading.resolve, fatal, Bool.false_eq_true, if_false]
      rw [same]
      exact missed error rfl fatal same
  | exhausted => exact fits

theorem map_map {γ : Type} (reading : Reading α) (change : α → β) (again : β → γ) :
    (reading.map change).map again = reading.map fun tree => again (change tree) := by
  cases reading <;> rfl

theorem andThen_map {γ : Type} (reading : Reading α) (next : α → Feed → Reading β)
    (change : β → γ) :
    (reading.andThen next).map change =
      reading.andThen fun tree rest => (next tree rest).map change := by
  cases reading <;> rfl

theorem resolve_andThen {γ : Type} (reading : Reading α) (found : α → Feed → Reading β)
    (missing : ParseError → Reading β) (next : β → Feed → Reading γ) :
    (reading.resolve found missing).andThen next =
      reading.resolve (fun tree rest => (found tree rest).andThen next)
        fun error => (missing error).andThen next := by
  cases reading with
  | value tree rest => rfl
  | failure error =>
    simp only [Reading.resolve]
    split <;> rfl
  | exhausted => rfl

theorem andThen_eq (reading : Reading α) (next : α → Feed → Reading β) :
    reading.andThen next = reading.resolve next .failure := by
  cases reading <;> simp [andThen, Reading.resolve]

/-- What goes on behind a part that has to be there. -/
theorem Fits.andThen (fits : reading.Fits feed verdict middle phrase)
    {next : α → Feed → Reading β}
    (clean : ∀ tree rest, rest.size < feed.size → phrase feed.terminals tree rest.terminals →
      verdict = middle.verdict rest → (next tree rest).Fits outer verdict behind other)
    (strayed : ∀ tree rest, rest.size < feed.size → rest.head? = some .leftParen →
      verdict = .stuck → (next tree rest).Fits outer .stuck behind other) :
    (reading.andThen next).Fits outer verdict behind other := by
  rw [andThen_eq]
  refine fits.resolve clean strayed fun error _ soft _ => ?_
  exact Missed.fits ⟨error, rfl, soft⟩

end

theorem Missed.map {reading : Reading α} (missed : reading.Missed) (change : α → β) :
    (reading.map change).Missed := by
  obtain ⟨error, rfl, soft⟩ := missed
  exact ⟨error, rfl, soft⟩

theorem Missed.andThen {reading : Reading α} (missed : reading.Missed)
    (next : α → Feed → Reading β) : (reading.andThen next).Missed := by
  obtain ⟨error, rfl, soft⟩ := missed
  exact ⟨error, rfl, soft⟩

theorem Missed.resolve {reading : Reading α} (missed : reading.Missed)
    (next : α → Feed → Reading β) (missing : ParseError → Reading β) :
    ∃ error, error.isFatal = false ∧ reading.resolve next missing = missing error := by
  obtain ⟨error, rfl, soft⟩ := missed
  exact ⟨error, soft, by simp [Reading.resolve, soft]⟩

/-- A feed that cannot be scanned is refused by every part that looks at it. -/
theorem fits_fault {failure : LexError} {feed : Feed} {behind : Expectation}
    {phrase : List Terminal → α → List Terminal → Prop} :
    (Reading.failure (.ofLexError failure)).Fits feed (.fatal (.ofLexError failure)) behind phrase :=
  rfl

end Reading

/-! ## Single tokens -/

namespace Reader

theorem token_taken {kind : TokenKind} {first : Token} (same : first.kind = kind) (depth : Nat)
    (proper : first.kind ≠ .endOfInput) (rest : Feed) :
    token kind depth (.token first proper rest) = .value first rest := by
  simp [token, one, Feed.look, Feed.next, same]

private theorem one_missed {accepts : Token → Bool} {message : String} {feed : Feed} {token : Token}
    (front : feed.look = .ok token) (refused : accepts token = false) (depth : Nat) :
    (one accepts message depth feed).Missed :=
  ⟨.mismatch message token.start, by simp [one, front, refused], rfl⟩

/-- A token of another kind is refused, and so is the end of input. -/
theorem token_missed {kind : TokenKind} {feed : Feed} {terminal : Terminal}
    (front : feed.head? = some terminal) (other : terminal.kind ≠ kind) (depth : Nat) :
    (token kind depth feed).Missed := by
  obtain ⟨first, looked, rfl⟩ := Feed.look_of_head? front
  rw [Token.kind_terminal] at other
  exact one_missed looked (by simpa using other) depth

/-- A reader that takes one token of a kind and nothing else. -/
structure Takes (reader : Reader α) (kind : TokenKind) (make : Token → α) : Prop where
  fault : ∀ (depth : Nat) (failure : LexError),
    reader depth (.fault failure) = .failure (.ofLexError failure)
  taken : ∀ {first : Token} (depth : Nat) (proper : first.kind ≠ .endOfInput) (rest : Feed),
    first.kind = kind → reader depth (.token first proper rest) = .value (make first) rest
  missed : ∀ {feed : Feed} {terminal : Terminal} (depth : Nat), feed.head? = some terminal →
    terminal.kind ≠ kind → (reader depth feed).Missed

theorem token_takes (kind : TokenKind) : (token kind).Takes kind id where
  fault _ _ := rfl
  taken depth proper rest same := token_taken same depth proper rest
  missed depth front other := token_missed front other depth

section

variable {reader : Reader α} {kind : TokenKind} {make : Token → α}

theorem Takes.map (takes : reader.Takes kind make) (change : α → β) :
    Takes (fun depth feed => (reader depth feed).map change) kind fun first =>
      change (make first) where
  fault depth failure := by rw [takes.fault]; rfl
  taken depth proper rest same := by rw [takes.taken depth proper rest same]; rfl
  missed depth front other := (takes.missed depth front other).map change

theorem Takes.withMessage (takes : reader.Takes kind make) (message : String) :
    (reader.withMessage message).Takes kind make where
  fault depth failure := by rw [Reader.withMessage, takes.fault]; rfl
  taken depth proper rest same := by
    rw [Reader.withMessage, takes.taken depth proper rest same]; rfl
  missed depth front other := by
    obtain ⟨error, soft, read⟩ := (takes.missed depth front other).resolve .value fun error =>
      .failure (error.withMessage message)
    exact ⟨error.withMessage message, read, soft⟩

/-- What goes on behind a token that is the only thing that may stand there. -/
theorem Takes.andThen (takes : reader.Takes kind make) {before next behind : Expectation}
    {feed outer : Feed} {depth : Nat} {following : α → Feed → Reading β}
    {phrase : List Terminal → β → List Terminal → Prop} (proper : kind ≠ .endOfInput)
    (room : next.opened = 0)
    (agrees : ∀ terminal, feed.head? = some terminal →
      before.step terminal = if terminal.kind = kind then some next else none)
    (fits : ∀ first rest, rest.size < feed.size → first.kind = kind →
      feed.terminals = first.terminal :: rest.terminals →
      (following (make first) rest).Fits outer (next.verdict rest) behind phrase) :
    ((reader depth feed).andThen following).Fits outer (before.verdict feed) behind phrase := by
  cases ahead : feed.head? with
  | none =>
    obtain ⟨failure, rfl⟩ := Feed.eq_fault_of_head? ahead
    rw [takes.fault]
    exact Reading.fits_fault
  | some terminal =>
    have stepped := agrees terminal ahead
    by_cases same : terminal.kind = kind
    · rw [if_pos same] at stepped
      cases feed with
      | fault failure => cases ahead
      | finish place =>
        cases ahead
        exact absurd same.symm proper
      | token first proper rest =>
        cases ahead
        rw [Token.kind_terminal] at same
        rw [takes.taken depth proper rest same, Expectation.verdict_step stepped (by omega)]
        exact fits first rest (Nat.lt_succ_self _) same rfl
    · rw [if_neg same] at stepped
      rw [Expectation.verdict_stuck ahead stepped]
      exact ((takes.missed depth ahead same).andThen following).fits

end

theorem keyword_taken {word : String} {first : Token} (same : first.terminal = .identifier word)
    (depth : Nat) (proper : first.kind ≠ .endOfInput) (rest : Feed) :
    keyword word depth (.token first proper rest) = .value first rest := by
  obtain ⟨kind, text⟩ := Token.terminal_identifier.1 same
  simp [keyword, one, Feed.look, Feed.next, kind, text]

theorem keyword_missed {word : String} {feed : Feed} {terminal : Terminal}
    (front : feed.head? = some terminal) (other : terminal ≠ .identifier word) (depth : Nat) :
    (keyword word depth feed).Missed := by
  obtain ⟨first, looked, rfl⟩ := Feed.look_of_head? front
  rw [ne_eq, Token.terminal_identifier] at other
  exact one_missed looked (decide_eq_false other) depth

/-! ## Alternatives -/

private theorem furthest_soft {first second : ParseError} (soft : first.isFatal = false)
    (softer : second.isFatal = false) : (first.furthest second).isFatal = false := by
  unfold ParseError.furthest
  split <;> assumption

theorem firstOf_fits {reader : Reader α} {depth : Nat} {feed : Feed} {furthest : ParseError}
    {verdict : Verdict} {behind : Expectation} {others : List (Reader α)}
    {phrase : List Terminal → α → List Terminal → Prop} (soft : furthest.isFatal = false)
    (fits : (reader depth feed).Fits feed verdict behind phrase)
    (otherwise : ∀ error, error.isFatal = false → verdict = .stuck →
      (firstOf error others depth feed).Fits feed .stuck behind phrase) :
    (firstOf furthest (reader :: others) depth feed).Fits feed verdict behind phrase := by
  refine fits.resolve ?_ ?_ ?_
  · exact fun tree rest shorter said same => ⟨shorter, .inl ⟨said, same⟩⟩
  · exact fun tree rest shorter front _ => ⟨shorter, .inr ⟨rfl, front⟩⟩
  · exact fun error _ softer stuck => otherwise _ (furthest_soft soft softer) stuck

theorem firstOf_skip {depth : Nat} {feed : Feed} (earlier : List (Reader α))
    (missed : ∀ reader ∈ earlier, (reader depth feed).Missed) {furthest : ParseError}
    (soft : furthest.isFatal = false) (others : List (Reader α)) :
    ∃ error, error.isFatal = false ∧
      firstOf furthest (earlier ++ others) depth feed = firstOf error others depth feed := by
  induction earlier generalizing furthest with
  | nil => exact ⟨furthest, soft, rfl⟩
  | cons reader earlier ih =>
    obtain ⟨error, read, softer⟩ := missed reader List.mem_cons_self
    obtain ⟨last, softest, same⟩ :=
      ih (fun other found => missed other (List.mem_cons_of_mem _ found))
        (furthest_soft soft softer)
    refine ⟨last, softest, ?_⟩
    rw [← same]
    simp [firstOf, read, Reading.resolve, softer]

/-- Alternatives that do not match leave a choice to the others. -/
theorem choice_skip {depth : Nat} {feed : Feed} {terminal : Terminal}
    (earlier : List (Reader α)) (front : feed.head? = some terminal)
    (missed : ∀ reader ∈ earlier, (reader depth feed).Missed) (message : String)
    (others : List (Reader α)) :
    ∃ error, error.isFatal = false ∧
      choice message (earlier ++ others) depth feed = firstOf error others depth feed := by
  obtain ⟨first, looked, -⟩ := Feed.look_of_head? front
  have begun : choice message (earlier ++ others) depth feed =
      firstOf (.mismatch message first.start) (earlier ++ others) depth feed := by
    simp [choice, looked]
  rw [begun]
  exact firstOf_skip earlier missed rfl others

/-- A choice whose first alternative fits does so as well, if the others do in case
that the text is stuck there. -/
theorem choice_fits {reader : Reader α} {depth : Nat} {feed : Feed} {terminal : Terminal}
    {verdict : Verdict} {behind : Expectation} {others : List (Reader α)}
    {phrase : List Terminal → α → List Terminal → Prop} (front : feed.head? = some terminal)
    (fits : (reader depth feed).Fits feed verdict behind phrase)
    (otherwise : ∀ error, error.isFatal = false → verdict = .stuck →
      (firstOf error others depth feed).Fits feed .stuck behind phrase) (message : String) :
    (choice message (reader :: others) depth feed).Fits feed verdict behind phrase := by
  obtain ⟨error, soft, begun⟩ :=
    choice_skip [] front (List.forall_mem_nil _) message (reader :: others)
  rw [List.nil_append] at begun
  rw [begun]
  exact firstOf_fits soft fits otherwise

theorem choice_missed {depth : Nat} {feed : Feed} {terminal : Terminal}
    {alternatives : List (Reader α)} (front : feed.head? = some terminal)
    (missed : ∀ reader ∈ alternatives, (reader depth feed).Missed) (message : String) :
    (choice message alternatives depth feed).Missed := by
  obtain ⟨error, soft, same⟩ := choice_skip alternatives front missed message []
  rw [List.append_nil] at same
  exact ⟨error, same, soft⟩

theorem choice_value {depth : Nat} {feed rest : Feed} {terminal : Terminal} {reader : Reader α}
    {tree : α} (earlier : List (Reader α)) (front : feed.head? = some terminal)
    (missed : ∀ reader ∈ earlier, (reader depth feed).Missed)
    (read : reader depth feed = .value tree rest) (message : String) (later : List (Reader α)) :
    choice message (earlier ++ reader :: later) depth feed = .value tree rest := by
  obtain ⟨error, -, same⟩ := choice_skip earlier front missed message (reader :: later)
  rw [same, firstOf, read]
  rfl

end Reader

end SchemaLang
