import SchemaLang.Proofs.Acceptance
import SchemaLang.Proofs.Foresight

/-! Which failure a text is refused with. A judgement ends at one element of the token
stream: the first that cannot be scanned, that may not stand where it does, or that
opens a list too many. What the element is decides the failure, and nothing behind it
does, apart from the place that a list too many is reported at. -/
namespace SchemaLang

namespace TokenStream

/-- The element at an ordinal: a token, or behind the last token the failure. -/
def element? (stream : TokenStream) (ordinal : Nat) : Option (Except LexError Token) :=
  match stream.tokens[ordinal]? with
  | some token => some (.ok token)
  | none => if ordinal = stream.tokens.length then stream.failure.map .error else none

/-- What the grammar sees of the first tokens. -/
def front (stream : TokenStream) (count : Nat) : List Terminal :=
  (stream.tokens.take count).map Token.terminal

/-- The failure of a list too many, in front of the element at an ordinal. -/
def Reports (stream : TokenStream) (ordinal : Nat) (error : ParseError) : Prop :=
  match stream.element? ordinal with
  | some (.ok token) => error = .tooDeep token.start
  | some (.error failure) => error = .ofLexError failure
  | none => False

theorem element?_eq_ok {stream : TokenStream} {ordinal : Nat} {token : Token}
    (found : stream.element? ordinal = some (.ok token)) : stream.tokens[ordinal]? = some token := by
  unfold element? at found
  split at found
  · cases found
    assumption
  · split at found
    · obtain ⟨_, _, ⟨⟩⟩ := Option.map_eq_some_iff.1 found
    · cases found

theorem element?_eq_error {stream : TokenStream} {ordinal : Nat} {failure : LexError}
    (found : stream.element? ordinal = some (.error failure)) : stream.failure = some failure := by
  unfold element? at found
  split at found
  · cases found
  · split at found
    · obtain ⟨_, same, ⟨⟩⟩ := Option.map_eq_some_iff.1 found
      exact same
    · cases found

@[simp] theorem element?_zero (token : Token) (tokens : List Token) (failure : Option LexError) :
    element? ⟨token :: tokens, failure⟩ 0 = some (.ok token) := rfl

@[simp] theorem element?_succ (token : Token) (tokens : List Token) (failure : Option LexError)
    (ordinal : Nat) :
    element? ⟨token :: tokens, failure⟩ (ordinal + 1) = element? ⟨tokens, failure⟩ ordinal := by
  simp [element?]

@[simp] theorem front_succ (token : Token) (tokens : List Token) (failure : Option LexError)
    (count : Nat) :
    front ⟨token :: tokens, failure⟩ (count + 1) =
      token.terminal :: front ⟨tokens, failure⟩ count := rfl

end TokenStream

/-! ## Cutting off -/

namespace Feed

/-- The first elements of a feed, and a fault in place of the others. -/
def truncate (cut : LexError) : Nat → Feed → Feed
  | 0, _ => .fault cut
  | count + 1, token first proper rest => token first proper (truncate cut count rest)
  | _ + 1, finish place => finish place
  | _ + 1, fault failure => fault failure

theorem cut_truncate (cut : LexError) (count : Nat) (feed : Feed) :
    Cut cut (feed.truncate cut count) feed := by
  induction feed generalizing count with
  | token first proper rest ih =>
    cases count with
    | zero => exact .here _
    | succ count => exact .token (ih count)
  | finish place =>
    cases count with
    | zero => exact .here _
    | succ count => exact .finish place
  | fault failure =>
    cases count with
    | zero => exact .here _
    | succ count => exact .fault failure

theorem look_truncate (cut : LexError) (count : Nat) (feed : Feed) :
    (feed.truncate cut (count + 1)).look = feed.look := by
  cases feed <;> rfl

theorem element?_zero (feed : Feed) : feed.stream.element? 0 = some feed.look := by
  cases feed <;> rfl

theorem element?_succ (first : Token) (proper : first.kind ≠ .endOfInput) (rest : Feed)
    (ordinal : Nat) :
    (token first proper rest).stream.element? (ordinal + 1) = rest.stream.element? ordinal :=
  TokenStream.element?_succ ..

theorem front_one {feed : Feed} {terminal : Terminal} (front : feed.head? = some terminal) :
    feed.stream.front 1 = [terminal] := by
  cases feed with
  | token first proper rest => cases front; rfl
  | finish place => cases front; rfl
  | fault failure => cases front

/-- Feeds with the same first elements are the same behind a cut. -/
theorem truncate_congr (cut : LexError) {count : Nat} {first second : Feed}
    (alike : ∀ ordinal < count, first.stream.element? ordinal = second.stream.element? ordinal) :
    first.truncate cut count = second.truncate cut count := by
  induction count generalizing first second with
  | zero => cases first <;> cases second <;> rfl
  | succ count ih =>
    have looked := alike 0 (Nat.succ_pos _)
    simp only [element?_zero, Option.some.injEq] at looked
    cases first with
    | token one proper rest =>
      cases second with
      | token two proper' rest' =>
        cases looked
        have others : rest.truncate cut count = rest'.truncate cut count := by
          refine ih fun ordinal below => ?_
          have same := alike (ordinal + 1) (Nat.succ_lt_succ below)
          rwa [element?_succ, element?_succ] at same
        rw [truncate, truncate, others]
      | finish place => cases looked; exact absurd rfl proper
      | fault failure => cases looked
    | finish place =>
      cases second with
      | token two proper' rest' => cases looked; exact absurd rfl proper'
      | finish place' => cases looked; rfl
      | fault failure => cases looked
    | fault failure =>
      cases second with
      | token two proper' rest' => cases looked
      | finish place' => cases looked
      | fault failure' => cases looked; rfl

end Feed

/-! ## Where a judgement ends -/

/-- What a text may be refused for. -/
inductive Cause where
  /-- A character begins no lexeme. -/
  | scan
  /-- A parenthesis opens a list too many. -/
  | overflow
  /-- A token may not stand where it does. -/
  | mismatch
deriving DecidableEq

/-- The last element that matters when a judgement ends at an ordinal. A list too many
is reported at the element behind its parenthesis. -/
def Cause.reach : Cause → Nat → Nat
  | overflow, ordinal => ordinal + 1
  | _, ordinal => ordinal

namespace Expectation

open Phrase

/-- The judgement of a feed ends at an ordinal, for a cause and with a verdict. -/
inductive Halts : Expectation → Feed → Nat → Cause → Verdict → Prop where
  | scan {expectation : Expectation} {failure : LexError} :
      Halts expectation (.fault failure) 0 .scan (.fatal (.ofLexError failure))
  | mismatch {expectation : Expectation} {feed : Feed} {terminal : Terminal}
      (front : feed.head? = some terminal) (blocked : expectation.step terminal = none) :
      Halts expectation feed 0 .mismatch .stuck
  | overflow {expectation next : Expectation} {first : Token} {proper : first.kind ≠ .endOfInput}
      {rest : Feed} (stepped : expectation.step first.terminal = some next)
      (full : Schema.maxCallDepth < next.opened) :
      Halts expectation (.token first proper rest) 0 .overflow (.fatal rest.overflow)
  | later {expectation next : Expectation} {first : Token} {proper : first.kind ≠ .endOfInput}
      {rest : Feed} {ordinal : Nat} {cause : Cause} {verdict : Verdict}
      (stepped : expectation.step first.terminal = some next)
      (room : next.opened ≤ Schema.maxCallDepth) (halts : Halts next rest ordinal cause verdict) :
      Halts expectation (.token first proper rest) (ordinal + 1) cause verdict

/-- A feed that is not accepted is refused somewhere. -/
theorem halts_of_verdict (expectation : Expectation) (feed : Feed)
    (refused : expectation.verdict feed ≠ .accepted) :
    ∃ ordinal cause, Halts expectation feed ordinal cause (expectation.verdict feed) := by
  induction feed generalizing expectation with
  | fault failure => exact ⟨0, .scan, .scan⟩
  | finish place =>
    have front : (Feed.finish place).head? = some .endOfInput := rfl
    cases stepped : expectation.step .endOfInput with
    | none =>
      rw [verdict_stuck front stepped]
      exact ⟨0, .mismatch, .mismatch front stepped⟩
    | some next => simp [verdict, stepped] at refused
  | token first proper rest ih =>
    have front : (Feed.token first proper rest).head? = some first.terminal := rfl
    cases stepped : expectation.step first.terminal with
    | none =>
      rw [verdict_stuck front stepped]
      exact ⟨0, .mismatch, .mismatch front stepped⟩
    | some next =>
      by_cases room : next.opened ≤ Schema.maxCallDepth
      · rw [verdict_step stepped room] at refused ⊢
        obtain ⟨ordinal, cause, halts⟩ := ih next refused
        exact ⟨ordinal + 1, cause, .later stepped room halts⟩
      · rw [verdict_overflow stepped (Nat.not_le.1 room)]
        exact ⟨0, .overflow, .overflow stepped (Nat.not_le.1 room)⟩

theorem Halts.verdict {expectation : Expectation} {feed : Feed} {ordinal : Nat} {cause : Cause}
    {verdict : Verdict} (halts : Halts expectation feed ordinal cause verdict) :
    expectation.verdict feed = verdict := by
  induction halts with
  | scan => rfl
  | mismatch front blocked => exact verdict_stuck front blocked
  | overflow stepped full => exact verdict_overflow stepped full
  | later stepped room _ ih => rw [verdict_step stepped room, ih]

/-- A judgement looks no further than it reaches. -/
theorem Halts.truncate {expectation : Expectation} {feed : Feed} {ordinal : Nat} {cause : Cause}
    {verdict : Verdict} (halts : Halts expectation feed ordinal cause verdict) (cut : LexError) :
    Halts expectation (feed.truncate cut (cause.reach ordinal + 1)) ordinal cause verdict := by
  induction halts with
  | scan => exact .scan
  | @mismatch _ feed _ front blocked =>
    refine .mismatch ?_ blocked
    cases feed <;> exact front
  | @overflow _ _ first proper rest stepped full =>
    have same : (rest.truncate cut 1).overflow = rest.overflow := by
      rw [Feed.overflow, Feed.overflow, Feed.look_truncate]
    rw [← same]
    exact .overflow stepped full
  | @later _ _ first proper rest ordinal cause _ stepped room _ ih =>
    have further : cause.reach (ordinal + 1) = cause.reach ordinal + 1 := by cases cause <;> rfl
    rw [further]
    exact .later stepped room ih

/-- What an ordinal at which a judgement ends has to do with the stream, for each of
the causes. -/
def Ends (expectation : Expectation) (stream : TokenStream) (ordinal : Nat)
    (verdict : Verdict) : Cause → Prop
  | .scan => ∃ failure, stream.element? ordinal = some (.error failure) ∧
      stream.tokens.length = ordinal ∧ verdict = .fatal (.ofLexError failure)
  | .overflow => ∃ token error, stream.element? ordinal = some (.ok token) ∧
      token.terminal = .leftParen ∧ (∃ next, expectation.run (stream.front (ordinal + 1)) = some next) ∧
      Schema.maxCallDepth < nestingFrom expectation.opened (stream.front (ordinal + 1)) ∧
      stream.Reports (ordinal + 1) error ∧ verdict = .fatal error
  | .mismatch => ∃ token, stream.element? ordinal = some (.ok token) ∧
      expectation.run (stream.front (ordinal + 1)) = none ∧ verdict = .stuck

/-- Only a parenthesis opens a list. -/
private theorem leftParen_of_full {opened : Nat} {terminal : Terminal}
    (low : opened ≤ Schema.maxCallDepth) (full : Schema.maxCallDepth < openAfter opened terminal) :
    terminal = .leftParen := by
  cases terminal with
  | leftParen => rfl
  | _ => simp only [openAfter] at full; omega

theorem Halts.ends {expectation : Expectation} {feed : Feed} {ordinal : Nat} {cause : Cause}
    {verdict : Verdict} (halts : Halts expectation feed ordinal cause verdict)
    (low : expectation.opened ≤ Schema.maxCallDepth) :
    Ends expectation feed.stream ordinal verdict cause := by
  induction halts with
  | @scan _ failure => exact ⟨failure, rfl, rfl, rfl⟩
  | @mismatch expectation feed terminal front blocked =>
    obtain ⟨first, looked, same⟩ := Feed.look_of_head? front
    refine ⟨first, by rw [Feed.element?_zero, looked], ?_, rfl⟩
    rw [Feed.front_one front, run, blocked]
    rfl
  | @overflow expectation next first proper rest stepped full =>
    have front : (Feed.token first proper rest).head? = some first.terminal := rfl
    rw [opened_step stepped] at full
    refine ⟨first, rest.overflow, rfl, leftParen_of_full low full, ⟨next, ?_⟩, ?_, ?_, rfl⟩
    · rw [Feed.front_one front, run, stepped]
      rfl
    · rw [Feed.front_one front]
      simp only [nestingFrom]
      omega
    · rw [TokenStream.Reports, Feed.element?_succ, Feed.element?_zero, Feed.overflow]
      cases rest.look <;> rfl
  | @later expectation next first proper rest ordinal cause verdict stepped room _ ih =>
    have shown := ih room
    have ran : ∀ count, expectation.run ((Feed.token first proper rest).stream.front (count + 1)) =
        next.run (rest.stream.front count) := fun count => by
      rw [Feed.stream, TokenStream.front_succ, run, stepped]; rfl
    cases cause with
    | scan =>
      obtain ⟨failure, found, ended, same⟩ := shown
      exact ⟨failure, by rwa [Feed.element?_succ], congrArg (· + 1) ended, same⟩
    | mismatch =>
      obtain ⟨token, found, blocked, same⟩ := shown
      exact ⟨token, by rwa [Feed.element?_succ], by rwa [ran], same⟩
    | overflow =>
      obtain ⟨token, error, found, paren, reached, deep, reported, same⟩ := shown
      refine ⟨token, error, by rwa [Feed.element?_succ], paren, by rwa [ran], ?_, ?_, same⟩
      · rw [Feed.stream, TokenStream.front_succ, nestingFrom, ← opened_step stepped]
        exact Nat.lt_of_lt_of_le deep (Nat.le_max_right ..)
      · rwa [TokenStream.Reports, Feed.element?_succ]

/-- Up to where a judgement ends, steps lead through the stream within the limit. -/
theorem Halts.reached {expectation : Expectation} {feed : Feed} {ordinal : Nat}
    {cause : Cause} {verdict : Verdict} (halts : Halts expectation feed ordinal cause verdict)
    (low : expectation.opened ≤ Schema.maxCallDepth) :
    ordinal ≤ feed.stream.tokens.length ∧
      (∃ next, expectation.run (feed.stream.front ordinal) = some next) ∧
      nestingFrom expectation.opened (feed.stream.front ordinal) ≤ Schema.maxCallDepth := by
  induction halts with
  | scan | mismatch | overflow => exact ⟨Nat.zero_le _, ⟨_, rfl⟩, low⟩
  | later stepped room _ ih =>
    obtain ⟨bound, ⟨last, ran⟩, shallow⟩ := ih room
    refine ⟨Nat.succ_le_succ bound, ⟨last, ?_⟩, ?_⟩
    · rw [Feed.stream, TokenStream.front_succ, run, stepped]
      exact ran
    · rw [Feed.stream, TokenStream.front_succ, nestingFrom, ← opened_step stepped]
      exact Nat.max_le.2 ⟨low, shallow⟩

end Expectation

/-! ## Viable prefixes -/

namespace Phrase

open Expectation

/-- A prefix may stand at the front of a text: it opens no list too many, and some
continuation makes it a sentence. -/
def Viable (terminals : List Terminal) : Prop :=
  Continues terminals ∧ nesting terminals ≤ Schema.maxCallDepth

theorem run_append (expectation : Expectation) (first others : List Terminal) :
    expectation.run (first ++ others) = (expectation.run first).bind (·.run others) := by
  induction first generalizing expectation with
  | nil => rfl
  | cons terminal first ih =>
    rw [List.cons_append, run, run]
    cases expectation.step terminal with
    | none => rfl
    | some next => exact ih next

private theorem nestingFrom_append_le (opened : Nat) (first others : List Terminal) :
    nestingFrom opened first ≤ nestingFrom opened (first ++ others) := by
  induction first generalizing opened with
  | nil => exact le_nestingFrom opened others
  | cons terminal first ih =>
    have longer := ih (openAfter opened terminal)
    simp only [List.cons_append, nestingFrom]
    omega

theorem nestingFrom_run {expectation next : Expectation} {first : List Terminal}
    (ran : expectation.run first = some next) (others : List Terminal) :
    nestingFrom next.opened others ≤ nestingFrom expectation.opened (first ++ others) := by
  induction first generalizing expectation with
  | nil => cases ran; exact Nat.le_refl _
  | cons terminal first ih =>
    rw [run] at ran
    obtain ⟨middle, stepped, ran⟩ := Option.bind_eq_some_iff.1 ran
    rw [List.cons_append, nestingFrom, ← opened_step stepped]
    exact Nat.le_trans (ih ran) (Nat.le_max_right ..)

/-- What stands in front of a viable prefix is viable. -/
theorem Viable.of_append {first others : List Terminal} (viable : Viable (first ++ others)) :
    Viable first := by
  obtain ⟨continues, shallow⟩ := viable
  refine ⟨(continues_iff first).2 ?_, Nat.le_trans (nestingFrom_append_le 0 first others) shallow⟩
  obtain ⟨last, ran⟩ := (continues_iff _).1 continues
  rw [run_append] at ran
  obtain ⟨middle, reached, -⟩ := Option.bind_eq_some_iff.1 ran
  exact ⟨middle, reached⟩

end Phrase

namespace TokenStream

open Phrase

theorem front_append (stream : TokenStream) {count longer : Nat} (more : count ≤ longer) :
    ∃ others, stream.front longer = stream.front count ++ others := by
  refine ⟨((stream.tokens.take longer).drop count).map Token.terminal, ?_⟩
  rw [front, front, ← List.map_append, ← Nat.min_eq_left more, ← List.take_take,
    Nat.min_eq_left more, List.take_append_drop]

/-- The longest viable prefix of a stream has so many tokens. -/
def LongestViable (viable : List Terminal → Prop) (stream : TokenStream) (count : Nat) : Prop :=
  (count ≤ stream.tokens.length ∧ viable (stream.front count)) ∧
    ∀ longer ≤ stream.tokens.length, viable (stream.front longer) → longer ≤ count

/-- The element at an ordinal is a parenthesis that could stand there if lists might
nest without a limit. -/
def OpensList (stream : TokenStream) (ordinal : Nat) : Prop :=
  ∃ token, stream.element? ordinal = some (.ok token) ∧ token.terminal = .leftParen ∧
    Continues (stream.front (ordinal + 1))

/-- A failure is due to the element at an ordinal, for a cause. -/
def Explains (stream : TokenStream) (ordinal : Nat) (error : ParseError) : Cause → Prop
  | .scan => ∃ failure, stream.element? ordinal = some (.error failure) ∧
      error = .ofLexError failure
  | .overflow => stream.OpensList ordinal ∧ stream.Reports (ordinal + 1) error
  | .mismatch => (∃ token, stream.element? ordinal = some (.ok token)) ∧
      ¬ stream.OpensList ordinal ∧ error.kind = .syntaxError

/-- A failure has at most one cause. -/
theorem Explains.unique {stream : TokenStream} {ordinal : Nat} {error : ParseError}
    {cause other : Cause} (first : stream.Explains ordinal error cause)
    (second : stream.Explains ordinal error other) : other = cause := by
  cases cause with
  | scan =>
    obtain ⟨failure, found, -⟩ := first
    cases other with
    | scan => rfl
    | overflow =>
      obtain ⟨⟨token, found', -⟩, -⟩ := second
      cases found.symm.trans found'
    | mismatch =>
      obtain ⟨⟨token, found'⟩, -⟩ := second
      cases found.symm.trans found'
  | overflow =>
    obtain ⟨⟨token, found, -⟩, -⟩ := id first
    cases other with
    | scan =>
      obtain ⟨failure, found', -⟩ := second
      cases found.symm.trans found'
    | overflow => rfl
    | mismatch => exact absurd first.1 second.2.1
  | mismatch =>
    obtain ⟨⟨token, found⟩, -⟩ := id first
    cases other with
    | scan =>
      obtain ⟨failure, found', -⟩ := second
      cases found.symm.trans found'
    | overflow => exact absurd second.1 first.2.1
    | mismatch => rfl

end TokenStream

namespace Document

open Expectation Phrase TokenStream

private theorem fatal_of_verdict {error other : ParseError}
    (same : Verdict.fatal other = if error.isFatal then .fatal error else .stuck) :
    error = other := by
  split at same
  · cases same
    rfl
  · cases same

private theorem syntaxError_of_verdict {error : ParseError}
    (same : Verdict.stuck = if error.isFatal then .fatal error else .stuck) :
    error.kind = .syntaxError := by
  split at same
  · cases same
  · rename_i soft
    cases kind : error.kind <;> simp_all [ParseError.isFatal]

private theorem longest {stream : TokenStream} {ordinal : Nat}
    (bound : ordinal ≤ stream.tokens.length) (viable : Viable (stream.front ordinal))
    (broken : ordinal < stream.tokens.length → ¬ Viable (stream.front (ordinal + 1))) :
    LongestViable Viable stream ordinal := by
  refine ⟨⟨bound, viable⟩, fun longer within continued => ?_⟩
  by_cases further : longer ≤ ordinal
  · exact further
  · obtain ⟨others, same⟩ := stream.front_append (Nat.lt_of_not_le further)
    rw [same] at continued
    exact absurd continued.of_append (broken (by omega))

/-- The judgement of a refused text ends behind its longest viable prefix, and the
failure is explained by the element there. -/
private theorem explained {source : String} {error : ParseError} {ordinal : Nat} {cause : Cause}
    {verdict : Verdict} (same : verdict = if error.isFatal then .fatal error else .stuck)
    (halts : Halts block (.ofText source.toList) ordinal cause verdict) :
    LongestViable Viable (.ofText source.toList) ordinal ∧
      Explains (.ofText source.toList) ordinal error cause := by
  have ends := halts.ends (Nat.zero_le _)
  obtain ⟨bound, reached, shallow⟩ := halts.reached (Nat.zero_le _)
  rw [Feed.stream_ofText] at ends bound reached shallow
  have viable : Viable (front (.ofText source.toList) ordinal) :=
    ⟨(continues_iff _).2 reached, shallow⟩
  cases cause with
  | scan =>
    obtain ⟨failure, found, ended, rfl⟩ := ends
    exact ⟨longest bound viable fun more => by omega, failure, found, fatal_of_verdict same⟩
  | mismatch =>
    obtain ⟨token, found, blocked, rfl⟩ := ends
    have broken : ¬ Continues (front (.ofText source.toList) (ordinal + 1)) := by
      rw [continues_iff, blocked]
      rintro ⟨_, ⟨⟩⟩
    exact ⟨longest bound viable fun _ further => broken further.1, ⟨token, found⟩,
      fun ⟨_, _, _, continues⟩ => broken continues, syntaxError_of_verdict same⟩
  | overflow =>
    obtain ⟨token, other, found, paren, reached, deep, reported, rfl⟩ := ends
    cases fatal_of_verdict same
    exact ⟨longest bound viable fun _ further => absurd further.2 (Nat.not_le.2 deep),
      ⟨token, found, paren, (continues_iff _).2 reached⟩, reported⟩

/-- A fatal verdict is the failure of the parse. -/
theorem parse_of_fatal_verdict {source : String} {error : ParseError}
    (refused : block.verdict (.ofText source.toList) = .fatal error) :
    parse source = .error error := by
  have judged := parse_verdict source
  cases parsed : parse source with
  | ok document =>
    rw [parsed] at judged
    cases refused.symm.trans judged.1
  | error other =>
    rw [parsed] at judged
    rw [fatal_of_verdict (refused.symm.trans judged)]

/-- What is read of a text before a cut decides how its parse fails. -/
private theorem parse_of_cut {cut : LexError} {short : Feed} {error : ParseError} {budget : Nat}
    (read : Schema.reads budget Schema.document 0 short = .failure error)
    (apart : error ≠ .ofLexError cut) {source : String}
    (ahead : Feed.Cut cut short (.ofText source.toList))
    (enough : budget ≤ parseBudget source.toList) : parse source = .error error := by
  have carries := Rule.reader_carries Schema.grammar enough Schema.document 0 ahead
  rw [show Rule.reader _ _ _ _ short = _ from read] at carries
  have parsed := parse_reading source
  rcases carries with same | same
  · exact absurd same apart
  · rw [show reading source = _ from same] at parsed
    exact parsed

/-- A parse also answers with what is read within a larger budget. -/
theorem parse_of_budget (source : String) {budget : Nat}
    (enough : parseBudget source.toList ≤ budget) :
    match Schema.reads budget Schema.document 0 (.ofText source.toList) with
    | .value document _ => parse source = .ok document
    | .failure error => parse source = .error error
    | .exhausted => False := by
  have fits := reading_fits source
  have parsed := parse_reading source
  have same := Reading.lasts_of_carries fun cut => Rule.reader_carries Schema.grammar enough
    Schema.document 0 (Feed.cut_refl cut (.ofText source.toList))
  rw [show Rule.reader _ _ _ _ _ = reading source from rfl] at same
  cases read : reading source with
  | value document rest =>
    rw [read] at parsed same
    obtain ⟨behind, same⟩ := same
    rw [show Schema.reads _ _ _ _ = _ from same]
    exact parsed
  | failure error =>
    rw [read] at parsed same
    rw [show Schema.reads _ _ _ _ = _ from same]
    exact parsed
  | exhausted =>
    rw [read] at fits
    exact fits.elim

/-- Texts that agree as far as the judgement of one of them reaches fail alike. -/
private theorem parse_congr {source other : String} {error : ParseError} {ordinal : Nat}
    {cause : Cause} (failed : parse source = .error error)
    (halts : Halts block (.ofText source.toList) ordinal cause
      (if error.isFatal then .fatal error else .stuck))
    (alike : ∀ earlier ≤ cause.reach ordinal,
      element? (.ofText other.toList) earlier = element? (.ofText source.toList) earlier) :
    parse other = .error error := by
  -- The cut is put at a place of its own, so that no failure can be mistaken for it.
  let cut := error.apart
  let short := (Feed.ofText source.toList).truncate cut (cause.reach ordinal + 1)
  have ahead : Feed.Cut cut short (.ofText source.toList) := Feed.cut_truncate cut _ _
  have ahead' : Feed.Cut cut short (.ofText other.toList) := by
    have same : short = (Feed.ofText other.toList).truncate cut (cause.reach ordinal + 1) :=
      Feed.truncate_congr cut fun earlier below => by
        rw [Feed.stream_ofText, Feed.stream_ofText, alike earlier (Nat.le_of_lt_succ below)]
    rw [same]
    exact Feed.cut_truncate cut _ _
  have bound : short.size ≤ source.toList.length :=
    Nat.le_trans ahead.size_le (Feed.size_ofScanner_le (.ofText source.toList))
  have bound' : short.size ≤ other.toList.length :=
    Nat.le_trans ahead'.size_le (Feed.size_ofScanner_le (.ofText other.toList))
  have judged : block.verdict short = if error.isFatal then .fatal error else .stuck :=
    (halts.truncate cut).verdict
  obtain ⟨budget, smaller⟩ :
    ∃ budget, budget = min source.toList.length other.toList.length + 982 := ⟨_, rfl⟩
  have inner : Schema.ValuesFit budget 1 short.size := Schema.valuesFit 63 rfl (by omega)
  have fits := Schema.document_fits inner
  cases read : Schema.reads (budget + 18) Schema.document 0 short with
  | exhausted => rw [read] at fits; exact fits.elim
  | value document rest =>
    rw [read] at fits
    have accepted := judged.symm.trans fits.1
    split at accepted <;> cases accepted
  | failure last =>
    rw [read] at fits
    have apart' : last ≠ .ofLexError cut := by
      rintro rfl
      exact error.ne_apart (fatal_of_verdict (fits.symm.trans judged))
    have parsed := parse_of_cut read apart' ahead (by simp only [parseBudget]; omega)
    cases failed.symm.trans parsed
    exact parse_of_cut read apart' ahead' (by simp only [parseBudget]; omega)

/-- Which failure a text is refused with. It is explained, for exactly one cause, by
the first element of the token stream that does not extend the longest viable prefix:
as what cannot be scanned, as a list too many, or else as a token out of place. A text
with the same elements up to there, or up to the one behind a list too many, is
refused with the same failure. -/
theorem failure_explained {source : String} {error : ParseError}
    (failed : parse source = .error error) :
    ∃ ordinal, LongestViable Viable (.ofText source.toList) ordinal ∧
      ∃ cause, (∀ other, Explains (.ofText source.toList) ordinal error other ↔ other = cause) ∧
        ∀ other : String, (∀ earlier ≤ cause.reach ordinal,
          element? (.ofText other.toList) earlier = element? (.ofText source.toList) earlier) →
          parse other = .error error := by
  have judged := parse_verdict source
  rw [failed] at judged
  have refused : block.verdict (.ofText source.toList) ≠ .accepted := by
    rw [show block.verdict _ = _ from judged]
    split <;> simp
  obtain ⟨ordinal, cause, halts⟩ := halts_of_verdict block _ refused
  rw [show block.verdict _ = _ from judged] at halts
  obtain ⟨viable, explains⟩ := explained rfl halts
  refine ⟨ordinal, viable, cause, fun other => ⟨explains.unique, ?_⟩, fun other alike => ?_⟩
  · rintro rfl
    exact explains
  · exact parse_congr failed halts alike

theorem failure_explained_comma :
    parse "generator g \x7b a = f(," = .error (.mismatch "Expected ')'" ⟨20, 1, 21⟩) ∧
      ∃ ordinal, LongestViable Viable (.ofText "generator g \x7b a = f(,".toList) ordinal ∧
        ∃ cause, (∀ other, Explains (.ofText "generator g \x7b a = f(,".toList) ordinal
            (.mismatch "Expected ')'" ⟨20, 1, 21⟩) other ↔ other = cause) ∧
          ∀ other : String, (∀ earlier ≤ cause.reach ordinal,
            element? (.ofText other.toList) earlier =
              element? (.ofText "generator g \x7b a = f(,".toList) earlier) →
            parse other = .error (.mismatch "Expected ')'" ⟨20, 1, 21⟩) := by
  have failed : parse "generator g \x7b a = f(," =
      .error (.mismatch "Expected ')'" ⟨20, 1, 21⟩) := by decide +kernel
  exact ⟨failed, failure_explained failed⟩

/-! The limit is checked when a list is opened, so a prefix is viable even if nothing
but a list too many can follow it. With viability asked of the whole sentence, the name
in front of such a list would be the first element out of place, and the failure would
have to be a mismatch. -/

/-- Some continuation makes a prefix a sentence that stays within the limit. -/
def ViableWithin (terminals : List Terminal) : Prop :=
  ∃ others document, (∀ terminal ∈ others, terminal.Spelled) ∧
    Sentence (terminals ++ others) document ∧
    nesting (terminals ++ others) ≤ Schema.maxCallDepth

/-- A text that opens 65 lists, one inside the other. -/
def overfull : String := "generator g \x7b a = " ++ String.join (List.replicate 65 "f(")

theorem toList_overfull : overfull.toList =
    "generator g \x7b a = ".toList ++ (List.replicate 65 ['f', '(']).flatten := by
  have lists : (String.join (List.replicate 65 "f(")).toList =
      (List.replicate 65 ['f', '(']).flatten := by
    simp only [String.toList_join, List.flatMap_def, List.map_replicate]
    rfl
  exact String.toList_append.trans (congrArg _ lists)

/-- A name that is no truth value is not viable in this sense behind 64 open lists. -/
private theorem callee_not_viableWithin {terminals : List Terminal} {host : Host}
    (ran : block.run terminals = some (.calleeEnd false host Schema.maxCallDepth)) :
    ¬ ViableWithin terminals := by
  rintro ⟨others, document, -, said, shallow⟩
  obtain ⟨next, ran', follows⟩ := (rest_append ..).1 ((sentence_iff _).1 ⟨document, said⟩)
  cases ran.symm.trans ran'
  have deep := nestingFrom_run ran others
  rcases follows with ⟨_, _, arguments, -⟩ | ⟨⟨⟩, -⟩
  have deeper : ∀ rest, Schema.maxCallDepth + 1 ≤
      nestingFrom Schema.maxCallDepth (.leftParen :: rest) := fun rest =>
    Nat.le_trans (le_nestingFrom _ rest) (Nat.le_max_right ..)
  cases arguments <;> exact absurd (Nat.le_trans deep shallow) (Nat.not_le.2 (deeper _))

theorem overfull_unexplained :
    parse overfull = .error (.tooDeep ⟨148, 1, 149⟩) ∧
      ¬ ∃ ordinal, LongestViable ViableWithin (.ofText overfull.toList) ordinal ∧
        ∃ cause, ∀ other,
          Explains (.ofText overfull.toList) ordinal (.tooDeep ⟨148, 1, 149⟩) other ↔
            other = cause := by
  have refused : parse overfull = .error (.tooDeep ⟨148, 1, 149⟩) := by
    apply parse_of_fatal_verdict
    rw [toList_overfull]
    decide +kernel
  refine ⟨refused, ?_⟩
  rintro ⟨ordinal, viable, cause, explains⟩
  have facts : (TokenStream.ofText overfull.toList).failure = none ∧
      (TokenStream.ofText overfull.toList).tokens.length = 136 ∧
      block.run (front (.ofText overfull.toList) 134) = some (.calleeEnd false .option 64) ∧
      ∀ earlier ∈ List.range 135,
        (TokenStream.ofText overfull.toList).tokens[earlier]?.map (·.start) ≠
          some ⟨148, 1, 149⟩ := by
    rw [toList_overfull]
    decide +kernel
  obtain ⟨scanned, length, ran, before⟩ := facts
  have explained := (explains cause).2 rfl
  cases cause with
  | scan =>
    obtain ⟨failure, found, -⟩ := explained
    rw [element?_eq_error found] at scanned
    cases scanned
  | mismatch => cases explained.2.2
  | overflow =>
    obtain ⟨-, reported⟩ := explained
    -- The place of the failure belongs to the last token alone.
    unfold Reports at reported
    split at reported
    · rename_i token found
      have held := element?_eq_ok found
      have last : ordinal = 134 := by
        have bound := (List.getElem?_eq_some_iff.1 held).1
        have late : ¬ ordinal + 1 < 135 := fun early =>
          before _ (List.mem_range.2 early) (by
            rw [held]; exact congrArg (some ·.position) reported.symm)
        omega
      rw [last] at viable
      exact callee_not_viableWithin ran viable.1.2
    · cases reported
    · exact reported

end Document

end SchemaLang
