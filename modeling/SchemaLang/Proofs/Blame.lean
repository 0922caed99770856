import Mathlib.Data.Nat.Find
import SchemaLang.Proofs.BlockPassage
import SchemaLang.Proofs.Failures

/-! Mismatches tell the truth. A text that can be scanned and does not nest too deeply is
refused at a token in place of which the demand of the failure could stand, and the token
does not meet that demand. The token is the first one out of place, unless a list was
given back: then it stands no earlier than the outermost parenthesis still open. -/
namespace SchemaLang

open Phrase Expectation

/-! ## Open lists -/

namespace Phrase

/-- The ordinals of the parentheses still open behind some terminals, the innermost
first, with those open before and the ordinal of the first terminal. -/
def unclosedFrom (ordinal : Nat) (opened : List Nat) : List Terminal → List Nat
  | [] => opened
  | .leftParen :: rest => unclosedFrom (ordinal + 1) (ordinal :: opened) rest
  | .rightParen :: rest => unclosedFrom (ordinal + 1) opened.tail rest
  | _ :: rest => unclosedFrom (ordinal + 1) opened rest

/-- The ordinals of the parentheses still open behind the front of a text, the outermost
last. -/
def unclosed (terminals : List Terminal) : List Nat := unclosedFrom 0 [] terminals

/-- Open parentheses are counted by what is expected behind them. -/
theorem length_unclosedFrom {expectation last : Expectation} {terminals : List Terminal}
    (ran : expectation.run terminals = some last) (ordinal : Nat) {opened : List Nat}
    (counted : opened.length = expectation.opened) :
    (unclosedFrom ordinal opened terminals).length = last.opened := by
  induction terminals generalizing expectation ordinal opened with
  | nil => cases ran; exact counted
  | cons terminal terminals ih =>
    rw [run] at ran
    obtain ⟨next, stepped, onward⟩ := Option.bind_eq_some_iff.1 ran
    have after := opened_step stepped
    cases terminal with
    | leftParen => exact ih onward _ (by rw [after, List.length_cons, counted]; rfl)
    | rightParen => exact ih onward _ (by rw [after, List.length_tail, counted]; rfl)
    | _ => exact ih onward _ (by rw [after, counted]; rfl)

/-- The outermost open parenthesis was open before, or was opened when none was. -/
theorem getLast?_unclosedFrom {ordinal outermost : Nat} {opened : List Nat}
    {terminals : List Terminal}
    (last : (unclosedFrom ordinal opened terminals).getLast? = some outermost) :
    opened.getLast? = some outermost ∨
      ∃ earlier later, terminals = earlier ++ .leftParen :: later ∧
        outermost = ordinal + earlier.length ∧ unclosedFrom ordinal opened earlier = [] := by
  induction terminals generalizing ordinal opened with
  | nil => exact .inl last
  | cons terminal terminals ih =>
    cases terminal with
    | leftParen =>
      rcases ih last with before | ⟨earlier, later, rfl, rfl, closed⟩
      · cases opened with
        | nil =>
          cases before
          exact .inr ⟨[], terminals, rfl, rfl, rfl⟩
        | cons inner opened => exact .inl (by simpa using before)
      · exact .inr ⟨.leftParen :: earlier, later, rfl, by simp only [List.length_cons]; omega, closed⟩
    | rightParen =>
      rcases ih last with before | ⟨earlier, later, rfl, rfl, closed⟩
      · refine .inl ?_
        cases opened with
        | nil => cases before
        | cons inner opened =>
          cases opened with
          | nil => cases before
          | cons next opened => simpa using before
      · exact .inr ⟨.rightParen :: earlier, later, rfl, by simp only [List.length_cons]; omega, closed⟩
    | _ =>
      rcases ih last with before | ⟨earlier, later, rfl, rfl, closed⟩
      · exact .inl before
      · exact .inr ⟨_ :: earlier, later, rfl, by simp only [List.length_cons]; omega, closed⟩

end Phrase

/-! ## Paths and ordinals -/

namespace Expectation

section

variable {expectation middle last : Expectation} {feed rest final : Feed}

/-- A path leads to an ordinal of the stream, and over all terminals in front of it. -/
theorem Path.reaches {level : Nat} (path : Path level expectation feed last final) :
    ∃ ordinal, ordinal + final.size = feed.size ∧
      feed.stream.element? ordinal = some final.look ∧
      expectation.run (feed.stream.front ordinal) = some last ∧
      (expectation.opened ≤ Schema.maxCallDepth →
        nestingFrom expectation.opened (feed.stream.front ordinal) ≤ Schema.maxCallDepth) := by
  induction path with
  | here => exact ⟨0, Nat.zero_add _, Feed.element?_zero _, rfl, id⟩
  | step stepped room _ _ ih =>
    obtain ⟨ordinal, count, found, ran, shallow⟩ := ih
    refine ⟨ordinal + 1, ?_, ?_, ?_, fun low => ?_⟩
    · simp only [Feed.size]
      omega
    · rwa [Feed.element?_succ]
    · rw [Feed.stream, TokenStream.front_succ, run, stepped]
      exact ran
    · rw [Feed.stream, TokenStream.front_succ, nestingFrom, ← opened_step stepped]
      exact Nat.max_le.2 ⟨low, shallow room⟩

/-- There is only one path, so a longer one goes on where a shorter one ends. -/
theorem Path.after (path : Path 0 expectation feed middle rest)
    (longer : Path 0 expectation feed last final) (further : final.size ≤ rest.size) :
    Path 0 middle rest last final := by
  induction path with
  | here => exact longer
  | step stepped _ _ path ih =>
    cases longer with
    | here =>
      have shorter := path.size_le
      simp only [Feed.size] at further
      omega
    | step stepped' _ _ longer =>
      cases stepped.symm.trans stepped'
      exact ih longer further

/-- A path leads to every ordinal up to where the judgement ends. -/
theorem Halts.path {ordinal : Nat} {cause : Cause} {verdict : Verdict}
    (halts : Halts expectation feed ordinal cause verdict) {count : Nat} (early : count ≤ ordinal) :
    ∃ last final, Path 0 expectation feed last final ∧ count + final.size = feed.size := by
  induction halts generalizing count with
  | scan | mismatch | overflow =>
    cases Nat.le_zero.1 early
    exact ⟨_, _, .here, Nat.zero_add _⟩
  | later stepped room _ ih =>
    cases count with
    | zero => exact ⟨_, _, .here, Nat.zero_add _⟩
    | succ count =>
      obtain ⟨last, final, path, counted⟩ := ih (Nat.le_of_succ_le_succ early)
      refine ⟨last, final, .step stepped room (Nat.zero_le _) path, ?_⟩
      simp only [Feed.size]
      omega

end

/-! ## Completion within the limit -/

private theorem nestingFrom_closing (opened : Nat) : nestingFrom opened (closing opened) = opened := by
  induction opened with
  | zero => rfl
  | succ opened ih =>
    show max (opened + 1) (nestingFrom opened (closing opened)) = opened + 1
    rw [ih]
    omega

/-- A sentence can be ended with one more list at most. -/
theorem nestingFrom_completion (expectation : Expectation) :
    nestingFrom expectation.opened expectation.completion ≤ expectation.opened + 1 := by
  cases expectation with
  | value host opened =>
    show max opened (nestingFrom opened (closing opened)) ≤ _
    rw [nestingFrom_closing]
    simp [Expectation.opened]
  | calleeEnd truth host opened =>
    show max opened (nestingFrom (opened + 1) (closing (opened + 1))) ≤ _
    rw [nestingFrom_closing]
    simp [Expectation.opened]
  | firstArgument host opened | argumentEnd host opened =>
    show nestingFrom (opened + 1) (closing (opened + 1)) ≤ _
    rw [nestingFrom_closing]
    exact Nat.le_succ _
  | _ => decide

theorem nestingFrom_append_le_max {expectation next : Expectation} {first : List Terminal}
    (ran : expectation.run first = some next) (others : List Terminal) :
    nestingFrom expectation.opened (first ++ others) ≤
      max (nestingFrom expectation.opened first) (nestingFrom next.opened others) := by
  induction first generalizing expectation with
  | nil => cases ran; exact Nat.le_max_right ..
  | cons terminal first ih =>
    rw [run] at ran
    obtain ⟨middle, stepped, ran⟩ := Option.bind_eq_some_iff.1 ran
    have further := ih ran
    simp only [List.cons_append, nestingFrom, ← opened_step stepped]
    omega

end Expectation

/-! ## Truth -/

namespace Document

/-- A prefix that steps lead through can be ended within the limit, if only few lists are
open behind it. -/
theorem viableWithin_of_run {terminals : List Terminal} {last : Expectation}
    (ran : block.run terminals = some last) (shallow : nesting terminals ≤ Schema.maxCallDepth)
    (room : last.opened < Schema.maxCallDepth) : ViableWithin terminals := by
  obtain ⟨document, said⟩ :=
    (sentence_iff _).2 ((rest_append ..).2 ⟨last, ran, last.rest_completion⟩)
  refine ⟨last.completion, document, last.spelled_completion, said, ?_⟩
  have whole : nesting (terminals ++ last.completion) ≤
      max (nesting terminals) (nestingFrom last.opened last.completion) :=
    nestingFrom_append_le_max ran last.completion
  have ending := nestingFrom_completion last
  omega

end Document

namespace TokenStream

/-- A failure demands something at an ordinal that could stand there, and that the token
there is not. -/
structure Demands (stream : TokenStream) (ordinal : Nat) (demand : Demand) (error : ParseError) :
    Prop where
  message : error.message = demand.message
  refused : ∃ token, stream.element? ordinal = some (.ok token) ∧ error.position = token.start ∧
    demand.accepts token.terminal = false
  accepted : ∀ terminal, demand.accepts terminal = true →
    Document.ViableWithin (stream.front ordinal ++ [terminal])

/-- An ordinal is another one, unless a list is open in front of that: then it lies
between the outermost open parenthesis and the other ordinal. -/
def Near (stream : TokenStream) (ordinal count : Nat) : Prop :=
  match (unclosed (stream.front count)).getLast? with
  | none => ordinal = count
  | some outermost => outermost ≤ ordinal ∧ ordinal ≤ count

theorem length_front {stream : TokenStream} {count : Nat} (bound : count ≤ stream.tokens.length) :
    (stream.front count).length = count := by
  simp [front, bound]

theorem exists_longestViable {viable : List Terminal → Prop} {stream : TokenStream} {ordinal : Nat}
    (bound : ordinal ≤ stream.tokens.length) (found : viable (stream.front ordinal)) :
    ∃ count, LongestViable viable stream count ∧ ordinal ≤ count := by
  classical
  let reached := Nat.findGreatest (fun count => viable (stream.front count)) stream.tokens.length
  have longest : ∀ longer ≤ stream.tokens.length, viable (stream.front longer) → longer ≤ reached :=
    fun longer within other => Nat.le_findGreatest within other
  have good : viable (stream.front reached) :=
    Nat.findGreatest_spec (P := fun count => viable (stream.front count)) bound found
  exact ⟨reached, ⟨⟨Nat.findGreatest_le _, good⟩, longest⟩, longest ordinal bound found⟩

/-- An ordinal behind which lists stay open is near to the end of what they lead to. -/
theorem near_of_unclosed {stream : TokenStream} {ordinal count : Nat} (early : ordinal ≤ count)
    (bound : count ≤ stream.tokens.length)
    (inside : ∀ later, ordinal < later → later ≤ count → unclosed (stream.front later) ≠ []) :
    stream.Near ordinal count := by
  unfold Near
  split
  · rename_i closed
    by_contra moved
    exact inside count (by omega) (Nat.le_refl _) (List.getLast?_eq_none_iff.1 closed)
  · rename_i outermost last
    rcases getLast?_unclosedFrom last with before | ⟨earlier, later, split, rfl, closed⟩
    · cases before
    · -- No list was open in front of the outermost parenthesis.
      have length := congrArg List.length split
      rw [length_front bound, List.length_append, List.length_cons] at length
      obtain ⟨others, same⟩ := stream.front_append (show earlier.length ≤ count by omega)
      have fronted : stream.front earlier.length = earlier :=
        (List.append_inj (same.symm.trans split) (length_front (by omega))).1
      refine ⟨?_, early⟩
      by_contra behind
      refine inside earlier.length (by omega) (by omega) ?_
      rw [fronted]
      exact closed

end TokenStream

namespace Document

open TokenStream

/-- Every demand can be met. -/
private theorem exists_accepts (demand : Demand) : ∃ terminal, demand.accepts terminal = true := by
  cases demand with
  | definition => exact ⟨.identifier "model", by simp [Demand.accepts]⟩
  | only kind =>
    exact ⟨Token.terminal ⟨kind, "", .start, .start⟩, decide_eq_true (Token.kind_terminal _)⟩
  | _ => exact ⟨.identifier "a", rfl⟩

/-- Only few lists are open where a demand could be met. -/
private theorem opened_le_of_blames {depth : Nat} {expectation : Expectation} {feed : Feed}
    {demand : Demand} (blames : Blames depth expectation feed demand) :
    expectation.opened ≤ depth + 2 := by
  obtain ⟨terminal, wanted⟩ := exists_accepts demand
  obtain ⟨next, stepped, low⟩ := blames.accepted terminal wanted
  rw [opened_step stepped] at low
  cases terminal <;> simp only [openAfter] at low <;> omega

/-- What a failure to blame on a place of the path demands there. -/
private theorem demands_of_blames {source : String} {last : Expectation} {final : Feed}
    {demand : Demand} {ordinal : Nat} (blames : Blames 0 last final demand)
    (found : element? (.ofText source.toList) ordinal = some final.look)
    (ran : block.run (front (.ofText source.toList) ordinal) = some last)
    (shallow : nesting (front (.ofText source.toList) ordinal) ≤ Schema.maxCallDepth) :
    Demands (.ofText source.toList) ordinal demand (.mismatch demand.message final.place) where
  message := rfl
  refused := by
    obtain ⟨terminal, ahead, refused⟩ := blames.refused
    obtain ⟨token, looked, rfl⟩ := Feed.look_of_head? ahead
    exact ⟨token, by rw [found, looked], Feed.place_of_look looked, refused⟩
  accepted terminal wanted := by
    obtain ⟨next, stepped, low⟩ := blames.accepted terminal wanted
    have further : block.run (front (.ofText source.toList) ordinal ++ [terminal]) = some next := by
      rw [run_append, ran, Option.bind_some, Expectation.run, stepped]
      rfl
    have limit : Schema.maxCallDepth = 64 := rfl
    have before := opened_le_of_blames blames
    refine viableWithin_of_run further ?_ (by omega)
    have whole : nesting (front (.ofText source.toList) ordinal ++ [terminal]) ≤
        max (nesting (front (.ofText source.toList) ordinal)) (nestingFrom last.opened [terminal]) :=
      nestingFrom_append_le_max ran [terminal]
    simp only [nestingFrom, ← opened_step stepped] at whole
    omega

/-- Where a judgement ends for a mismatch, no path and no continuation goes on. -/
private theorem count_le_of_halts {source : String} {ended count : Nat} {cause : Cause}
    (halts : Halts block (.ofText source.toList) ended cause .stuck)
    (continues : Continues (front (.ofText source.toList) count)) : count ≤ ended := by
  have ends := halts.ends (Nat.zero_le _)
  rw [Feed.stream_ofText] at ends
  cases cause with
  | scan => obtain ⟨_, _, _, ⟨⟩⟩ := ends
  | overflow => obtain ⟨_, _, _, _, _, _, _, ⟨⟩⟩ := ends
  | mismatch =>
    obtain ⟨_, _, blocked, _⟩ := ends
    by_contra further
    obtain ⟨others, same⟩ := front_append (.ofText source.toList) (Nat.lt_of_not_le further)
    obtain ⟨last, ran⟩ := (continues_iff _).1 continues
    rw [same, run_append, show block.run _ = none from blocked] at ran
    cases ran

/-- Behind a place to blame, some list is open up to where the judgement ends. -/
private theorem unclosed_of_blames {source : String} {last : Expectation} {final : Feed}
    {demand : Demand} {ordinal ended : Nat} {cause : Cause}
    (halts : Halts block (.ofText source.toList) ended cause .stuck)
    (path : Path 0 block (.ofText source.toList) last final)
    (counted : ordinal + final.size = (Feed.ofText source.toList).size)
    (blames : Blames 0 last final demand) {later : Nat} (behind : ordinal < later)
    (early : later ≤ ended) : unclosed (front (.ofText source.toList) later) ≠ [] := by
  obtain ⟨next, rest, longer, count⟩ := halts.path early
  have high := blames.confined _ _ (path.after longer (by omega)) (by omega)
  obtain ⟨reached, total, -, ran, -⟩ := longer.reaches
  obtain rfl : reached = later := by omega
  rw [Feed.stream_ofText] at ran
  have length : (unclosed (front (.ofText source.toList) reached)).length = next.opened :=
    length_unclosedFrom ran 0 rfl
  have bound := next.height_le
  intro closed
  rw [closed, List.length_nil] at length
  omega

/-- A failure that is not fatal is to blame on a place of the path through the text. -/
private theorem blamed_of_parse {source : String} {error : ParseError}
    (failed : parse source = .error error) (soft : error.isFatal = false) :
    Blamed 0 block (.ofText source.toList) error := by
  have inner : Schema.ValuesLand (Schema.reads (source.toList.length + 973 + 9) Schema.expression) 1 :=
    Schema.valuesLand 63 rfl (by omega)
  have fits := reading_fits source
  have parsed := parse_reading source
  cases read : reading source with
  | value document rest =>
    rw [read] at parsed
    cases failed.symm.trans parsed
  | failure other =>
    rw [read] at parsed
    cases failed.symm.trans parsed
    exact Schema.document_blamed (Feed.ordered_ofText _) inner read soft
  | exhausted =>
    rw [read] at fits
    exact fits.elim

/-- Mismatches tell the truth. The failure is reported at a token of the stream, which
does not meet its demand, while whatever does meet it could stand there. Whichever
prefixes are called viable, with or without regard to the limit, the token is the first
one out of place, or lies between that one and the outermost parenthesis open there. -/
theorem mismatch_justified {source : String} {error : ParseError}
    (failed : parse source = .error error) (mismatch : error.kind = .syntaxError) :
    ∃ ordinal demand, Demands (.ofText source.toList) ordinal demand error ∧
      ∀ viable : List Terminal → Prop, (∀ terminals, ViableWithin terminals → viable terminals) →
        (∀ terminals, viable terminals → Continues terminals) →
        ∃ count, LongestViable viable (.ofText source.toList) count ∧
          Near (.ofText source.toList) ordinal count := by
  have soft : error.isFatal = false := by simp [ParseError.isFatal, mismatch]
  obtain ⟨last, final, demand, path, blames, rfl⟩ := blamed_of_parse failed soft
  obtain ⟨ordinal, counted, found, ran, shallow⟩ := path.reaches
  rw [Feed.stream_ofText] at found ran shallow
  have demands := demands_of_blames blames found ran (shallow (Nat.zero_le _))
  refine ⟨ordinal, demand, demands, fun viable weaker stronger => ?_⟩
  have judged := parse_verdict source
  rw [failed] at judged
  have stuck : block.verdict (.ofText source.toList) = .stuck := judged
  obtain ⟨ended, cause, halts⟩ := halts_of_verdict block _ (by rw [stuck]; simp)
  rw [stuck] at halts
  -- The front of the stream is viable up to the place to blame, and no further than the
  -- judgement goes.
  obtain ⟨token, here, -⟩ := demands.refused
  have bound := (List.getElem?_eq_some_iff.1 (element?_eq_ok here)).1
  have limit : Schema.maxCallDepth = 64 := rfl
  have few := opened_le_of_blames blames
  have within := viableWithin_of_run ran (shallow (Nat.zero_le _)) (by omega)
  obtain ⟨count, longest, early⟩ := exists_longestViable (Nat.le_of_lt bound) (weaker _ within)
  have late := count_le_of_halts halts (stronger _ longest.1.2)
  refine ⟨count, longest, near_of_unclosed early longest.1.1 fun later behind before => ?_⟩
  exact unclosed_of_blames halts path counted blames behind (Nat.le_trans before late)

theorem mismatch_justified_inner :
    parse "generator g \x7b a = f(true(," = .error (.mismatch "Expected ')'" ⟨24, 1, 25⟩) ∧
      ∃ ordinal demand, Demands (.ofText "generator g \x7b a = f(true(,".toList) ordinal demand
          (.mismatch "Expected ')'" ⟨24, 1, 25⟩) ∧
        ∀ viable : List Terminal → Prop, (∀ terminals, ViableWithin terminals → viable terminals) →
          (∀ terminals, viable terminals → Continues terminals) →
          ∃ count, LongestViable viable (.ofText "generator g \x7b a = f(true(,".toList) count ∧
            Near (.ofText "generator g \x7b a = f(true(,".toList) ordinal count := by
  have failed : parse "generator g \x7b a = f(true(," =
      .error (.mismatch "Expected ')'" ⟨24, 1, 25⟩) := by decide +kernel
  exact ⟨failed, mismatch_justified failed rfl⟩

end Document

end SchemaLang
