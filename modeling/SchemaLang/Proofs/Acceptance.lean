import SchemaLang.Proofs.Blocks
import SchemaLang.Proofs.Unambiguity

/-! Which texts have a tree. A feed is accepted just when it ends without a fault, a
sentence is left to be read, and no list in it nests too deeply. Together with the
tree that a parse gives for an accepted text, and with the fact that there is only
one, this says that parsing and the language are the same thing. -/
namespace SchemaLang

namespace Feed

theorem terminals_eq (feed : Feed) : feed.terminals = feed.stream.tokens.map Token.terminal := by
  induction feed with
  | token first proper rest ih => rw [terminals, stream, List.map_cons, ih]
  | finish place => rfl
  | fault failure => rfl

end Feed

namespace Expectation

open Phrase

/-- The end of input stands between blocks only, and leads nowhere but to the end. -/
theorem step_endOfInput {expectation next : Expectation}
    (stepped : expectation.step .endOfInput = some next) :
    expectation = block ∧ next = finished := by
  cases expectation with
  | block => cases stepped; exact ⟨rfl, rfl⟩
  | calleeEnd truth host opened =>
    cases truth with
    | false => cases stepped
    | true =>
      cases opened with
      | zero => cases host <;> cases stepped
      | succ opened => cases stepped
  | _ => cases stepped

/-- One step of the verdict against the language: a feed is accepted if it can be
scanned, is what the expectation wants, and stays within the limit. -/
theorem verdict_accepted (expectation : Expectation) (feed : Feed)
    (low : expectation.opened ≤ Schema.maxCallDepth) :
    expectation.verdict feed = .accepted ↔ feed.stream.failure = none ∧
      expectation.Rest feed.terminals ∧
      nestingFrom expectation.opened feed.terminals ≤ Schema.maxCallDepth := by
  induction feed generalizing expectation with
  | fault failure => simp [verdict, Feed.stream]
  | finish place =>
    have level : nestingFrom expectation.opened [.endOfInput] = expectation.opened :=
      Nat.max_self _
    rw [Feed.terminals, rest_cons, level]
    cases stepped : expectation.step .endOfInput with
    | none => simp [verdict, stepped]
    | some next =>
      obtain ⟨-, rfl⟩ := step_endOfInput stepped
      simp [verdict, stepped, Feed.stream, Rest, low]
  | token first proper rest ih =>
    rw [Feed.terminals, rest_cons, nestingFrom]
    cases stepped : expectation.step first.terminal with
    | none => simp [verdict, stepped]
    | some next =>
      have level := opened_step stepped
      have deep := le_nestingFrom next.opened rest.terminals
      rw [← level]
      by_cases room : next.opened ≤ Schema.maxCallDepth
      · rw [verdict_step stepped room, ih next room]
        simp only [Feed.stream, Option.some.injEq, exists_eq_left', Nat.max_le, low, true_and]
      · rw [verdict_overflow stepped (Nat.not_le.1 room)]
        simp only [Nat.max_le, reduceCtorEq, false_iff]
        omega

end Expectation

namespace Document

open Expectation Phrase

/-- What the grammar sees of a text. -/
def terminals (source : String) : List Terminal :=
  (TokenStream.ofText source.toList).tokens.map Token.terminal

private theorem terminals_ofText (source : String) :
    (Feed.ofText source.toList).terminals = terminals source := by
  rw [Feed.terminals_eq, Feed.stream_ofText]
  rfl

private theorem accepted_iff (source : String) :
    block.verdict (.ofText source.toList) = .accepted ↔
      (TokenStream.ofText source.toList).failure = none ∧ block.Rest (terminals source) ∧
        nesting (terminals source) ≤ Schema.maxCallDepth := by
  rw [verdict_accepted block _ (Nat.zero_le _), terminals_ofText, Feed.stream_ofText]
  rfl

/-- A text with a tree is a sentence that nests no deeper than allowed. -/
theorem sentence_of_parse {source : String} {document : Document}
    (parsed : parse source = .ok document) :
    (TokenStream.ofText source.toList).failure = none ∧
      Sentence (terminals source) document.eraseSpans ∧
      nesting (terminals source) ≤ Schema.maxCallDepth := by
  have judged := parse_verdict source
  rw [parsed] at judged
  obtain ⟨scanned, -, shallow⟩ := (accepted_iff source).1 judged.1
  have said := judged.2
  rw [terminals_ofText] at said
  exact ⟨scanned, said, shallow⟩

/-- A sentence that nests no deeper than allowed has its tree. -/
theorem parse_of_sentence {source : String} {tree : Document}
    (scanned : (TokenStream.ofText source.toList).failure = none)
    (said : Sentence (terminals source) tree)
    (shallow : nesting (terminals source) ≤ Schema.maxCallDepth) :
    ∃ document, parse source = .ok document ∧ document.eraseSpans = tree := by
  have accepted := (accepted_iff source).2 ⟨scanned, (sentence_iff _).1 ⟨tree, said⟩, shallow⟩
  have judged := parse_verdict source
  cases parsed : parse source with
  | ok document =>
    exact ⟨document, rfl, (sentence_of_parse parsed).2.1.unique said⟩
  | error error =>
    rw [parsed] at judged
    have refused := accepted.symm.trans judged
    split at refused <;> cases refused

/-- Parsing and the language agree: a text is read as a tree just when it can be
scanned to its end, its terminals are a phrase for that tree, and no argument list
nests too deeply. There is never more than one such tree. -/
theorem parse_iff_sentence (source : String) :
    (∀ tree, (∃ document, parse source = .ok document ∧ document.eraseSpans = tree) ↔
      (TokenStream.ofText source.toList).failure = none ∧ Sentence (terminals source) tree ∧
        nesting (terminals source) ≤ Schema.maxCallDepth) ∧
    ∀ tree other, Sentence (terminals source) tree → Sentence (terminals source) other →
      tree = other := by
  refine ⟨fun tree => ⟨?_, ?_⟩, fun tree other said said' => said.unique said'⟩
  · rintro ⟨document, parsed, rfl⟩
    exact sentence_of_parse parsed
  · rintro ⟨scanned, said, shallow⟩
    exact parse_of_sentence scanned said shallow

end Document

end SchemaLang
