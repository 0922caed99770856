import SchemaLang.Proofs.Counterparts
import SchemaLang.Proofs.Failures
import SchemaLang.Proofs.Offsets
import SchemaLang.Proofs.RoundTrip

/-! Spacing means nothing. Texts with the same tokens in the same order, whatever stands
between them, are read as trees of the same structure, or refused in the same words at
the same token. Alternatives are weighed against each other by byte offsets, which
spacing changes, but never in another order than that of the tokens. -/
namespace SchemaLang

namespace TokenStream

/-- The same kinds and spellings in the same order, and the same end: both streams end
with the end of input, or both at the same character. -/
def SameText (first second : TokenStream) : Prop :=
  first.tokens.map (fun token => (token.kind, token.text)) =
      second.tokens.map (fun token => (token.kind, token.text)) ∧
    first.failure.map LexError.found = second.failure.map LexError.found

instance (first second : TokenStream) : Decidable (SameText first second) :=
  inferInstanceAs (Decidable (_ ∧ _))

/-- Where the element at an ordinal begins. -/
def place? (stream : TokenStream) (ordinal : Nat) : Option Position :=
  (stream.element? ordinal).map fun
    | .ok token => token.start
    | .error failure => failure.position

end TokenStream

open TokenStream

namespace Feed

theorem place?_succ (first : Token) (proper : first.kind ≠ .endOfInput) (rest : Feed)
    (ordinal : Nat) :
    (token first proper rest).stream.place? (ordinal + 1) = rest.stream.place? ordinal := by
  rw [place?, element?_succ, place?]

private theorem place?_end {feed : Feed} (ended : feed.size = 0) (ordinal : Nat) :
    feed.stream.place? (ordinal + 1) = none := by
  cases feed with
  | token => cases ended
  | finish | fault => simp [place?, element?, stream]

/-- Nothing begins in front of the front of a feed. -/
private theorem place_le {feed : Feed} (ordered : feed.Ordered) {ordinal : Nat} {place : Position}
    (found : feed.stream.place? ordinal = some place) : feed.place.offset ≤ place.offset := by
  induction feed generalizing ordinal with
  | token first proper rest ih =>
    cases ordinal with
    | zero => cases found; exact Nat.le_refl _
    | succ ordinal =>
      rw [place?_succ] at found
      exact Nat.le_trans (Nat.le_of_lt ordered.1) (ih ordered.2 found)
  | finish | fault =>
    cases ordinal with
    | zero => cases found; exact Nat.le_refl _
    | succ ordinal => rw [place?_end rfl] at found; cases found

private theorem offset_lt {feed : Feed} (ordered : feed.Ordered) {ordinal other : Nat}
    {place place' : Position} (found : feed.stream.place? ordinal = some place)
    (found' : feed.stream.place? other = some place') (earlier : ordinal < other) :
    place.offset < place'.offset := by
  obtain ⟨other, rfl⟩ := Nat.exists_eq_add_one.2 (Nat.zero_lt_of_lt earlier)
  induction feed generalizing ordinal other with
  | token first proper rest ih =>
    rw [place?_succ] at found'
    cases ordinal with
    | zero =>
      cases found
      exact Nat.lt_of_lt_of_le ordered.1 (place_le ordered.2 found')
    | succ ordinal =>
      obtain ⟨other, rfl⟩ := Nat.exists_eq_add_one.2 (show 0 < other by omega)
      rw [place?_succ] at found
      exact ih ordered.2 found other found' (by omega)
  | finish | fault => rw [place?_end rfl] at found'; cases found'

/-- Places are in the order of the ordinals. -/
theorem offset_lt_iff {feed : Feed} (ordered : feed.Ordered) {ordinal other : Nat}
    {place place' : Position} (found : feed.stream.place? ordinal = some place)
    (found' : feed.stream.place? other = some place') :
    place.offset < place'.offset ↔ ordinal < other := by
  refine ⟨fun before => ?_, offset_lt ordered found found'⟩
  rcases Nat.lt_trichotomy ordinal other with earlier | rfl | later
  · exact earlier
  · cases found.symm.trans found'
    exact absurd before (Nat.lt_irrefl _)
  · exact absurd before (Nat.lt_asymm (offset_lt ordered found' found later))

end Feed

namespace Correspondence

/-- Elements of two texts at the same ordinal. Nothing is kept of their places. -/
def ofOrdinals (first second : List Char) : Correspondence where
  starts place place' := ∃ ordinal, (TokenStream.ofText first).place? ordinal = some place ∧
    (TokenStream.ofText second).place? ordinal = some place'
  stops _ _ := True
  left := unplaced
  right := unplaced
  ordered := by
    rintro _ _ _ _ ⟨ordinal, found, found'⟩ ⟨other, further, further'⟩
    rw [← Feed.stream_ofText] at found found' further further'
    rw [Feed.offset_lt_iff (Feed.ordered_ofText _) found further,
      Feed.offset_lt_iff (Feed.ordered_ofText _) found' further']
  kept _ _ := rfl

/-- Feeds of the same text correspond if their elements do, ordinal by ordinal. -/
private theorem feeds_of_sameText {places : Correspondence} {feed feed' : Feed}
    (same : SameText feed.stream feed'.stream)
    (starts : ∀ ordinal place place', feed.stream.place? ordinal = some place →
      feed'.stream.place? ordinal = some place' → places.starts place place')
    (stops : ∀ place place', places.stops place place') : places.Feeds feed feed' := by
  induction feed generalizing feed' with
  | token first proper rest ih =>
    cases feed' with
    | token second proper' rest' =>
      obtain ⟨texts, ends⟩ := same
      simp only [Feed.stream, List.map_cons, List.cons.injEq, Prod.mk.injEq] at texts ends
      refine .token ⟨texts.1.1.symm, texts.1.2.symm, starts 0 _ _ rfl rfl, stops _ _⟩ ?_
      refine ih ⟨texts.2, ends⟩ fun ordinal place place' found found' => ?_
      rw [← Feed.place?_succ first proper] at found
      rw [← Feed.place?_succ second proper'] at found'
      exact starts _ _ _ found found'
    | finish place =>
      simp only [SameText, Feed.stream, List.map_cons, List.cons.injEq, Prod.mk.injEq] at same
      exact absurd same.1.1.1 proper
    | fault failure => cases same.1
  | finish place =>
    cases feed' with
    | token second proper' rest' =>
      simp only [SameText, Feed.stream, List.map_cons, List.cons.injEq, Prod.mk.injEq] at same
      exact absurd same.1.1.1.symm proper'
    | finish place' => exact .finish (starts 0 _ _ rfl rfl) (stops _ _)
    | fault failure => cases same.2
  | fault failure =>
    cases feed' with
    | token second proper' rest' => cases same.1
    | finish place => cases same.2
    | fault failure' =>
      refine .fault ?_ (starts 0 _ _ rfl rfl)
      exact (Option.some.inj same.2).symm

theorem ofOrdinals_feeds {first second : List Char}
    (same : SameText (.ofText first) (.ofText second)) :
    (ofOrdinals first second).Feeds (.ofText first) (.ofText second) := by
  rw [← Feed.stream_ofText, ← Feed.stream_ofText] at same
  refine feeds_of_sameText same (fun ordinal place place' found found' => ?_) fun _ _ => trivial
  rw [Feed.stream_ofText] at found found'
  exact ⟨ordinal, found, found'⟩

end Correspondence

namespace Document

/-- Texts with corresponding feeds have trees with the same blocks, as far as places are
kept, or are refused in the same words at corresponding places. -/
theorem parse_alike (places : Correspondence) {source other : String}
    (feeds : places.Feeds (.ofText source.toList) (.ofText other.toList)) :
    match parse source, parse other with
    | .ok document, .ok document' => document.definitions.map (Definition.mapSpans places.left) =
        document'.definitions.map (Definition.mapSpans places.right)
    | .error error, .error error' => places.Errors error error'
    | _, _ => False := by
  -- Both texts are read within the larger of their budgets.
  obtain ⟨budget, enough, enough'⟩ :
      ∃ budget, parseBudget source.toList ≤ budget ∧ parseBudget other.toList ≤ budget :=
    ⟨_, Nat.le_max_left .., Nat.le_max_right ..⟩
  have parsed := parse_of_budget source enough
  have parsed' := parse_of_budget other enough'
  have alike := places.document_alike budget budget (Nat.le_refl _) 0 feeds
  unfold Schema.reads at parsed parsed'
  generalize Schema.document.reader Schema.grammar budget 0 (.ofText source.toList) = reading
    at alike parsed
  generalize Schema.document.reader Schema.grammar budget 0 (.ofText other.toList) = reading'
    at alike parsed'
  cases alike with
  | value trees _ =>
    rw [show parse source = _ from parsed, show parse other = _ from parsed']
    exact trees
  | failure errors =>
    rw [show parse source = _ from parsed, show parse other = _ from parsed']
    exact errors
  | exhausted => exact parsed.elim

/-- Two texts have trees of the same structure, which are printed as the same text, or
are refused with failures of the same kind, in the same words and at the same ordinal. -/
def ParsesAlike (source other : String) : Prop :=
  (∃ document document', parse source = .ok document ∧ parse other = .ok document' ∧
    document.sameStructure document' = true ∧
    ∃ text, document.print = .ok text ∧ document'.print = .ok text) ∨
  ∃ error error', parse source = .error error ∧ parse other = .error error' ∧
    error.kind = error'.kind ∧ error.message = error'.message ∧
    ∃ ordinal, (TokenStream.ofText source.toList).place? ordinal = some error.position ∧
      (TokenStream.ofText other.toList).place? ordinal = some error'.position

/-- Texts with the same tokens and the same end are parsed alike, whatever stands between
the tokens. -/
theorem parse_spacing {source other : String}
    (same : SameText (.ofText source.toList) (.ofText other.toList)) :
    ParsesAlike source other := by
  have alike := parse_alike _ (Correspondence.ofOrdinals_feeds same)
  cases parsed : parse source with
  | ok document =>
    cases parsed' : parse other with
    | ok document' =>
      rw [parsed, parsed'] at alike
      have erased : document.eraseSpans = document'.eraseSpans :=
        congrArg (Document.mk · nowhere) alike
      obtain ⟨text, _, wrote, -⟩ := parse_of_wellFormed (wellFormed_of_parse parsed)
      refine .inl ⟨document, document', parsed, parsed',
        (sameStructure_iff document document').2 erased, text, wrote, ?_⟩
      rw [← print_eraseSpans, ← erased, print_eraseSpans, wrote]
    | error error' => rw [parsed, parsed'] at alike; exact alike.elim
  | error error =>
    cases parsed' : parse other with
    | ok document' => rw [parsed, parsed'] at alike; exact alike.elim
    | error error' =>
      rw [parsed, parsed'] at alike
      exact .inr ⟨error, error', parsed, parsed', alike.kind.symm, alike.message.symm,
        alike.position⟩

theorem parse_spacing_comma :
    SameText (.ofText "generator g\x7ba=f(true,,".toList)
        (.ofText "generator\n  g \x7b\n  a = f ( true ,\t,\n".toList) ∧
      ParsesAlike "generator g\x7ba=f(true,,"
        "generator\n  g \x7b\n  a = f ( true ,\t,\n" := by
  have same : SameText (.ofText "generator g\x7ba=f(true,,".toList)
      (.ofText "generator\n  g \x7b\n  a = f ( true ,\t,\n".toList) := by decide +kernel
  exact ⟨same, parse_spacing same⟩

end Document

end SchemaLang
