import Mathlib.Logic.Function.Iterate
import SchemaLang.Proofs.BlockPassage
import SchemaLang.Proofs.Failures
import SchemaLang.Proofs.LineBreak

/-! Joining texts. A block ends with its closing brace, and nothing behind the brace is
looked at to read it. So the blocks of a text that can be read are read alike whatever is
put behind the text, and a text behind a line feed is read, or refused, as it is on its
own, at places further on. -/
namespace SchemaLang

namespace Feed

variable {feed : Feed}

/-- A feed that goes on in some way may be cut off where it does. -/
theorem cut_append (cut : LexError) (feed tail : Feed) :
    Cut cut (feed.append (.fault cut)) (feed.append tail) := by
  induction feed with
  | token first proper rest ih => exact .token ih
  | finish place => exact .here tail
  | fault failure => exact .fault failure

theorem size_append_fault (cut : LexError) (feed : Feed) :
    (feed.append (.fault cut)).size = feed.size := by
  induction feed with
  | token first proper rest ih => exact congrArg (· + 1) ih
  | finish | fault => rfl

/-- A fault in place of the end keeps the order. -/
theorem exists_ordered_cut (ordered : feed.Ordered) :
    ∃ cut, (feed.append (.fault cut)).place = feed.place ∧ (feed.append (.fault cut)).Ordered := by
  induction feed with
  | token first proper rest ih =>
    obtain ⟨cut, same, behind⟩ := ih ordered.2
    exact ⟨cut, rfl, by rw [same]; exact ordered.1, behind⟩
  | finish place => exact ⟨⟨place, 'a'⟩, rfl, trivial⟩
  | fault failure => exact ⟨failure, rfl, trivial⟩

/-- As many tokens as there are may be taken before or after another feed is put behind. -/
theorem next_iterate_append {count : Nat} (bound : count ≤ feed.size) (tail : Feed) :
    Feed.next^[count] (feed.append tail) = (Feed.next^[count] feed).append tail := by
  induction count generalizing feed with
  | zero => rfl
  | succ count ih =>
    cases feed with
    | token first proper rest => exact ih (Nat.le_of_succ_le_succ bound)
    | finish | fault => cases bound

end Feed

namespace Expectation

variable {expectation last : Expectation} {feed final : Feed}

/-- A path leads to what is left behind the tokens it takes. -/
theorem Path.final_eq {level : Nat} (path : Path level expectation feed last final) :
    final = Feed.next^[feed.size - final.size] feed := by
  induction path with
  | here => rw [Nat.sub_self]; rfl
  | @step _ _ _ first proper rest final _ _ _ further ih =>
    have count : (Feed.token first proper rest).size - final.size = rest.size - final.size + 1 :=
      Nat.succ_sub further.size_le
    rw [count, Function.iterate_succ_apply]
    exact ih

/-- An accepted token leads to where the rest is accepted. -/
theorem accepted_token {first : Token} {proper : first.kind ≠ .endOfInput} {rest : Feed}
    (accepted : expectation.verdict (.token first proper rest) = .accepted) :
    ∃ next, expectation.step first.terminal = some next ∧
      next.opened ≤ Schema.maxCallDepth ∧ next.verdict rest = .accepted := by
  rw [verdict] at accepted
  split at accepted
  · cases accepted
  · rename_i next stepped
    split at accepted
    · cases accepted
    · rename_i room
      exact ⟨next, stepped, Nat.not_lt.1 room, accepted⟩

/-- What is accepted leads out of all blocks, and to whatever is put behind it. -/
theorem path_of_accepted (accepted : expectation.verdict feed = .accepted) (tail : Feed) :
    Path 0 expectation (feed.append tail) block tail := by
  induction feed generalizing expectation with
  | token first proper rest ih =>
    obtain ⟨next, stepped, room, accepted⟩ := accepted_token accepted
    exact .step stepped room (Nat.zero_le _) (ih accepted)
  | finish place =>
    cases ended : expectation.step .endOfInput with
    | none => simp [verdict, ended] at accepted
    | some next =>
      rw [(step_endOfInput ended).1]
      exact .here
  | fault failure => cases accepted

/-- An accepted feed has an end, which another feed may take the place of. -/
theorem end_of_accepted (accepted : expectation.verdict feed = .accepted) :
    (∃ place, feed.append (.finish place) = feed) ∧
      ∀ tail, (feed.append tail).size = feed.size + tail.size := by
  induction feed generalizing expectation with
  | token first proper rest ih =>
    obtain ⟨next, -, -, accepted⟩ := accepted_token accepted
    obtain ⟨⟨place, same⟩, sizes⟩ := ih accepted
    refine ⟨⟨place, by rw [Feed.append, same]⟩, fun tail => ?_⟩
    rw [Feed.append, Feed.size, sizes, Feed.size]
    omega
  | finish place => exact ⟨⟨place, rfl⟩, fun tail => (Nat.zero_add _).symm⟩
  | fault failure => cases accepted

end Expectation

namespace Schema

open Expectation

section

variable {budget : Nat} {first : Token} {proper : first.kind ≠ .endOfInput} {others feed : Feed}

private theorem definition_front (begins : feed = .token first proper others) (tail : Feed) :
    (feed.append tail).head? = some first.terminal ∧ first.terminal ≠ .endOfInput := by
  rw [begins]
  exact ⟨rfl, fun same => proper (Token.kind_of_terminal same)⟩

/-- The first block of an accepted feed is read without a look at what closes the feed:
a failure would leave no way out of the block, and there is one. -/
private theorem definition_cut (begins : feed = .token first proper others)
    (accepted : block.verdict feed = .accepted) {cut : LexError}
    (ordered : (feed.append (.fault cut)).Ordered) (fits : ValuesFit (budget + 9) 1 feed.size)
    (inner : ValuesLand (reads (budget + 9) expression) 1) :
    ∃ tree rest, reads (budget + 25) definition 0 (feed.append (.fault cut)) = .value tree rest := by
  obtain ⟨front, more⟩ := definition_front begins (.fault cut)
  cases read : reads (budget + 25) definition 0 (feed.append (.fault cut)) with
  | value tree rest => exact ⟨tree, rest, rfl⟩
  | failure error =>
    have lands := (definition_lands front more (.refl ordered) inner).1
    rw [read] at lands
    have inside := lands.1 block (.fault cut) (path_of_accepted accepted _)
      (by rw [begins]; exact Nat.succ_pos _)
    exact absurd inside (Nat.not_succ_le_zero 0)
  | exhausted =>
    rw [← Feed.size_append_fault cut] at fits
    have ends := definition_fits front more fits
    rw [read] at ends
    exact ends.elim

/-- A block that is read in front of a fault is read in front of any other feed, and takes
as many tokens there. -/
private theorem definition_carried (begins : feed = .token first proper others)
    (inner : ValuesLand (reads (budget + 9) expression) 1) {cut : LexError} {tree : Definition}
    {final : Feed}
    (read : reads (budget + 25) definition 0 (feed.append (.fault cut)) = .value tree final)
    (tail : Feed) (ordered : (feed.append tail).Ordered) :
    ((Feed.next^[feed.size - final.size] feed).append tail).Ordered ∧
      reads (budget + 25) definition 0 (feed.append tail) =
        .value tree ((Feed.next^[feed.size - final.size] feed).append tail) := by
  have carries := Rule.reader_carries grammar (Nat.le_refl (budget + 25)) definition 0
    (Feed.cut_append cut feed tail)
  rw [show Rule.reader _ _ _ _ _ = _ from read] at carries
  obtain ⟨behind, same, -, moved⟩ := carries
  obtain ⟨front, more⟩ := definition_front begins tail
  have lands := (definition_lands front more (.refl ordered) inner).1
  rw [show reads _ _ _ _ = _ from same] at lands
  obtain ⟨last, path, -⟩ := lands
  have shorter := path.size_le
  rw [Feed.size_append_fault] at moved
  have count : (feed.append tail).size - behind.size = feed.size - final.size := by omega
  have placed := path.final_eq
  rw [count, Feed.next_iterate_append (Nat.sub_le ..)] at placed
  rw [← placed]
  exact ⟨path.ordered ordered, same⟩

/-- The first block of an accepted feed is read alike whatever is put behind the feed. -/
theorem definition_append (begins : feed = .token first proper others)
    (accepted : block.verdict feed = .accepted) (ordered : feed.Ordered)
    (fits : ValuesFit (budget + 9) 1 feed.size)
    (inner : ValuesLand (reads (budget + 9) expression) 1) :
    ∃ tree rest, rest.size < feed.size ∧ block.verdict rest = .accepted ∧ rest.Ordered ∧
      ∀ tail, (feed.append tail).Ordered → (rest.append tail).Ordered ∧
        reads (budget + 25) definition 0 (feed.append tail) = .value tree (rest.append tail) := by
  obtain ⟨cut, -, kept⟩ := Feed.exists_ordered_cut ordered
  obtain ⟨tree, final, read⟩ := definition_cut begins accepted kept fits inner
  have alike := definition_carried begins inner read
  -- Put behind the feed, its own end gives back the feed.
  obtain ⟨place, whole⟩ := (end_of_accepted accepted).1
  obtain ⟨ordered', here⟩ := alike (.finish place) (by rwa [whole])
  rw [← Feed.next_iterate_append (Nat.sub_le ..), whole] at ordered' here
  obtain ⟨front, more⟩ := definition_front begins (.finish place)
  rw [whole] at front
  have ends := definition_fits front more fits
  rw [here, accepted] at ends
  obtain ⟨shorter, ⟨-, same⟩ | ⟨⟨⟩, -⟩⟩ := ends
  exact ⟨tree, _, shorter, same.symm, ordered', alike⟩

end

/-- The blocks of an accepted feed are read first, whatever is put behind the feed, and
then what was put there. -/
theorem takeUntil_append {budget : Nat} {feed : Feed} (accepted : block.verdict feed = .accepted)
    (ordered : feed.Ordered) (fits : ValuesFit (budget + 9) 1 feed.size)
    (inner : ValuesLand (reads (budget + 9) expression) 1) :
    ∃ trees : List Definition, trees.length ≤ feed.size ∧
      ∀ tail, (feed.append tail).Ordered → ∀ rounds,
        Reader.takeUntil (reads (budget + 25) definition) .endOfInput (rounds + trees.length) 0
            (feed.append tail) =
          (Reader.takeUntil (reads (budget + 25) definition) .endOfInput rounds 0 tail).map
            fun (others, close) => (trees ++ others, close) := by
  induction size : feed.size using Nat.strongRecOn generalizing feed with
  | ind count ih =>
    cases feed with
    | finish place =>
      refine ⟨[], Nat.zero_le _, fun tail _ rounds => ?_⟩
      cases read : Reader.takeUntil (reads (budget + 25) definition) .endOfInput rounds 0 tail <;>
        simp [Feed.append, read, Reading.map]
    | fault failure => cases accepted
    | token first proper others =>
      obtain ⟨tree, rest, shorter, accepted', ordered', alike⟩ :=
        definition_append rfl accepted ordered fits inner
      obtain ⟨trees, bound, further⟩ := ih rest.size (size ▸ shorter) accepted' ordered'
        (fits.smaller (Nat.le_of_lt shorter)) rfl
      refine ⟨tree :: trees, ?_, fun tail kept rounds => ?_⟩
      · rw [List.length_cons]
        omega
      · obtain ⟨kept', read⟩ := alike tail kept
        have moved : (rest.append tail).size ≠ ((Feed.token first proper others).append tail).size := by
          rw [(end_of_accepted accepted).2, (end_of_accepted accepted').2]
          omega
        have looked : ((Feed.token first proper others).append tail).look = .ok first := rfl
        rw [List.length_cons, ← Nat.add_assoc, Reader.takeUntil, looked]
        simp only [if_neg proper, read, Reading.andThen, if_neg moved, further tail kept' rounds,
          Reading.map_map, List.cons_append]

/-- A feed behind the blocks of an accepted one is read or refused as it is alone. -/
theorem document_append {budget : Nat} {feed tail rest : Feed} {tree : Document}
    (read : reads (budget + 27) document 0 feed = .value tree rest)
    (accepted : block.verdict feed = .accepted) (ordered : feed.Ordered)
    (kept : (feed.append tail).Ordered) (fits : ValuesFit (budget + 9) 1 feed.size)
    (inner : ValuesLand (reads (budget + 9) expression) 1) :
    match reads (budget + 27) document 0 (feed.append tail) with
    | .value joined _ => ∃ following behind,
        reads (budget + 27) document 0 tail = .value following behind ∧
          joined.definitions = tree.definitions ++ following.definitions
    | .failure error => reads (budget + 27) document 0 tail = .failure error
    | .exhausted => True := by
  have enough := fits.enough
  obtain ⟨trees, bound, alike⟩ := takeUntil_append accepted ordered fits inner
  obtain ⟨rounds, whole⟩ : ∃ rounds, budget + 25 = rounds + 1 + trees.length :=
    ⟨budget + 24 - trees.length, by omega⟩
  have trees_eq : tree.definitions = trees := by
    obtain ⟨place, same⟩ := (end_of_accepted accepted).1
    have alone := alike (.finish place) (by rwa [same]) (rounds + 1)
    rw [same, ← whole] at alone
    rw [document_eq (budget + 9), alone] at read
    cases read
    simp only [definitions_documentOf, List.append_nil]
  -- Behind the blocks fewer rounds are left than the feed would have alone.
  have lasts := Reading.lasts_of_carries fun cut => Reader.takeUntil_carries
    (Rule.reader_carries grammar (Nat.le_refl (budget + 25)) definition) .endOfInput
    (show rounds + 1 ≤ budget + 25 by omega) 0 (Feed.cut_refl cut tail)
  have joined := alike tail kept (rounds + 1)
  rw [← whole] at joined
  rw [document_eq (budget + 9), document_eq (budget + 9), joined]
  cases following : Reader.takeUntil (reads (budget + 25) definition) .endOfInput (rounds + 1) 0
      tail with
  | value result behind =>
    rw [show Reader.takeUntil _ _ _ _ _ = _ from following] at lasts
    obtain ⟨others, close⟩ := result
    obtain ⟨final, whole⟩ := lasts
    refine ⟨documentOf others close, final, ?_, ?_⟩
    · rw [show Reader.takeUntil _ _ _ _ _ = _ from whole]
      rfl
    · simp only [definitions_documentOf, trees_eq]
  | failure error =>
    rw [show Reader.takeUntil _ _ _ _ _ = _ from following] at lasts
    rw [show Reader.takeUntil _ _ _ _ _ = _ from lasts]
    rfl
  | exhausted => trivial

end Schema

/-! ## Places that are left alone -/

mutual

theorem Expression.mapSpans_id : (value : Expression) → value.mapSpans id = value
  | .string _ _ => rfl
  | .boolean _ _ => rfl
  | .call name arguments span => by
    rw [Expression.mapSpans, Expression.mapSpansList_id arguments]
    rfl

theorem Expression.mapSpansList_id : (values : List Expression) →
    Expression.mapSpansList id values = values
  | [] => rfl
  | value :: values => by
    rw [Expression.mapSpansList, Expression.mapSpans_id value, Expression.mapSpansList_id values]

end

theorem Attribute.mapSpans_id : Attribute.mapSpans id = id := by
  funext mark
  rw [Attribute.mapSpans, Expression.mapSpansList_id]
  rfl

theorem Field.mapSpans_id : Field.mapSpans id = id := by
  funext field
  rw [Field.mapSpans, Attribute.mapSpans_id, List.map_id]
  rfl

theorem ConfigOption.mapSpans_id : ConfigOption.mapSpans id = id := by
  funext option
  rw [ConfigOption.mapSpans, Expression.mapSpans_id]
  rfl

theorem Definition.mapSpans_id : Definition.mapSpans id = id := by
  funext block
  cases block with
  | model model =>
    rw [Definition.mapSpans, Model.mapSpans, Field.mapSpans_id, List.map_id]
    rfl
  | config config =>
    rw [Definition.mapSpans, Config.mapSpans, ConfigOption.mapSpans_id, List.map_id]
    rfl

namespace Document

open Expectation

/-- A text further on is read, or refused, as it is on its own. -/
private theorem reads_shift (before : List Char) (source : String) {budget : Nat}
    (enough : parseBudget source.toList ≤ budget) :
    match Schema.reads budget Schema.document 0 (.ofScanner (.shift before (.ofText source.toList)))
    with
    | .value shifted _ => ∃ document, parse source = .ok document ∧
        shifted.definitions = document.definitions.map (Definition.mapSpans (Span.shift before))
    | .failure shifted => ∃ error, parse source = .error error ∧
        shifted = { error with position := error.position.shift before }
    | .exhausted => False := by
  have parsed := parse_of_budget source enough
  have alike := (Correspondence.ofShift before).document_alike budget budget (Nat.le_refl _) 0
    (Correspondence.ofShift_feeds before (.ofText source.toList))
  unfold Schema.reads at parsed ⊢
  rw [show Feed.ofText source.toList = .ofScanner (.ofText source.toList) from rfl] at parsed
  generalize Schema.document.reader Schema.grammar budget 0 (.ofScanner (.ofText source.toList)) =
    reading at alike parsed
  generalize Schema.document.reader Schema.grammar budget 0
    (.ofScanner (.shift before (.ofText source.toList))) = shifted at alike ⊢
  cases alike with
  | @value document _ _ _ trees _ =>
    refine ⟨document, parsed, ?_⟩
    simp only [Correspondence.ofShift, Definition.mapSpans_id, List.map_id] at trees
    exact trees.symm
  | @failure error shifted errors =>
    obtain ⟨kind, message, position⟩ := shifted
    obtain ⟨rfl, rfl, rfl⟩ := errors
    exact ⟨error, parsed, rfl⟩
  | exhausted => exact parsed

/-- A text that can be read is read in front of a line feed as well, and what stands
behind the line feed is read after it. -/
private theorem reads_lineFeed {source : String} {document : Document}
    (parsed : parse source = .ok document) (others : List Char) {budget : Nat}
    (enough : source.toList.length + 973 ≤ budget) :
    match Schema.reads (budget + 27) Schema.document 0 (.ofText (source.toList ++ '\n' :: others))
    with
    | .value joined _ => ∃ following behind,
        Schema.reads (budget + 27) Schema.document 0
            (.ofScanner (.shift source.toList (.ofText others))) = .value following behind ∧
          joined.definitions = document.definitions ++ following.definitions
    | .failure error => Schema.reads (budget + 27) Schema.document 0
        (.ofScanner (.shift source.toList (.ofText others))) = .failure error
    | .exhausted => True := by
  have bound : (Feed.ofText source.toList).size ≤ source.toList.length :=
    Feed.size_ofScanner_le (.ofText source.toList)
  have fits : Schema.ValuesFit (budget + 9) 1 (Feed.ofText source.toList).size :=
    Schema.valuesFit 63 rfl (by omega)
  have inner : Schema.ValuesLand (Schema.reads (budget + 9) Schema.expression) 1 :=
    Schema.valuesLand 63 rfl (by omega)
  have accepted := parse_verdict source
  rw [parsed] at accepted
  have ordered := Feed.ordered_ofText (source.toList ++ '\n' :: others)
  rw [Feed.ofText_lineFeed] at ordered ⊢
  have alone := parse_of_budget source (show parseBudget source.toList ≤ budget + 27 by
    simp only [parseBudget]; omega)
  cases read : Schema.reads (budget + 27) Schema.document 0 (.ofText source.toList) with
  | value tree rest =>
    rw [read] at alone
    cases parsed.symm.trans alone
    exact Schema.document_append read accepted.1 (Feed.ordered_ofText _) ordered fits inner
  | failure error =>
    rw [read] at alone
    cases parsed.symm.trans alone
  | exhausted =>
    rw [read] at alone
    exact alone.elim

/-- A text behind a line feed is read as on its own, after the text in front of it and at
places further on. If it is refused, the whole is refused in the same words, further on. -/
theorem parse_joined {source other : String} {document : Document}
    (parsed : parse source = .ok document) :
    (∀ document', parse other = .ok document' →
      ∃ joined, parse (source ++ "\n" ++ other) = .ok joined ∧
        joined.definitions = document.definitions ++
          document'.definitions.map (Definition.mapSpans (Span.shift source.toList))) ∧
    ∀ error, parse other = .error error →
      parse (source ++ "\n" ++ other) =
        .error { error with position := error.position.shift source.toList } := by
  have text : (source ++ "\n" ++ other).toList = source.toList ++ '\n' :: other.toList := by simp
  -- All texts are read within the budget of the longest one.
  obtain ⟨budget, room⟩ : ∃ budget, budget = source.toList.length + other.toList.length + 974 :=
    ⟨_, rfl⟩
  have whole := parse_of_budget (source ++ "\n" ++ other) (show _ ≤ budget + 27 by
    rw [text, parseBudget, List.length_append, List.length_cons]; omega)
  have shifted := reads_shift source.toList other (show _ ≤ budget + 27 by
    rw [parseBudget]; omega)
  have split := reads_lineFeed parsed other.toList (show _ ≤ budget by omega)
  rw [text] at whole
  cases read : Schema.reads (budget + 27) Schema.document 0
      (.ofText (source.toList ++ '\n' :: other.toList)) with
  | value joined rest =>
    rw [read] at whole split
    obtain ⟨following, behind, same, listed⟩ := split
    rw [same] at shifted
    obtain ⟨document', parsed', moved⟩ := shifted
    refine ⟨fun _ again => ?_, fun _ failed => ?_⟩
    · cases parsed'.symm.trans again
      exact ⟨joined, whole, by rw [listed, moved]⟩
    · cases parsed'.symm.trans failed
  | failure error' =>
    rw [read] at whole split
    rw [show Schema.reads _ _ _ _ = _ from split] at shifted
    obtain ⟨error, failed', moved⟩ := shifted
    refine ⟨fun _ again => ?_, fun _ failed => ?_⟩
    · cases failed'.symm.trans again
    · cases failed'.symm.trans failed
      rw [← moved]
      exact whole
  | exhausted =>
    rw [read] at whole
    exact whole.elim

theorem parse_joined_model :
    ∃ document document', parse "model A\x7b\n b C @d(\"\u00e9\")\x7d" = .ok document ∧
      parse "generator g\x7b\x7d" = .ok document' ∧
      (∃ joined, parse ("model A\x7b\n b C @d(\"\u00e9\")\x7d" ++ "\n" ++ "generator g\x7b\x7d") =
          .ok joined ∧
        joined.definitions = document.definitions ++ document'.definitions.map
          (Definition.mapSpans (Span.shift "model A\x7b\n b C @d(\"\u00e9\")\x7d".toList))) ∧
      parse "model B\x7b c \x7d" = .error (.mismatch "Expected field type" ⟨11, 1, 12⟩) ∧
      parse ("model A\x7b\n b C @d(\"\u00e9\")\x7d" ++ "\n" ++ "model B\x7b c \x7d") =
        .error (.mismatch "Expected field type" ⟨35, 3, 12⟩) := by
  have facts : (parse "model A\x7b\n b C @d(\"\u00e9\")\x7d").toBool = true ∧
      (parse "generator g\x7b\x7d").toBool = true ∧
      parse "model B\x7b c \x7d" = .error (.mismatch "Expected field type" ⟨11, 1, 12⟩) ∧
      Position.shift "model A\x7b\n b C @d(\"\u00e9\")\x7d".toList ⟨11, 1, 12⟩ = ⟨35, 3, 12⟩ := by
    decide +kernel
  obtain ⟨accepted, accepted', failed, moved⟩ := facts
  cases parsed : parse "model A\x7b\n b C @d(\"\u00e9\")\x7d" with
  | error error => rw [parsed] at accepted; cases accepted
  | ok document =>
    cases parsed' : parse "generator g\x7b\x7d" with
    | error error => rw [parsed'] at accepted'; cases accepted'
    | ok document' =>
      have refused := (parse_joined parsed).2 _ failed
      simp only [ParseError.mismatch, moved] at refused
      exact ⟨document, document', rfl, rfl, (parse_joined parsed).1 _ parsed', failed, refused⟩

end Document

end SchemaLang
