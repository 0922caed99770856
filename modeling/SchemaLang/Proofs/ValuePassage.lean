import SchemaLang.Proofs.Passage
import SchemaLang.Proofs.Values

/-! Where readings of values get to. A value that cannot be read is confined to where it
begins and to the lists that it opens, and so is a list: if it cannot be read, everything
that follows is inside of it. -/
namespace SchemaLang.Schema

open Expectation

/-- Readings of values at a level stay on the path, wherever a value may stand. -/
def ValuesLand (reader : Reader Expression) (depth : Nat) : Prop :=
  ∀ (host : Host) {expectation : Expectation} {feed : Feed},
    Stands (depth + 1) expectation (Expectation.value host depth).step feed →
    (reader depth feed).Lands depth (depth + 1) (depth + 1) expectation (resume host depth).step feed

/-! ## Lists -/

section

variable {element : Reader Expression} {host : Host} {opened : Nat} {expectation : Expectation}
  {feed : Feed}

/-- What may close a list may also stand behind one of its values. -/
private theorem stepArgumentEnd_of_closing {terminal : Terminal} {next : Expectation}
    (closing : stepOnly .rightParen (resume host opened) terminal = some next) :
    (argumentEnd host opened).step terminal = some next := by
  unfold stepOnly at closing
  split at closing
  · rename_i same
    cases closing
    rw [same]
    rfl
  · cases closing

/-- Behind a value of a list, its further values are read up to where it may be closed. -/
private theorem separatedTail_lands (room : opened < maxCallDepth)
    (lands : ValuesLand element (opened + 1)) (rounds depth : Nat)
    (stands : Stands (opened + 2) expectation (argumentEnd host opened).step feed) :
    (Reader.separatedTail element (Reader.token .comma) rounds (opened + 1) feed).Lands depth
      (opened + 2) (opened + 2) expectation (stepOnly .rightParen (resume host opened)) feed := by
  induction rounds generalizing expectation feed with
  | zero => trivial
  | succ rounds ih =>
    cases ahead : feed.head? with
    | none =>
      obtain ⟨failure, rfl⟩ := Feed.eq_fault_of_head? ahead
      exact Reading.lands_fault
    | some terminal =>
      by_cases comma : terminal = .comma
      · subst comma
        obtain ⟨first, proper, rest, rfl, same⟩ := Feed.eq_token_of_head? ahead (by simp)
        have kind : first.kind = .comma := Token.kind_of_terminal same
        have stepped : expectation.step first.terminal = some (.value host (opened + 1)) :=
          stands.wider (by rw [same]; rfl)
        have path : Path (opened + 2) expectation (.token first proper rest)
            (.value host (opened + 1)) rest := .one stepped room (Nat.le_refl _)
        have part := (lands host (.refl stands.ordered.2)).of_path path (Nat.le_refl _)
        rw [Reader.separatedTail, Reader.token_taken kind, Reading.andThen]
        refine part.resolve (Nat.le_refl _) ?_ ?_
        · exact fun value after last _ stands => (ih stands).map _
        · intro error _ _ confined _
          exact ⟨expectation, .here,
            stands.giveBack stepArgumentEnd_of_closing (confined.mono (by omega))⟩
      · rw [separatedTail_none ahead comma]
        refine ⟨expectation, .here, stands.narrow stepArgumentEnd_of_closing fun other found => ?_⟩
        cases ahead.symm.trans found
        cases terminal <;> first | rfl | exact absurd rfl comma

/-- Behind the parenthesis that opens a list, its values are read up to where it may be
closed. -/
private theorem separated_lands (room : opened < maxCallDepth)
    (lands : ValuesLand element (opened + 1))
    (misses : ∀ feed : Feed, feed.head? = some .rightParen → (element (opened + 1) feed).Missed)
    (rounds depth : Nat) (ordered : feed.Ordered) :
    (Reader.separated element (Reader.token .comma) rounds (opened + 1) feed).Lands depth
      (opened + 2) (opened + 2) (firstArgument host opened)
      (stepOnly .rightParen (resume host opened)) feed := by
  have stands : Stands (opened + 2) (firstArgument host opened)
      (firstArgument host opened).step feed := .refl ordered
  have closes : ∀ {terminal next}, stepOnly .rightParen (resume host opened) terminal = some next →
      (firstArgument host opened).step terminal = some next := by
    intro terminal next closing
    unfold stepOnly at closing
    split at closing
    · rename_i same
      cases closing
      rw [same]
      rfl
    · cases closing
  by_cases closing : feed.head? = some .rightParen
  · obtain ⟨error, -, read⟩ := (misses feed closing).resolve
      (fun first rest => (Reader.separatedTail element (Reader.token .comma) rounds (opened + 1)
        rest).map (first :: ·)) fun _ => .value [] feed
    rw [Reader.separated, read]
    refine ⟨_, .here, stands.narrow closes fun terminal found => ?_⟩
    cases closing.symm.trans found
    rfl
  · have inner : Stands (opened + 2) (firstArgument host opened)
        (Expectation.value host (opened + 1)).step feed := by
      refine stands.narrow (fun {terminal next} taken => ?_) fun terminal found => ?_
      · rw [← taken]
        exact stepFirstArgument_eq host opened (by rintro rfl; cases taken)
      · exact stepFirstArgument_eq host opened (by rintro rfl; exact closing found)
    rw [Reader.separated]
    refine (lands host inner).resolve (Nat.le_refl _) ?_ ?_
    · exact fun value rest last _ stands => (separatedTail_lands room lands rounds depth stands).map _
    · intro error _ _ confined _
      exact ⟨_, .here, stands.giveBack closes (confined.mono (by omega))⟩

/-- The end of a list leads back to where the list began. -/
private theorem closing_lands (room : opened < maxCallDepth) (depth : Nat)
    (stands : Stands (opened + 2) expectation (stepOnly .rightParen (resume host opened)) feed) :
    (Reader.token .rightParen depth feed).Lands opened (opened + 1) (opened + 2) expectation
      (resume host opened).step feed := by
  cases ahead : feed.head? with
  | none =>
    obtain ⟨failure, rfl⟩ := Feed.eq_fault_of_head? ahead
    exact Reading.lands_fault
  | some terminal =>
    by_cases closing : terminal = .rightParen
    · subst closing
      obtain ⟨first, proper, rest, rfl, same⟩ := Feed.eq_token_of_head? ahead (by simp)
      have kind : first.kind = .rightParen := Token.kind_of_terminal same
      have stepped : expectation.step first.terminal = some (resume host opened) :=
        stands.wider (by rw [same]; rfl)
      rw [Reader.token_taken kind]
      refine ⟨resume host opened, .one stepped ?_ ?_, .refl stands.ordered.2⟩
      · rw [opened_resume]
        omega
      · exact Nat.le_of_eq (height_resume host opened).symm
    · have different : terminal.kind ≠ .rightParen := fun same =>
        closing (Terminal.eq_of_kind same (by simp))
      rw [Reader.token_refuses ahead different]
      refine stands.fails (Nat.le_max_left ..) (fun other wanted => ⟨resume host opened, ?_, ?_⟩) ahead
        (decide_eq_false different) (if_neg closing)
      · have paren : other = .rightParen :=
          Terminal.eq_of_kind (of_decide_eq_true wanted) (by simp)
        rw [paren]
        rfl
      · rw [opened_resume]
        omega

/-- An argument list that cannot be read confines all that follows its parenthesis. -/
theorem arguments_lands {budget : Nat}
    (stepped : expectation.step .leftParen = some (firstArgument host opened))
    (front : ∀ terminal, feed.head? = some terminal → terminal = .leftParen)
    (ordered : feed.Ordered)
    (inner : opened < maxCallDepth → ValuesLand (reads (budget + 9) expression) (opened + 1)) :
    (reads (budget + 15) arguments opened feed).Lands opened (opened + 1) (opened + 2) expectation
      (resume host opened).step feed := by
  rw [arguments_eq]
  cases feed with
  | fault failure => exact Reading.lands_fault
  | finish place => cases front _ rfl
  | token first proper rest =>
    have paren : first.terminal = .leftParen := front _ rfl
    have kind : first.kind = .leftParen := Token.kind_of_terminal paren
    rw [← paren] at stepped
    rw [Reader.token_taken kind, Reading.andThen, Reading.map_map, Reader.nested]
    by_cases room : opened < maxCallDepth
    · rw [if_neg (Nat.not_le.2 room)]
      have misses : ∀ feed : Feed, feed.head? = some .rightParen →
          (reads (budget + 9) expression (opened + 1) feed).Missed := fun feed closing =>
        expression_missed closing (by simp) (by simp) budget (opened + 1)
      have path : Path (opened + 2) expectation (.token first proper rest)
          (firstArgument host opened) rest := .one stepped room (Nat.le_refl _)
      refine Reading.Lands.of_path (.map (.andThen (separated_lands room (inner room) misses
        (budget + 10) opened ordered.2) (Nat.le_succ _) ?_) _) path (Nat.le_succ _)
      exact fun values rest last _ stands => (closing_lands room (opened + 1) stands).map _
    · -- The parenthesis opens a list too many, so no path leads over it.
      have blocked : Confined (opened + 2) expectation (.token first proper rest) :=
        confined_token fun next stepped' shallow => by
          cases stepped.symm.trans stepped'
          exact absurd shallow room
      rw [if_pos (Nat.not_lt.1 room)]
      cases rest.look with
      | error failure => exact ⟨blocked, fun soft => by cases soft⟩
      | ok token => exact ⟨blocked, fun soft => by cases soft⟩

end

/-! ## Values -/

section

variable {host : Host} {depth budget : Nat} {first : Token} {name : String}
  {proper : first.kind ≠ .endOfInput} {rest : Feed} {expectation : Expectation}

/-- What is expected behind a truth value stands like what follows a value, if the list
that it might have opened is confined. -/
private theorem calleeEnd_stands (ordered : rest.Ordered)
    (confined : rest.head? = some .leftParen → Confined (depth + 2) (calleeEnd true host depth) rest) :
    Stands (depth + 1) (calleeEnd true host depth) (resume host depth).step rest where
  ordered := ordered
  wider {terminal next} taken := by
    rw [step_resume] at taken
    rw [← taken]
    refine stepCalleeEnd_eq true host depth ?_
    rintro rfl
    rw [stepResume_leftParen] at taken
    cases taken
  greedy {terminal next} found stepped := by
    by_cases opening : terminal = .leftParen
    · subst opening
      exact .inr ((confined found).mono (by omega))
    · rw [step_resume, ← stepped]
      exact .inl (stepCalleeEnd_eq true host depth opening).symm

private theorem boolean_refuses {feed : Feed} {terminal : Terminal}
    (front : feed.head? = some terminal)
    (other : ∀ name, terminal = .identifier name → isTruth name = false) (budget depth : Nat) :
    (reads (budget + 3) boolean depth feed).Refuses feed := by
  have yes : terminal ≠ .identifier "true" := fun same => nomatch other _ same
  have no : terminal ≠ .identifier "false" := fun same => nomatch other _ same
  refine ⟨"Expected boolean value", ?_⟩
  rw [boolean_eq, Reader.choice_refuses front]
  · rfl
  · simp only [List.forall_mem_cons, List.not_mem_nil, false_implies, implies_true, and_true]
    exact ⟨Reader.keyword_refuses front yes depth, Reader.keyword_refuses front no depth⟩

private theorem string_refuses {feed : Feed} {terminal : Terminal}
    (front : feed.head? = some terminal) (other : terminal.kind ≠ .string) (budget depth : Nat) :
    (reads (budget + 2) string depth feed).Refuses feed :=
  ⟨_, congrArg (Reading.map _) (Reader.token_refuses front other depth)⟩

private theorem call_refuses {feed : Feed} {terminal : Terminal}
    (front : feed.head? = some terminal) (other : terminal.kind ≠ .identifier) (budget depth : Nat) :
    (reads (budget + 8) call depth feed).Refuses feed := by
  rw [call_eq]
  have refuses : (reads (budget + 6) identifier depth feed).Refuses feed :=
    ⟨_, congrArg (Reading.map _) (Reader.token_refuses front other depth)⟩
  exact (refuses.andThen _).map _

/-- What begins no value is refused in the words of a value. -/
private theorem expression_refuses {feed : Feed} {terminal : Terminal}
    (front : feed.head? = some terminal) (name : terminal.kind ≠ .identifier)
    (text : terminal.kind ≠ .string) (budget depth : Nat) :
    reads (budget + 9) expression depth feed =
      .failure (.mismatch Demand.value.message feed.place) := by
  rw [expression_eq, Reader.choice_refuses front]
  · rfl
  · simp only [List.forall_mem_cons, List.not_mem_nil, false_implies, implies_true, and_true]
    refine ⟨call_refuses front name budget depth, string_refuses front text _ depth,
      boolean_refuses front ?_ _ depth⟩
    rintro _ rfl
    exact absurd rfl name

private theorem expression_name (same : first.terminal = .identifier name) :
    reads (budget + 9) expression depth (.token first proper rest) =
      (reads (budget + 6) arguments depth rest).resolve
        (fun result after =>
          .value (.call ⟨name, first.span⟩ result.1 ⟨first.start, result.2.stop⟩) after)
        fun error => Reader.firstOf
          (ParseError.furthest (.mismatch "Expected expression" first.start) error)
          [reads (budget + 8) string, reads (budget + 8) boolean] depth
          (.token first proper rest) := by
  have front : (Feed.token first proper rest).head? = some (.identifier name) := congrArg some same
  rw [expression_eq, Reader.choice_begins front, Reader.firstOf, call_taken same]
  cases reads (budget + 6) arguments depth rest <;> rfl

/-- A name whose arguments cannot be read is a truth value, or else the arguments are
what went wrong. -/
private theorem truth_alone (same : first.terminal = .identifier name) {error : ParseError}
    (further : first.start.offset < error.position.offset) :
    Reader.firstOf (ParseError.furthest (.mismatch "Expected expression" first.start) error)
        [reads (budget + 8) string, reads (budget + 8) boolean] depth (.token first proper rest) =
      if isTruth name then .value (.boolean (name == "true") first.span) rest
      else .failure error := by
  have front : (Feed.token first proper rest).head? = some (.identifier name) := congrArg some same
  have text := string_refuses front (by simp) (budget + 6) depth
  have later : (Feed.token first proper rest).place.offset ≤ error.position.offset :=
    Nat.le_of_lt further
  have furthest : ParseError.furthest (.mismatch "Expected expression" first.start) error = error :=
    if_pos further
  rw [furthest, ← List.singleton_append,
    Reader.firstOf_refuses later _ (List.forall_mem_singleton.2 text)]
  cases truth : isTruth name with
  | true =>
    rw [Reader.firstOf, boolean_taken same truth proper rest (budget + 5)]
    rfl
  | false =>
    have neither := boolean_refuses front (by rintro _ ⟨⟩; exact truth) (budget + 5) depth
    rw [← List.append_nil [_], Reader.firstOf_refuses later _ (List.forall_mem_singleton.2 neither)]
    rfl

/-- A name, whether or not it begins a call, is read along the path. -/
private theorem name_lands (same : first.terminal = .identifier name)
    (shallow : depth ≤ maxCallDepth)
    (stands : Stands (depth + 1) expectation (Expectation.value host depth).step
      (.token first proper rest))
    (inner : depth < maxCallDepth → ValuesLand (reads (budget + 9) expression) (depth + 1)) :
    (reads (budget + 18) expression depth (.token first proper rest)).Lands depth (depth + 1)
      (depth + 1) expectation (resume host depth).step (.token first proper rest) := by
  have stepped : expectation.step first.terminal = some (calleeEnd (isTruth name) host depth) :=
    stands.wider (by rw [same]; rfl)
  have path : Path (depth + 1) expectation (.token first proper rest)
      (calleeEnd (isTruth name) host depth) rest := .one stepped shallow (Nat.le_refl _)
  -- What becomes of the name alone, once its arguments failed in some way.
  have alone : ∀ error : ParseError, rest.place.offset ≤ error.position.offset →
      (rest.head? = some .leftParen →
        Confined (depth + 2) (calleeEnd (isTruth name) host depth) rest) →
      (isTruth name = false → (Reading.failure (α := Expression) error).Lands depth (depth + 1)
        (depth + 1) (calleeEnd (isTruth name) host depth) (resume host depth).step rest) →
      (Reader.firstOf (ParseError.furthest (.mismatch "Expected expression" first.start) error)
        [reads (budget + 17) string, reads (budget + 17) boolean] depth
        (.token first proper rest)).Lands depth (depth + 1) (depth + 1) expectation
        (resume host depth).step (.token first proper rest) := by
    intro error further confined failed
    rw [truth_alone same (Nat.lt_of_lt_of_le stands.ordered.1 further)]
    cases truth : isTruth name with
    | true =>
      rw [truth] at path confined
      exact ⟨_, path, calleeEnd_stands stands.ordered.2 confined⟩
    | false => exact (failed truth).of_path path (Nat.le_refl _)
  rw [expression_name same]
  by_cases opening : ∀ terminal, rest.head? = some terminal → terminal = .leftParen
  · have lands : (reads (budget + 15) arguments depth rest).Lands depth (depth + 1) (depth + 2)
        (calleeEnd (isTruth name) host depth) (resume host depth).step rest :=
      arguments_lands rfl opening stands.ordered.2 inner
    refine ((lands.mono (Nat.le_succ _)).of_path path (Nat.le_refl _)).resolve (Nat.le_refl _) ?_ ?_
    · exact fun result after last _ stands => ⟨last, .here, stands⟩
    · intro error read soft _ _
      rw [read] at lands
      have blamed := lands.2 soft
      refine alone error (blamed.place_le stands.ordered.2) (fun _ => lands.1) fun _ => ?_
      exact ⟨lands.1.mono (Nat.le_succ _), fun _ => blamed⟩
  · simp only [Classical.not_forall] at opening
    obtain ⟨terminal, behind, other⟩ := opening
    have different : terminal.kind ≠ .leftParen := fun same =>
      other (Terminal.eq_of_kind same (by simp))
    have refused : reads (budget + 15) arguments depth rest =
        .failure (.mismatch (Demand.only .leftParen).message rest.place) := by
      rw [arguments_eq, Reader.token_refuses behind different]
      rfl
    rw [refused]
    refine alone _ (Nat.le_refl _) (fun paren => ?_) fun truth => ?_
    · cases behind.symm.trans paren
      exact absurd rfl other
    · have blocked : (calleeEnd (isTruth name) host depth).step terminal = none := by
        rw [truth]
        exact stepCalleeEnd_eq false host depth other
      refine Stands.fails (.refl stands.ordered.2) (Nat.le_max_left (depth + 1) 2)
        (fun wanted found => ?_) behind (decide_eq_false different) blocked
      have paren : wanted = .leftParen := Terminal.eq_of_kind (of_decide_eq_true found) (by simp)
      rw [paren]
      exact ⟨_, rfl, Nat.le_refl _⟩

end

private theorem value_accepted (host : Host) (depth : Nat) {terminal : Terminal}
    (wanted : Demand.value.accepts terminal = true) :
    ∃ next, (Expectation.value host depth).step terminal = some next ∧ next.opened ≤ depth + 1 := by
  cases terminal with
  | identifier name => exact ⟨_, rfl, Nat.le_succ _⟩
  | string text => exact ⟨_, rfl, by rw [opened_resume]; exact Nat.le_succ _⟩
  | _ => simp [Demand.accepts] at wanted

/-- A literal is read along the path. -/
private theorem string_lands {host : Host} {depth budget : Nat} {first : Token} {rest : Feed}
    {proper : first.kind ≠ .endOfInput} {expectation : Expectation} (quoted : first.kind = .string)
    (shallow : depth ≤ maxCallDepth)
    (stands : Stands (depth + 1) expectation (Expectation.value host depth).step
      (.token first proper rest)) :
    (reads (budget + 9) expression depth (.token first proper rest)).Lands depth (depth + 1)
      (depth + 1) expectation (resume host depth).step (.token first proper rest) := by
  have same : first.terminal = .string first.text := Token.terminal_string.2 ⟨quoted, rfl⟩
  have stepped : expectation.step first.terminal = some (resume host depth) :=
    stands.wider (by rw [same]; rfl)
  rw [expression_string quoted]
  refine ⟨resume host depth, .one stepped ?_ ?_, .refl stands.ordered.2⟩
  · rwa [opened_resume]
  · exact Nat.le_of_eq (height_resume host depth).symm

/-- One level of values. The level below it matters only where there may be one. -/
theorem expression_lands {depth budget : Nat} (shallow : depth ≤ maxCallDepth)
    (inner : depth < maxCallDepth → ValuesLand (reads (budget + 9) expression) (depth + 1)) :
    ValuesLand (reads (budget + 18) expression) depth := by
  intro host expectation feed stands
  cases ahead : feed.head? with
  | none =>
    obtain ⟨failure, rfl⟩ := Feed.eq_fault_of_head? ahead
    exact Reading.lands_fault
  | some terminal =>
    by_cases named : terminal.kind = .identifier
    · obtain ⟨first, proper, rest, rfl, rfl⟩ := Feed.eq_token_of_head? ahead (by rintro rfl; cases named)
      rw [Token.kind_terminal] at named
      exact name_lands (Token.terminal_identifier.2 ⟨named, rfl⟩) shallow stands inner
    · by_cases quoted : terminal.kind = .string
      · obtain ⟨first, proper, rest, rfl, rfl⟩ :=
          Feed.eq_token_of_head? ahead (by rintro rfl; cases quoted)
        rw [Token.kind_terminal] at quoted
        exact string_lands quoted shallow stands
      · have blocked : (Expectation.value host depth).step terminal = none := by
          cases terminal <;> first | rfl | contradiction
        rw [expression_refuses ahead named quoted (budget + 9)]
        exact stands.fails (Nat.le_max_left ..) (fun _ wanted => value_accepted host depth wanted)
          ahead (decide_eq_false (not_or.2 ⟨named, quoted⟩)) blocked

/-- Readings of values at every level stay on the path. -/
theorem valuesLand (levels : Nat) {depth budget : Nat} (left : depth + levels = maxCallDepth)
    (enough : 9 * (levels + 2) ≤ budget) : ValuesLand (reads budget expression) depth := by
  induction levels generalizing depth budget with
  | zero =>
    obtain ⟨spare, rfl⟩ := Nat.exists_eq_add_of_le enough
    rw [Nat.add_comm]
    exact expression_lands (by omega) fun room => by omega
  | succ levels ih =>
    obtain ⟨spare, rfl⟩ := Nat.exists_eq_add_of_le (show 18 ≤ budget by omega)
    rw [Nat.add_comm]
    exact expression_lands (by omega) fun _ => ih (by omega) (by omega)

end SchemaLang.Schema
