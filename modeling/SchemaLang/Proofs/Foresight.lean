import Mathlib.Data.List.Forall2
import SchemaLang.Proofs.Reading

/-! A reading depends on nothing that it does not look at. To say what was looked at,
a feed is cut off with a fault of our choice. A reading of the cut feed that does not
end in that fault has not reached it, and every feed that goes on in some way in its
place is read alike, with the same budget or a larger one. -/
namespace SchemaLang

namespace Feed

/-- The first feed is the second one, cut off somewhere or nowhere. -/
inductive Cut (cut : LexError) : Feed → Feed → Prop where
  | here (long : Feed) : Cut cut (.fault cut) long
  | token {first : Token} {proper : first.kind ≠ .endOfInput} {short long : Feed}
      (rest : Cut cut short long) : Cut cut (.token first proper short) (.token first proper long)
  | finish (place : Position) : Cut cut (.finish place) (.finish place)
  | fault (failure : LexError) : Cut cut (.fault failure) (.fault failure)

variable {cut : LexError} {short long : Feed}

/-- A feed may be cut off nowhere. -/
theorem cut_refl (cut : LexError) (feed : Feed) : Cut cut feed feed := by
  induction feed with
  | token first proper rest ih => exact .token ih
  | finish place => exact .finish place
  | fault failure => exact .fault failure

theorem Cut.size_le (ahead : Cut cut short long) : short.size ≤ long.size := by
  induction ahead with
  | here => exact Nat.zero_le _
  | token _ ih => exact Nat.succ_le_succ ih
  | finish | fault => exact Nat.le_refl _

theorem Cut.look (ahead : Cut cut short long) :
    short.look = .error cut ∨ long.look = short.look := by
  cases ahead with
  | here => exact .inl rfl
  | token | finish | fault => exact .inr rfl

theorem Cut.next (ahead : Cut cut short long) {token : Token} (looked : short.look = .ok token) :
    Cut cut short.next long.next ∧ short.size + long.next.size = long.size + short.next.size := by
  cases ahead with
  | here | fault => cases looked
  | token rest =>
    refine ⟨rest, ?_⟩
    simp only [Feed.size, Feed.next]
    omega
  | finish place => exact ⟨.finish place, rfl⟩

end Feed

variable {κ : Type} {Γ : κ → Type} {α β : Type} {cut : LexError}

/-- What is read from a cut feed is what is read from the whole one, unless it ran out
of budget or ended in the cut. Both readings take the same number of tokens. -/
def Reading.Carries (cut : LexError) (short long : Feed) (reading whole : Reading α) : Prop :=
  match reading with
  | value result rest => ∃ behind, whole = value result behind ∧ Feed.Cut cut rest behind ∧
      short.size + behind.size = long.size + rest.size
  | failure error => error = .ofLexError cut ∨ whole = failure error
  | exhausted => True

/-- A reader carries over to another one from every cut feed. -/
def Reader.Carries (cut : LexError) (reader whole : Reader α) : Prop :=
  ∀ (depth : Nat) {short long : Feed}, Feed.Cut cut short long →
    (reader depth short).Carries cut short long (whole depth long)

namespace Reading

variable {short long : Feed} {reading whole : Reading α}

theorem carries_cut : (Reading.failure (α := α) (.ofLexError cut)).Carries cut short long whole :=
  .inl rfl

theorem Carries.earlier {rest behind : Feed} (carries : reading.Carries cut rest behind whole)
    (moved : short.size + behind.size = long.size + rest.size) :
    reading.Carries cut short long whole := by
  cases reading with
  | value result final =>
    obtain ⟨last, read, ahead, moved'⟩ := carries
    exact ⟨last, read, ahead, by omega⟩
  | failure error => exact carries
  | exhausted => trivial

theorem Carries.map (carries : reading.Carries cut short long whole) (change : α → β) :
    (reading.map change).Carries cut short long (whole.map change) := by
  cases reading with
  | value result rest =>
    obtain ⟨behind, rfl, ahead, moved⟩ := carries
    exact ⟨behind, rfl, ahead, moved⟩
  | failure error =>
    rcases carries with same | rfl
    · exact .inl same
    · exact .inr rfl
  | exhausted => trivial

/-- What goes on behind a part, whether it is there or not. -/
theorem Carries.resolve (carries : reading.Carries cut short long whole)
    {found found' : α → Feed → Reading β} {missing missing' : ParseError → Reading β}
    (next : ∀ result rest behind, Feed.Cut cut rest behind →
      short.size + behind.size = long.size + rest.size →
      (found result rest).Carries cut short long (found' result behind))
    (missed : ∀ error, (missing error).Carries cut short long (missing' error)) :
    (reading.resolve found missing).Carries cut short long (whole.resolve found' missing') := by
  cases reading with
  | value result rest =>
    obtain ⟨behind, rfl, ahead, moved⟩ := carries
    exact next result rest behind ahead moved
  | failure error =>
    rcases carries with rfl | rfl
    · exact carries_cut
    · simp only [Reading.resolve]
      split
      · exact .inr rfl
      · exact missed error
  | exhausted => trivial

theorem Carries.andThen (carries : reading.Carries cut short long whole)
    {found found' : α → Feed → Reading β}
    (next : ∀ result rest behind, Feed.Cut cut rest behind →
      short.size + behind.size = long.size + rest.size →
      (found result rest).Carries cut short long (found' result behind)) :
    (reading.andThen found).Carries cut short long (whole.andThen found') := by
  cases reading with
  | value result rest =>
    obtain ⟨behind, rfl, ahead, moved⟩ := carries
    exact next result rest behind ahead moved
  | failure error =>
    rcases carries with same | rfl
    · exact .inl same
    · exact .inr rfl
  | exhausted => trivial

end Reading

namespace Reader

/-- A reading that begins with a look. -/
private theorem look_carries {short long : Feed} (ahead : Feed.Cut cut short long)
    {found found' : Token → Reading α}
    (next : ∀ token, short.look = .ok token → (found token).Carries cut short long (found' token)) :
    Reading.Carries cut short long
      (match short.look with
        | .error failure => .failure (.ofLexError failure)
        | .ok token => found token)
      (match long.look with
        | .error failure => .failure (.ofLexError failure)
        | .ok token => found' token) := by
  rcases ahead.look with looked | same
  · rw [looked]
    exact Reading.carries_cut
  · rw [same]
    cases looked : short.look with
    | error failure => exact .inr rfl
    | ok token => exact next token looked

theorem one_carries (accepts : Token → Bool) (message : String) :
    (one accepts message).Carries cut (one accepts message) := by
  intro depth short long ahead
  refine look_carries ahead fun token looked => ?_
  split
  · obtain ⟨behind, moved⟩ := ahead.next looked
    exact ⟨_, rfl, behind, moved⟩
  · exact .inr rfl

theorem map_carries {reader whole : Reader α} (same : reader.Carries cut whole) (change : α → β) :
    Carries cut (fun depth feed => (reader depth feed).map change)
      fun depth feed => (whole depth feed).map change :=
  fun depth _ _ ahead => (same depth ahead).map change

theorem firstOf_carries {readers wholes : List (Reader α)}
    (same : List.Forall₂ (Reader.Carries cut) readers wholes) (furthest : ParseError) :
    (firstOf furthest readers).Carries cut (firstOf furthest wholes) := by
  induction same generalizing furthest with
  | nil => exact fun _ _ _ _ => .inr rfl
  | cons first _ ih =>
    intro depth short long ahead
    refine (first depth ahead).resolve ?_ fun error => ih _ depth ahead
    exact fun result rest behind ahead moved => ⟨behind, rfl, ahead, moved⟩

theorem choice_carries {readers wholes : List (Reader α)}
    (same : List.Forall₂ (Reader.Carries cut) readers wholes) (message : String) :
    (choice message readers).Carries cut (choice message wholes) :=
  fun depth _ _ ahead => look_carries ahead fun _ _ => firstOf_carries same _ depth ahead

theorem optional_carries {reader whole : Reader α} (same : reader.Carries cut whole) :
    (optional reader).Carries cut (optional whole) := by
  intro depth short long ahead
  refine (same depth ahead).resolve ?_ fun _ => ⟨long, rfl, ahead, Nat.add_comm ..⟩
  exact fun result rest behind ahead moved => ⟨behind, rfl, ahead, moved⟩

theorem zeroOrMore_carries {reader whole : Reader α} (same : reader.Carries cut whole)
    {rounds more : Nat} (enough : rounds ≤ more) :
    (zeroOrMore reader rounds).Carries cut (zeroOrMore whole more) := by
  induction rounds generalizing more with
  | zero => exact fun _ _ _ _ => trivial
  | succ rounds ih =>
    obtain ⟨more, rfl⟩ := Nat.exists_eq_add_one.2 (Nat.lt_of_lt_of_le rounds.succ_pos enough)
    intro depth short long ahead
    refine (same depth ahead).resolve ?_ fun _ => ⟨long, rfl, ahead, Nat.add_comm ..⟩
    intro result rest behind passed moved
    have standing : rest.size = short.size ↔ behind.size = long.size := by omega
    simp only [standing]
    split
    · exact ⟨behind, rfl, passed, moved⟩
    · exact ((ih (Nat.le_of_succ_le_succ enough) depth passed).earlier moved).map _

theorem separatedTail_carries {reader whole : Reader α} {separator separator' : Reader β}
    (same : reader.Carries cut whole) (separates : separator.Carries cut separator')
    {rounds more : Nat} (enough : rounds ≤ more) :
    (separatedTail reader separator rounds).Carries cut (separatedTail whole separator' more) := by
  induction rounds generalizing more with
  | zero => exact fun _ _ _ _ => trivial
  | succ rounds ih =>
    obtain ⟨more, rfl⟩ := Nat.exists_eq_add_one.2 (Nat.lt_of_lt_of_le rounds.succ_pos enough)
    intro depth short long ahead
    refine Reading.Carries.resolve ((separates depth ahead).andThen ?_) ?_ ?_
    · exact fun _ rest behind passed moved => (same depth passed).earlier moved
    · intro result rest behind passed moved
      exact ((ih (Nat.le_of_succ_le_succ enough) depth passed).earlier moved).map _
    · exact fun _ => ⟨long, rfl, ahead, Nat.add_comm ..⟩

theorem separated_carries {reader whole : Reader α} {separator separator' : Reader β}
    (same : reader.Carries cut whole) (separates : separator.Carries cut separator')
    {rounds more : Nat} (enough : rounds ≤ more) :
    (separated reader separator rounds).Carries cut (separated whole separator' more) := by
  intro depth short long ahead
  refine (same depth ahead).resolve ?_ fun _ => ⟨long, rfl, ahead, Nat.add_comm ..⟩
  intro result rest behind passed moved
  exact ((separatedTail_carries same separates enough depth passed).earlier moved).map _

theorem takeUntil_carries {reader whole : Reader α} (same : reader.Carries cut whole)
    (stop : TokenKind) {rounds more : Nat} (enough : rounds ≤ more) :
    (takeUntil reader stop rounds).Carries cut (takeUntil whole stop more) := by
  induction rounds generalizing more with
  | zero => exact fun _ _ _ _ => trivial
  | succ rounds ih =>
    obtain ⟨more, rfl⟩ := Nat.exists_eq_add_one.2 (Nat.lt_of_lt_of_le rounds.succ_pos enough)
    intro depth short long ahead
    refine look_carries ahead fun token looked => ?_
    split
    · obtain ⟨behind, moved⟩ := ahead.next looked
      exact ⟨_, rfl, behind, moved⟩
    · refine (same depth ahead).andThen fun result rest behind passed moved => ?_
      have standing : rest.size = short.size ↔ behind.size = long.size := by omega
      simp only [standing]
      split
      · exact .inr rfl
      · exact ((ih (Nat.le_of_succ_le_succ enough) depth passed).earlier moved).map _

theorem withMessage_carries {reader whole : Reader α} (same : reader.Carries cut whole)
    (message : String) : (withMessage message reader).Carries cut (withMessage message whole) := by
  intro depth short long ahead
  refine (same depth ahead).resolve ?_ fun _ => .inr rfl
  exact fun result rest behind ahead moved => ⟨behind, rfl, ahead, moved⟩

theorem nested_carries {reader whole : Reader α} (same : reader.Carries cut whole) (limit : Nat) :
    (nested limit reader).Carries cut (nested limit whole) := by
  intro depth short long ahead
  unfold nested
  split
  · exact look_carries ahead fun _ _ => .inr rfl
  · exact same (depth + 1) ahead

end Reader

/-! ## Rules -/

section

variable {read whole : {α : Type} → Rule Γ α → Reader α}

theorem Steps.reader_carries
    (same : ∀ {α : Type} (rule : Rule Γ α), (read rule).Carries cut (whole rule)) {α : Type} :
    (steps : Steps Γ α) → (steps.reader read).Carries cut (steps.reader whole)
  | .last rule => same rule
  | .next rule others => by
    intro depth short long ahead
    refine (same rule depth ahead).andThen fun result rest behind passed moved => ?_
    exact ((Steps.reader_carries same others depth passed).earlier moved).map _

theorem Alternatives.readers_carry
    (same : ∀ {α : Type} (rule : Rule Γ α), (read rule).Carries cut (whole rule)) {α : Type} :
    (alternatives : Alternatives Γ α) →
      List.Forall₂ (Reader.Carries cut) (alternatives.readers read) (alternatives.readers whole)
  | .last rule => .cons (same rule) .nil
  | .orElse rule others => .cons (same rule) (Alternatives.readers_carry same others)

end

/-- What a rule reads within a budget and before a cut, it reads with any larger
budget and whatever stands behind the cut. -/
theorem Rule.reader_carries (grammar : Grammar Γ) {budget more : Nat} (enough : budget ≤ more)
    {α : Type} (rule : Rule Γ α) :
    (rule.reader grammar budget).Carries cut (rule.reader grammar more) := by
  induction budget generalizing more α with
  | zero => exact fun _ _ _ _ => trivial
  | succ budget ih =>
    obtain ⟨more, rfl⟩ := Nat.exists_eq_add_one.2 (Nat.lt_of_lt_of_le budget.succ_pos enough)
    have less := Nat.le_of_succ_le_succ enough
    have inner : ∀ {α : Type} (rule : Rule Γ α),
        (rule.reader grammar budget).Carries cut (rule.reader grammar more) := ih less
    cases rule with
    | token kind => exact Reader.one_carries _ _
    | keyword word => exact Reader.one_carries _ _
    | map change rule => exact Reader.map_carries (inner rule) change
    | sequence steps => exact steps.reader_carries inner
    | choice message alternatives =>
      exact Reader.choice_carries (alternatives.readers_carry inner) message
    | optional rule => exact Reader.optional_carries (inner rule)
    | zeroOrMore rule => exact Reader.zeroOrMore_carries (inner rule) less
    | separated rule separator => exact Reader.separated_carries (inner rule) (inner separator) less
    | takeUntil rule stop => exact Reader.takeUntil_carries (inner rule) stop less
    | withMessage message rule => exact Reader.withMessage_carries (inner rule) message
    | nested limit rule => exact Reader.nested_carries (inner rule) limit
    | ref name => exact inner (grammar name)

/-! ## Larger budgets -/

/-- A failure that is not this one, further on than it. -/
def ParseError.apart (error : ParseError) : LexError :=
  ⟨{ error.position with offset := error.position.offset + 1 }, 'a'⟩

theorem ParseError.ne_apart (error : ParseError) : error ≠ .ofLexError error.apart := fun same => by
  have moved := congrArg (·.position.offset) same
  simp [apart, ofLexError] at moved

/-- Two readings end alike, unless the first one ran out of budget. -/
def Reading.Lasts (reading whole : Reading α) : Prop :=
  match reading with
  | value tree _ => ∃ rest, whole = value tree rest
  | failure error => whole = failure error
  | exhausted => True

/-- A reading that carries over wherever its feed is cut lasts. -/
theorem Reading.lasts_of_carries {reading whole : Reading α} {feed : Feed}
    (carries : ∀ cut, reading.Carries cut feed feed whole) : reading.Lasts whole := by
  cases reading with
  | value tree rest =>
    obtain ⟨behind, same, -⟩ := carries ⟨.start, 'a'⟩
    exact ⟨behind, same⟩
  | failure error =>
    -- The cut is put at a place of its own, so that the failure cannot be mistaken for it.
    rcases carries error.apart with same | same
    · exact absurd same error.ne_apart
    · exact same
  | exhausted => trivial

end SchemaLang
