import SchemaLang.Proofs.Reading

/-! How much a rule reads. A lower bound for the tokens that a rule takes can be told
from the rule alone, given one for each name. The bound of a name has to be met by the
rule behind it, which may use the name again: what it takes inside is read with a smaller
budget. A rule reads nothing back, so no bound at all is a bound for every name. -/
namespace SchemaLang

variable {κ : Type} {Γ : κ → Type} {α β : Type}

mutual

/-- The least number of tokens that a rule takes when it matches. -/
def Rule.least (names : κ → Nat) {α : Type} : Rule Γ α → Nat
  | .token kind => if kind = .endOfInput then 0 else 1
  | .keyword _ => 1
  | .map _ rule => rule.least names
  | .sequence steps => steps.least names
  | .choice _ alternatives => alternatives.least names
  | .optional _ => 0
  | .zeroOrMore _ => 0
  | .separated _ _ => 0
  | .takeUntil _ stop => if stop = .endOfInput then 0 else 1
  | .withMessage _ rule => rule.least names
  | .nested _ rule => rule.least names
  | .ref name => names name

/-- The parts of a sequence take their tokens one after the other. -/
def Steps.least (names : κ → Nat) {α : Type} : Steps Γ α → Nat
  | .last rule => rule.least names
  | .next rule others => rule.least names + others.least names

/-- Any of the alternatives may be the one that matches. -/
def Alternatives.least (names : κ → Nat) {α : Type} : Alternatives Γ α → Nat
  | .last rule => rule.least names
  | .orElse rule others => min (rule.least names) (others.least names)

end

mutual

/-- The rules that are read again and again by the repetitions inside a rule. Names are
not followed. -/
def Rule.repeated {α : Type} : Rule Γ α → List (Σ β : Type, Rule Γ β)
  | .token _ => []
  | .keyword _ => []
  | .map _ rule => rule.repeated
  | .sequence steps => steps.repeated
  | .choice _ alternatives => alternatives.repeated
  | .optional rule => rule.repeated
  | .zeroOrMore rule => ⟨_, rule⟩ :: rule.repeated
  | .separated rule separator => ⟨_, rule⟩ :: (rule.repeated ++ separator.repeated)
  | .takeUntil rule _ => ⟨_, rule⟩ :: rule.repeated
  | .withMessage _ rule => rule.repeated
  | .nested _ rule => rule.repeated
  | .ref _ => []

/-- The rules repeated inside the parts of a sequence. -/
def Steps.repeated {α : Type} : Steps Γ α → List (Σ β : Type, Rule Γ β)
  | .last rule => rule.repeated
  | .next rule others => rule.repeated ++ others.repeated

/-- The rules repeated inside the alternatives of a choice. -/
def Alternatives.repeated {α : Type} : Alternatives Γ α → List (Σ β : Type, Rule Γ β)
  | .last rule => rule.repeated
  | .orElse rule others => rule.repeated ++ others.repeated

end

namespace Feed

theorem size_next_le (feed : Feed) : feed.next.size ≤ feed.size := by
  cases feed with
  | token first proper rest => exact Nat.le_succ _
  | finish | fault => exact Nat.le_refl _

/-- Whatever is not the end of input is taken off a feed. -/
theorem size_next {feed : Feed} {first : Token} (looked : feed.look = .ok first)
    (more : first.kind ≠ .endOfInput) : feed.next.size + 1 = feed.size := by
  cases feed with
  | token => rfl
  | finish place => cases looked; exact absurd rfl more
  | fault => cases looked

end Feed

namespace Reading

/-- A reading that takes at least so many tokens off a feed, if it gives a value. -/
def Spends (count : Nat) (feed : Feed) : Reading α → Prop
  | value _ rest => rest.size + count ≤ feed.size
  | failure _ => True
  | exhausted => True

variable {reading : Reading α} {count more : Nat} {feed : Feed}

theorem Spends.mono (spends : reading.Spends more feed) (fewer : count ≤ more) :
    reading.Spends count feed := by
  cases reading with
  | value tree rest => exact Nat.le_trans (Nat.add_le_add_left fewer _) spends
  | failure | exhausted => trivial

theorem Spends.map (spends : reading.Spends count feed) (change : α → β) :
    (reading.map change).Spends count feed := by
  cases reading with
  | value tree rest => exact spends
  | failure | exhausted => trivial

/-- What is taken behind a part is taken on top of what the part takes. -/
theorem Spends.behind {rest : Feed} (spends : reading.Spends more rest)
    (passed : rest.size + count ≤ feed.size) : reading.Spends (count + more) feed := by
  cases reading with
  | value tree final =>
    have taken : final.size + more ≤ rest.size := spends
    show final.size + (count + more) ≤ feed.size
    omega
  | failure | exhausted => trivial

theorem Spends.andThen (spends : reading.Spends count feed) {next : α → Feed → Reading β}
    {total : Nat}
    (goesOn : ∀ tree rest, rest.size + count ≤ feed.size → (next tree rest).Spends total feed) :
    (reading.andThen next).Spends total feed := by
  cases reading with
  | value tree rest => exact goesOn tree rest spends
  | failure | exhausted => trivial

theorem Spends.resolve (spends : reading.Spends count feed) {found : α → Feed → Reading β}
    {missing : ParseError → Reading β} {total : Nat}
    (goesOn : ∀ tree rest, rest.size + count ≤ feed.size → (found tree rest).Spends total feed)
    (missed : ∀ error, (missing error).Spends total feed) :
    (reading.resolve found missing).Spends total feed := by
  cases reading with
  | value tree rest => exact goesOn tree rest spends
  | failure error =>
    simp only [Reading.resolve]
    split
    · trivial
    · exact missed error
  | exhausted => trivial

end Reading

namespace Reader

/-- A reader that takes at least so many tokens whenever it gives a value. -/
def Spends (count : Nat) (reader : Reader α) : Prop :=
  ∀ (depth : Nat) (feed : Feed), (reader depth feed).Spends count feed

variable {reader : Reader α} {count : Nat}

private theorem one_spends {accepts : Token → Bool} {message : String}
    (kinds : ∀ token, accepts token = true → token.kind = .endOfInput → count = 0)
    (single : count ≤ 1) : (one accepts message).Spends count := by
  intro depth feed
  unfold one
  cases looked : feed.look with
  | error failure => trivial
  | ok token =>
    dsimp only
    split
    · rename_i accepted
      show feed.next.size + count ≤ feed.size
      by_cases ended : token.kind = .endOfInput
      · rw [kinds token accepted ended]
        exact feed.size_next_le
      · have taken := Feed.size_next looked ended
        omega
    · trivial

theorem token_spends (kind : TokenKind) :
    (token kind).Spends (if kind = .endOfInput then 0 else 1) := by
  refine one_spends (fun found accepted ended => ?_) (by split <;> decide)
  rw [← of_decide_eq_true accepted, if_pos ended]

theorem keyword_spends (word : String) : (keyword word).Spends 1 := by
  refine one_spends (fun found accepted ended => ?_) (Nat.le_refl _)
  cases ended.symm.trans (of_decide_eq_true accepted).1

theorem firstOf_spends {readers : List (Reader α)} (inner : ∀ reader ∈ readers, reader.Spends count)
    (furthest : ParseError) : (firstOf furthest readers).Spends count := by
  induction readers generalizing furthest with
  | nil => exact fun _ _ => trivial
  | cons first others ih =>
    intro depth feed
    refine (inner first List.mem_cons_self depth feed).resolve (fun _ _ taken => taken) ?_
    exact fun error => ih (fun other found => inner other (List.mem_cons_of_mem _ found)) _ _ _

theorem choice_spends {readers : List (Reader α)} (inner : ∀ reader ∈ readers, reader.Spends count)
    (message : String) : (choice message readers).Spends count := by
  intro depth feed
  unfold choice
  cases feed.look with
  | error failure => trivial
  | ok token => exact firstOf_spends inner _ depth feed

theorem optional_spends (inner : reader.Spends 0) : (optional reader).Spends 0 :=
  fun depth feed => (inner depth feed).resolve (fun _ _ taken => taken) fun _ => Nat.le_refl _

theorem zeroOrMore_spends (inner : reader.Spends 0) (rounds : Nat) :
    (zeroOrMore reader rounds).Spends 0 := by
  induction rounds with
  | zero => exact fun _ _ => trivial
  | succ rounds ih =>
    intro depth feed
    refine (inner depth feed).resolve (fun tree rest taken => ?_) fun _ => Nat.le_refl _
    split
    · exact taken
    · exact ((ih depth rest).map _).behind taken

theorem separatedTail_spends {separator : Reader β} (inner : reader.Spends 0)
    (between : separator.Spends 0) (rounds : Nat) :
    (separatedTail reader separator rounds).Spends 0 := by
  induction rounds with
  | zero => exact fun _ _ => trivial
  | succ rounds ih =>
    intro depth feed
    have both := (between depth feed).andThen fun _ rest taken => (inner depth rest).behind taken
    refine both.resolve (fun tree rest taken => ?_) fun _ => Nat.le_refl _
    exact ((ih depth rest).map _).behind taken

theorem separated_spends {separator : Reader β} (inner : reader.Spends 0)
    (between : separator.Spends 0) (rounds : Nat) :
    (separated reader separator rounds).Spends 0 := by
  intro depth feed
  refine (inner depth feed).resolve (fun tree rest taken => ?_) fun _ => Nat.le_refl _
  exact ((separatedTail_spends inner between rounds depth rest).map _).behind taken

theorem takeUntil_spends (inner : reader.Spends 0) (stop : TokenKind) (rounds : Nat) :
    (takeUntil reader stop rounds).Spends (if stop = .endOfInput then 0 else 1) := by
  induction rounds with
  | zero => exact fun _ _ => trivial
  | succ rounds ih =>
    intro depth feed
    unfold takeUntil
    cases looked : feed.look with
    | error failure => trivial
    | ok token =>
      by_cases closing : token.kind = stop
      · simp only [← closing]
        show feed.next.size + _ ≤ feed.size
        split
        · exact feed.size_next_le
        · rename_i more
          exact Nat.le_of_eq (Feed.size_next looked more)
      · simp only [if_neg closing]
        refine (inner depth feed).andThen fun tree rest taken => ?_
        by_cases idle : rest.size = feed.size
        · rw [if_pos idle]
          trivial
        · rw [if_neg idle, ← Nat.zero_add (if stop = _ then _ else _)]
          exact ((ih depth rest).map _).behind taken

theorem withMessage_spends (inner : reader.Spends count) (message : String) :
    (withMessage message reader).Spends count :=
  fun depth feed => (inner depth feed).resolve (fun _ _ taken => taken) fun _ => trivial

theorem nested_spends (inner : reader.Spends count) (limit : Nat) :
    (nested limit reader).Spends count := by
  intro depth feed
  unfold nested
  split
  · cases feed.look <;> trivial
  · exact inner (depth + 1) feed

end Reader

section

variable {read : {α : Type} → Rule Γ α → Reader α} {names : κ → Nat}

theorem Steps.reader_spends
    (inner : ∀ {α : Type} (rule : Rule Γ α), (read rule).Spends (rule.least names)) {α : Type} :
    (steps : Steps Γ α) → (steps.reader read).Spends (steps.least names)
  | .last rule => inner rule
  | .next rule others => fun depth feed =>
    (inner rule depth feed).andThen fun _ rest taken =>
      ((Steps.reader_spends inner others depth rest).map _).behind taken

theorem Alternatives.readers_spend
    (inner : ∀ {α : Type} (rule : Rule Γ α), (read rule).Spends (rule.least names)) {α : Type} :
    (alternatives : Alternatives Γ α) →
      ∀ reader ∈ alternatives.readers read, reader.Spends (alternatives.least names)
  | .last rule => by
    intro reader found
    cases List.mem_singleton.1 found
    exact inner rule
  | .orElse rule others => by
    intro reader found depth feed
    rcases List.mem_cons.1 found with rfl | later
    · exact (inner rule depth feed).mono (Nat.min_le_left ..)
    · exact (Alternatives.readers_spend inner others reader later depth feed).mono
        (Nat.min_le_right ..)

end

/-- A rule takes its least number of tokens whenever it matches, if every name stands for
a rule that takes as many as the name promises. -/
theorem Rule.reader_spends (grammar : Grammar Γ) (names : κ → Nat)
    (kept : ∀ name, names name ≤ (grammar name).least names) (budget : Nat) {α : Type}
    (rule : Rule Γ α) : (rule.reader grammar budget).Spends (rule.least names) := by
  induction budget generalizing α with
  | zero => exact fun _ _ => trivial
  | succ budget ih =>
    -- Inside a repetition it does not matter how much is taken, only that nothing is given back.
    have forward : ∀ {α : Type} (rule : Rule Γ α), (rule.reader grammar budget).Spends 0 :=
      fun rule depth feed => (ih rule depth feed).mono (Nat.zero_le _)
    cases rule with
    | token kind => exact Reader.token_spends kind
    | keyword word => exact Reader.keyword_spends word
    | map change rule => exact fun depth feed => (ih rule depth feed).map change
    | sequence steps => exact steps.reader_spends ih
    | choice message alternatives =>
      exact Reader.choice_spends (alternatives.readers_spend ih) message
    | optional rule => exact Reader.optional_spends (forward rule)
    | zeroOrMore rule => exact Reader.zeroOrMore_spends (forward rule) budget
    | separated rule separator =>
      exact Reader.separated_spends (forward rule) (forward separator) budget
    | takeUntil rule stop => exact Reader.takeUntil_spends (forward rule) stop budget
    | withMessage message rule => exact Reader.withMessage_spends (ih rule) message
    | nested limit rule => exact Reader.nested_spends (ih rule) limit
    | ref name => exact fun depth feed => (ih (grammar name) depth feed).mono (kept name)

/-- No rule leaves more to be read than it found. -/
theorem Rule.reader_forward (grammar : Grammar Γ) (budget : Nat) (rule : Rule Γ α) :
    (rule.reader grammar budget).Spends 0 :=
  fun depth feed =>
    (rule.reader_spends grammar (fun _ => 0) (fun _ => Nat.zero_le _) budget depth feed).mono
      (Nat.zero_le _)

end SchemaLang
