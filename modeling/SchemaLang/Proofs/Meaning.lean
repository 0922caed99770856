import SchemaLang.Proofs.Reading

/-! What a rule means about the tokens it takes. Read as a relation, a rule cuts tokens in
a row into parts and ties a value to them; which alternative was tried first, what was
given back and how much budget there was is no part of it. Whatever a rule reads from a
feed stands in this relation to the tokens that the feed gave for it. -/
namespace SchemaLang

variable {κ : Type} {Γ : κ → Type} {α β : Type}

/-! ## Tokens in a row -/

/-- What taking a token takes off a feed. The end of input stays where it is. -/
def Token.taken (token : Token) : List Token := if token.kind = .endOfInput then [] else [token]

theorem Token.taken_eq {token : Token} (proper : token.kind ≠ .endOfInput) :
    token.taken = [token] := if_neg proper

/-- Tokens cut into parts, one for each value of a list. -/
inductive Row (part : List Token → α → Prop) : List Token → List α → Prop where
  | nil : Row part [] []
  | cons {own others : List Token} {value : α} {values : List α} (first : part own value)
      (rest : Row part others values) : Row part (own ++ others) (value :: values)

theorem Row.mono {part wider : List Token → α → Prop} {tokens : List Token} {values : List α}
    (row : Row part tokens values) (weaker : ∀ own value, part own value → wider own value) :
    Row wider tokens values := by
  induction row with
  | nil => exact .nil
  | cons first _ ih => exact .cons (weaker _ _ first) ih

/-- A part behind a separator, whose own value is of no interest. -/
inductive Separated (part : List Token → α → Prop) (between : List Token → β → Prop) :
    List Token → α → Prop where
  | mk {front own : List Token} {separator : β} {value : α} (apart : between front separator)
      (behind : part own value) : Separated part between (front ++ own) value

/-- Tokens cut into parts with separators between them. -/
inductive SeparatedRow (part : List Token → α → Prop) (between : List Token → β → Prop) :
    List Token → List α → Prop where
  | nil : SeparatedRow part between [] []
  | cons {own others : List Token} {value : α} {values : List α} (first : part own value)
      (rest : Row (Separated part between) others values) :
      SeparatedRow part between (own ++ others) (value :: values)

namespace Feed

/-- A feed that has these tokens in front of another feed. -/
inductive Gives : Feed → List Token → Feed → Prop where
  | nothing {feed : Feed} : Gives feed [] feed
  | token {first : Token} {proper : first.kind ≠ .endOfInput} {rest final : Feed}
      {others : List Token} (further : Gives rest others final) :
      Gives (.token first proper rest) (first :: others) final

variable {feed middle final : Feed} {tokens others : List Token}

theorem Gives.append (first : feed.Gives tokens middle) (second : middle.Gives others final) :
    feed.Gives (tokens ++ others) final := by
  induction first with
  | nothing => exact second
  | token _ ih => exact .token (ih second)

theorem Gives.split (gives : feed.Gives (tokens ++ others) final) :
    ∃ middle, feed.Gives tokens middle ∧ middle.Gives others final := by
  induction tokens generalizing feed with
  | nil => exact ⟨feed, .nothing, gives⟩
  | cons first tokens ih =>
    cases gives with
    | token further =>
      obtain ⟨middle, front, back⟩ := ih further
      exact ⟨middle, .token front, back⟩

/-- Whatever a look shows is given by a feed, unless it is the end. -/
theorem gives_next {first : Token} (looked : feed.look = .ok first) :
    feed.Gives first.taken feed.next := by
  cases feed with
  | token first proper rest =>
    cases looked
    rw [Token.taken_eq proper]
    exact .token .nothing
  | finish place =>
    cases looked
    exact .nothing
  | fault failure => cases looked

end Feed

/-! ## Readings -/

namespace Reading

/-- A reading whose value is tied to the tokens that the feed gave for it. -/
def Means (part : List Token → α → Prop) (feed : Feed) : Reading α → Prop
  | value tree rest => ∃ tokens, feed.Gives tokens rest ∧ part tokens tree
  | failure _ => True
  | exhausted => True

variable {reading : Reading α} {feed : Feed} {part : List Token → α → Prop}
  {other : List Token → β → Prop}

theorem Means.mono (means : reading.Means part feed) {wider : List Token → α → Prop}
    (weaker : ∀ tokens tree, part tokens tree → wider tokens tree) : reading.Means wider feed := by
  cases reading with
  | value tree rest =>
    obtain ⟨tokens, gives, said⟩ := means
    exact ⟨tokens, gives, weaker tokens tree said⟩
  | failure | exhausted => trivial

theorem Means.map (means : reading.Means part feed) {change : α → β}
    (changed : ∀ tokens tree, part tokens tree → other tokens (change tree)) :
    (reading.map change).Means other feed := by
  cases reading with
  | value tree rest =>
    obtain ⟨tokens, gives, said⟩ := means
    exact ⟨tokens, gives, changed tokens tree said⟩
  | failure | exhausted => trivial

/-- What is said behind some tokens is said behind them of all tokens together. -/
theorem Means.behind {rest : Feed} {front : List Token} (means : reading.Means part rest)
    (gives : feed.Gives front rest) {change : α → β}
    (joined : ∀ tokens tree, part tokens tree → other (front ++ tokens) (change tree)) :
    (reading.map change).Means other feed := by
  cases reading with
  | value tree final =>
    obtain ⟨tokens, further, said⟩ := means
    exact ⟨front ++ tokens, gives.append further, joined tokens tree said⟩
  | failure | exhausted => trivial

theorem Means.andThen (means : reading.Means part feed) {next : α → Feed → Reading β}
    (goesOn : ∀ tokens tree rest, feed.Gives tokens rest → part tokens tree →
      (next tree rest).Means other feed) :
    (reading.andThen next).Means other feed := by
  cases reading with
  | value tree rest =>
    obtain ⟨tokens, gives, said⟩ := means
    exact goesOn tokens tree rest gives said
  | failure | exhausted => trivial

theorem Means.resolve (means : reading.Means part feed) {found : α → Feed → Reading β}
    {missing : ParseError → Reading β}
    (goesOn : ∀ tokens tree rest, feed.Gives tokens rest → part tokens tree →
      (found tree rest).Means other feed)
    (missed : ∀ error, (missing error).Means other feed) :
    (reading.resolve found missing).Means other feed := by
  cases reading with
  | value tree rest =>
    obtain ⟨tokens, gives, said⟩ := means
    exact goesOn tokens tree rest gives said
  | failure error =>
    simp only [Reading.resolve]
    split
    · trivial
    · exact missed error
  | exhausted => trivial

theorem map_id (reading : Reading α) : reading.map id = reading := by
  cases reading <;> rfl

end Reading

namespace Reader

/-- A reader all of whose values are tied to the tokens they were read from. -/
def Means (part : List Token → α → Prop) (reader : Reader α) : Prop :=
  ∀ (depth : Nat) (feed : Feed), (reader depth feed).Means part feed

variable {reader : Reader α} {part : List Token → α → Prop}

theorem one_means (accepts : Token → Bool) (message : String) :
    (one accepts message).Means fun tokens token => accepts token = true ∧ tokens = token.taken := by
  intro depth feed
  unfold one
  cases looked : feed.look with
  | error failure => trivial
  | ok token =>
    dsimp only
    split
    · rename_i accepted
      exact ⟨token.taken, Feed.gives_next looked, accepted, rfl⟩
    · trivial

theorem firstOf_means {readers : List (Reader α)} (inner : ∀ reader ∈ readers, reader.Means part)
    (furthest : ParseError) : (firstOf furthest readers).Means part := by
  induction readers generalizing furthest with
  | nil => exact fun _ _ => trivial
  | cons first others ih =>
    intro depth feed
    apply (inner first List.mem_cons_self depth feed).resolve
    · exact fun tokens tree rest gives said => ⟨tokens, gives, said⟩
    · exact fun error => ih (fun other found => inner other (List.mem_cons_of_mem _ found)) _ _ _

theorem choice_means {readers : List (Reader α)} (inner : ∀ reader ∈ readers, reader.Means part)
    (message : String) : (choice message readers).Means part := by
  intro depth feed
  unfold choice
  cases feed.look with
  | error failure => trivial
  | ok token => exact firstOf_means inner _ depth feed

theorem optional_means (inner : reader.Means part) {perhaps : List Token → Option α → Prop}
    (missing : perhaps [] none) (found : ∀ tokens tree, part tokens tree → perhaps tokens (some tree)) :
    (optional reader).Means perhaps := by
  intro depth feed
  apply (inner depth feed).resolve
  · exact fun tokens tree rest gives said => ⟨tokens, gives, found tokens tree said⟩
  · exact fun error => ⟨[], .nothing, missing⟩

theorem zeroOrMore_means (inner : reader.Means part) (rounds : Nat) :
    (zeroOrMore reader rounds).Means (Row part) := by
  induction rounds with
  | zero => exact fun _ _ => trivial
  | succ rounds ih =>
    intro depth feed
    apply (inner depth feed).resolve
    · intro tokens tree rest gives said
      split
      · refine ⟨tokens, gives, ?_⟩
        simpa using Row.cons said .nil
      · exact (ih depth rest).behind gives fun others trees listed => .cons said listed
    · exact fun error => ⟨[], .nothing, .nil⟩

theorem separatedTail_means {separator : Reader β} {between : List Token → β → Prop}
    (inner : reader.Means part) (apart : separator.Means between) (rounds : Nat) :
    (separatedTail reader separator rounds).Means (Row (Separated part between)) := by
  induction rounds with
  | zero => exact fun _ _ => trivial
  | succ rounds ih =>
    intro depth feed
    have both : ((separator depth feed).andThen fun _ rest => reader depth rest).Means
        (Separated part between) feed := by
      apply (apart depth feed).andThen
      intro front sign rest gives sep
      rw [← Reading.map_id (reader depth rest)]
      exact (inner depth rest).behind gives fun own tree said => .mk sep said
    apply both.resolve
    · intro tokens tree rest gives said
      exact (ih depth rest).behind gives fun others trees listed => .cons said listed
    · exact fun error => ⟨[], .nothing, .nil⟩

theorem separated_means {separator : Reader β} {between : List Token → β → Prop}
    (inner : reader.Means part) (apart : separator.Means between) (rounds : Nat) :
    (separated reader separator rounds).Means (SeparatedRow part between) := by
  intro depth feed
  apply (inner depth feed).resolve
  · intro tokens tree rest gives said
    exact (separatedTail_means inner apart rounds depth rest).behind gives
      fun others trees listed => .cons said listed
  · exact fun error => ⟨[], .nothing, .nil⟩

/-- Parts up to a closing token are given first, and then a look shows that token. -/
theorem takeUntil_gives (inner : reader.Means part) {stop : TokenKind} {rounds depth : Nat}
    {feed rest : Feed} {trees : List α} {close : Token}
    (read : takeUntil reader stop rounds depth feed = .value (trees, close) rest) :
    ∃ own behind, feed.Gives own behind ∧ Row part own trees ∧ behind.look = .ok close ∧
      close.kind = stop ∧ rest = behind.next := by
  induction rounds generalizing feed trees with
  | zero => cases read
  | succ rounds ih =>
    unfold takeUntil at read
    cases looked : feed.look with
    | error failure => simp [looked] at read
    | ok token =>
      by_cases closing : token.kind = stop
      · simp only [looked, closing, if_true, Reading.value.injEq, Prod.mk.injEq] at read
        obtain ⟨⟨rfl, rfl⟩, rfl⟩ := read
        exact ⟨[], feed, .nothing, .nil, looked, closing, rfl⟩
      · simp only [looked, closing, if_false] at read
        have means := inner depth feed
        cases first : reader depth feed with
        | value tree middle =>
          rw [first] at means read
          obtain ⟨tokens, gives, said⟩ := means
          by_cases idle : middle.size = feed.size
          · simp [Reading.andThen, idle] at read
          · simp only [Reading.andThen, if_neg idle] at read
            cases others : takeUntil reader stop rounds depth middle with
            | value result final =>
              obtain ⟨values, last⟩ := result
              rw [others] at read
              cases read
              obtain ⟨own, behind, further, listed, shown⟩ := ih others
              exact ⟨tokens ++ own, behind, gives.append further, .cons said listed, shown⟩
            | failure error => rw [others] at read; cases read
            | exhausted => rw [others] at read; cases read
        | failure error => rw [first] at read; cases read
        | exhausted => rw [first] at read; cases read

theorem takeUntil_means (inner : reader.Means part) (stop : TokenKind) (rounds : Nat) :
    (takeUntil reader stop rounds).Means fun tokens result => ∃ own,
      tokens = own ++ result.2.taken ∧ result.2.kind = stop ∧ Row part own result.1 := by
  intro depth feed
  cases read : takeUntil reader stop rounds depth feed with
  | value result rest =>
    obtain ⟨own, behind, gives, listed, looked, closing, rfl⟩ := takeUntil_gives inner read
    exact ⟨_, gives.append (Feed.gives_next looked), own, rfl, closing, listed⟩
  | failure | exhausted => trivial

theorem withMessage_means (inner : reader.Means part) (message : String) :
    (withMessage message reader).Means part := by
  intro depth feed
  apply (inner depth feed).resolve
  · exact fun tokens tree rest gives said => ⟨tokens, gives, said⟩
  · exact fun error => trivial

theorem nested_means (inner : reader.Means part) (limit : Nat) : (nested limit reader).Means part := by
  intro depth feed
  unfold nested
  split
  · cases feed.look <;> trivial
  · exact inner (depth + 1) feed

end Reader

/-! ## Rules -/

mutual

/-- What a rule means about tokens in a row and a value, given what each name means. -/
def Rule.Means (names : (name : κ) → List Token → Γ name → Prop) {α : Type} :
    Rule Γ α → List Token → α → Prop
  | .token kind, tokens, token => token.kind = kind ∧ tokens = token.taken
  | .keyword word, tokens, token => (token.kind = .identifier ∧ token.text = word) ∧ tokens = [token]
  | .map change rule, tokens, value => ∃ inner, rule.Means names tokens inner ∧ change inner = value
  | .sequence steps, tokens, value => steps.Means names tokens value
  | .choice _ alternatives, tokens, value => alternatives.Means names tokens value
  | .optional _, tokens, none => tokens = []
  | .optional rule, tokens, some value => rule.Means names tokens value
  | .zeroOrMore rule, tokens, values => Row (rule.Means names) tokens values
  | .separated rule separator, tokens, values =>
    SeparatedRow (rule.Means names) (separator.Means names) tokens values
  | .takeUntil rule stop, tokens, (values, close) =>
    ∃ own, tokens = own ++ close.taken ∧ close.kind = stop ∧ Row (rule.Means names) own values
  | .withMessage _ rule, tokens, value => rule.Means names tokens value
  | .nested _ rule, tokens, value => rule.Means names tokens value
  | .ref name, tokens, value => names name tokens value

/-- The parts of a sequence share out the tokens in order. -/
def Steps.Means (names : (name : κ) → List Token → Γ name → Prop) {α : Type} :
    Steps Γ α → List Token → α → Prop
  | .last rule, tokens, value => rule.Means names tokens value
  | .next rule others, tokens, (value, values) =>
    ∃ own behind, tokens = own ++ behind ∧ rule.Means names own value ∧ others.Means names behind values

/-- Any of the alternatives may be the one that holds. -/
def Alternatives.Means (names : (name : κ) → List Token → Γ name → Prop) {α : Type} :
    Alternatives Γ α → List Token → α → Prop
  | .last rule, tokens, value => rule.Means names tokens value
  | .orElse rule others, tokens, value =>
    rule.Means names tokens value ∨ others.Means names tokens value

end

section

variable {read : {α : Type} → Rule Γ α → Reader α}
  {names : (name : κ) → List Token → Γ name → Prop}

theorem Steps.reader_means
    (inner : ∀ {α : Type} (rule : Rule Γ α), (read rule).Means (rule.Means names)) {α : Type} :
    (steps : Steps Γ α) → (steps.reader read).Means (steps.Means names)
  | .last rule => inner rule
  | .next rule others => fun depth feed =>
    (inner rule depth feed).andThen fun own _ rest gives said =>
      (Steps.reader_means inner others depth rest).behind gives fun behind _ more =>
        ⟨own, behind, rfl, said, more⟩

theorem Alternatives.readers_mean
    (inner : ∀ {α : Type} (rule : Rule Γ α), (read rule).Means (rule.Means names)) {α : Type} :
    (alternatives : Alternatives Γ α) →
      ∀ reader ∈ alternatives.readers read, reader.Means (alternatives.Means names)
  | .last rule => by
    intro reader found
    cases List.mem_singleton.1 found
    exact inner rule
  | .orElse rule others => by
    intro reader found depth feed
    rcases List.mem_cons.1 found with rfl | later
    · exact (inner rule depth feed).mono fun _ _ => .inl
    · exact (Alternatives.readers_mean inner others reader later depth feed).mono fun _ _ => .inr

end

/-- Whatever a rule reads is what the rule means, if a name means at least what its own
rule does. A name may use itself: what stands for it inside is read with a smaller budget. -/
theorem Rule.reader_means (grammar : Grammar Γ) {names : (name : κ) → List Token → Γ name → Prop}
    (kept : ∀ name tokens value, (grammar name).Means names tokens value → names name tokens value)
    (budget : Nat) {α : Type} (rule : Rule Γ α) :
    (rule.reader grammar budget).Means (rule.Means names) := by
  induction budget generalizing α with
  | zero => exact fun _ _ => trivial
  | succ budget ih =>
    cases rule with
    | token kind =>
      intro depth feed
      apply (Reader.one_means _ _ depth feed).mono
      rintro tokens token ⟨accepted, rfl⟩
      exact ⟨of_decide_eq_true accepted, rfl⟩
    | keyword word =>
      intro depth feed
      apply (Reader.one_means _ _ depth feed).mono
      rintro tokens token ⟨accepted, rfl⟩
      obtain ⟨named, spelled⟩ := of_decide_eq_true accepted
      exact ⟨⟨named, spelled⟩, Token.taken_eq (by rw [named]; decide)⟩
    | map change rule =>
      exact fun depth feed => (ih rule depth feed).map fun _ tree said => ⟨tree, said, rfl⟩
    | sequence steps => exact steps.reader_means ih
    | choice message alternatives =>
      exact Reader.choice_means (alternatives.readers_mean ih) message
    | optional rule => exact Reader.optional_means (ih rule) rfl fun _ _ said => said
    | zeroOrMore rule => exact Reader.zeroOrMore_means (ih rule) budget
    | separated rule separator => exact Reader.separated_means (ih rule) (ih separator) budget
    | takeUntil rule stop => exact Reader.takeUntil_means (ih rule) stop budget
    | withMessage message rule => exact Reader.withMessage_means (ih rule) message
    | nested limit rule => exact Reader.nested_means (ih rule) limit
    | ref name => exact fun depth feed => (ih (grammar name) depth feed).mono (kept name)

end SchemaLang
