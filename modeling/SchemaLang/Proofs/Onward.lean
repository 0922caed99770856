import SchemaLang.Proofs.Rollback

/-! A rule reads on. Whatever it leaves lies behind some of the tokens that it found, and
whatever it complains of begins there, or where the rule began. No alternative that was
given up, no round that was given back and no change of words puts a failure any earlier.
Elements begin in the order of their ordinals, so a failure that stands at the first of
them has the least offset of all. -/
namespace SchemaLang

variable {κ : Type} {Γ : κ → Type} {α β : Type}

/-- Where an element of a stream begins. -/
def TokenStream.startOf : Except LexError Token → Position
  | .ok token => token.start
  | .error failure => failure.position

namespace Feed

/-- What may be left of a feed: all of it, or what lies behind some of its tokens. -/
def Leaves (feed rest : Feed) : Prop := ∃ count, rest = Feed.next^[count] feed

theorem leaves_refl (feed : Feed) : feed.Leaves feed := ⟨0, rfl⟩

theorem leaves_next (feed : Feed) : feed.Leaves feed.next := ⟨1, rfl⟩

theorem Leaves.trans {feed rest final : Feed} (one : feed.Leaves rest) (two : rest.Leaves final) :
    feed.Leaves final := by
  obtain ⟨count, rfl⟩ := one
  obtain ⟨more, rfl⟩ := two
  exact ⟨more + count, (Function.iterate_add_apply ..).symm⟩

/-- A place at which something begins that is still to be read. -/
def Fronts (feed : Feed) (place : Position) : Prop := ∃ rest, feed.Leaves rest ∧ place = rest.place

theorem startOf_look (feed : Feed) : TokenStream.startOf feed.look = feed.place := by
  cases feed <;> rfl

theorem fronts_here (feed : Feed) : feed.Fronts feed.place := ⟨feed, feed.leaves_refl, rfl⟩

theorem fronts_token {feed : Feed} {token : Token} (looked : feed.look = .ok token) :
    feed.Fronts token.start := by
  rw [← place_of_look looked]
  exact feed.fronts_here

theorem Leaves.fronts {feed rest : Feed} {place : Position} (left : feed.Leaves rest)
    (front : rest.Fronts place) : feed.Fronts place := by
  obtain ⟨final, further, same⟩ := front
  exact ⟨final, left.trans further, same⟩

/-- What begins behind the front of a feed begins at a greater offset. -/
theorem Ordered.place_le {feed rest : Feed} (ordered : feed.Ordered) (left : feed.Leaves rest) :
    rest.place = feed.place ∨ feed.place.offset < rest.place.offset := by
  obtain ⟨count, rfl⟩ := left
  induction count generalizing feed with
  | zero => exact .inl rfl
  | succ count ih =>
    rw [Function.iterate_succ_apply]
    cases feed with
    | token first proper others =>
      right
      rcases ih ordered.2 with same | later
      · rw [show Feed.next (token first proper others) = others from rfl, same]
        exact ordered.1
      · exact Nat.lt_trans ordered.1 later
    | finish | fault => exact ih ordered

theorem Ordered.next_iterate {feed : Feed} (ordered : feed.Ordered) (count : Nat) :
    (Feed.next^[count] feed).Ordered := by
  induction count generalizing feed with
  | zero => exact ordered
  | succ count ih =>
    rw [Function.iterate_succ_apply]
    cases feed with
    | token first proper others => exact ih ordered.2
    | finish | fault => exact ih ordered

end Feed

namespace Reading

/-- A reading that goes on from a feed. -/
def Onward (feed : Feed) : Reading α → Prop
  | value _ rest => feed.Leaves rest
  | failure error => feed.Fronts error.position
  | exhausted => True

variable {reading : Reading α} {feed rest : Feed}

theorem Onward.behind (onward : reading.Onward rest) (left : feed.Leaves rest) :
    reading.Onward feed := by
  cases reading with
  | value tree final => exact left.trans onward
  | failure error => exact left.fronts onward
  | exhausted => trivial

theorem Onward.map (onward : reading.Onward feed) (change : α → β) :
    (reading.map change).Onward feed := by
  cases reading with
  | value tree rest => exact onward
  | failure error => exact onward
  | exhausted => trivial

theorem Onward.andThen (onward : reading.Onward feed) {next : α → Feed → Reading β}
    (goesOn : ∀ tree rest, feed.Leaves rest → (next tree rest).Onward feed) :
    (reading.andThen next).Onward feed := by
  cases reading with
  | value tree rest => exact goesOn tree rest onward
  | failure error => exact onward
  | exhausted => trivial

theorem Onward.resolve (onward : reading.Onward feed) {found : α → Feed → Reading β}
    {missing : ParseError → Reading β}
    (goesOn : ∀ tree rest, feed.Leaves rest → (found tree rest).Onward feed)
    (missed : ∀ error, feed.Fronts error.position → (missing error).Onward feed) :
    (reading.resolve found missing).Onward feed := by
  cases reading with
  | value tree rest => exact goesOn tree rest onward
  | failure error =>
    simp only [Reading.resolve]
    split
    · exact onward
    · exact missed error onward
  | exhausted => trivial

end Reading

/-! ## Combinators -/

namespace Reader

/-- A reader that goes on from every feed. -/
def Onward (reader : Reader α) : Prop :=
  ∀ (depth : Nat) (feed : Feed), (reader depth feed).Onward feed

variable {reader : Reader α}

/-- A reading that begins with a look. -/
private theorem look_onward {feed : Feed} {found : Token → Reading α}
    (goesOn : ∀ token, feed.look = .ok token → (found token).Onward feed) :
    Reading.Onward feed (match feed.look with
      | .error failure => .failure (.ofLexError failure)
      | .ok token => found token) := by
  cases looked : feed.look with
  | error failure =>
    have place : failure.position = feed.place := by
      rw [← feed.startOf_look, looked]
      rfl
    exact ⟨feed, feed.leaves_refl, place⟩
  | ok token => exact goesOn token looked

theorem one_onward (accepts : Token → Bool) (message : String) : (one accepts message).Onward := by
  intro depth feed
  refine look_onward fun token looked => ?_
  split
  · exact feed.leaves_next
  · exact Feed.fronts_token looked

theorem firstOf_onward {readers : List (Reader α)} (inner : ∀ reader ∈ readers, reader.Onward)
    (depth : Nat) {feed : Feed} {furthest : ParseError} (front : feed.Fronts furthest.position) :
    (firstOf furthest readers depth feed).Onward feed := by
  induction readers generalizing furthest with
  | nil => exact front
  | cons first others ih =>
    refine (inner first List.mem_cons_self depth feed).resolve (fun _ _ left => left) ?_
    intro error further
    refine ih (fun other found => inner other (List.mem_cons_of_mem _ found)) ?_
    unfold ParseError.furthest
    split
    · exact further
    · exact front

theorem choice_onward {readers : List (Reader α)} (inner : ∀ reader ∈ readers, reader.Onward)
    (message : String) : (choice message readers).Onward := fun depth _ =>
  look_onward fun _ looked => firstOf_onward inner depth (Feed.fronts_token looked)

theorem optional_onward (inner : reader.Onward) : (optional reader).Onward :=
  fun depth feed => (inner depth feed).resolve (fun _ _ left => left) fun _ _ => feed.leaves_refl

theorem zeroOrMore_onward (inner : reader.Onward) (rounds : Nat) :
    (zeroOrMore reader rounds).Onward := by
  induction rounds with
  | zero => exact fun _ _ => trivial
  | succ rounds ih =>
    intro depth feed
    refine (inner depth feed).resolve (fun tree rest left => ?_) fun _ _ => feed.leaves_refl
    split
    · exact left
    · exact ((ih depth rest).map _).behind left

theorem separatedTail_onward {separator : Reader β} (inner : reader.Onward)
    (between : separator.Onward) (rounds : Nat) :
    (separatedTail reader separator rounds).Onward := by
  induction rounds with
  | zero => exact fun _ _ => trivial
  | succ rounds ih =>
    intro depth feed
    have both : Reading.Onward feed
        ((separator depth feed).andThen fun _ rest => reader depth rest) :=
      (between depth feed).andThen fun _ rest left => (inner depth rest).behind left
    refine both.resolve (fun tree rest left => ?_) fun _ _ => feed.leaves_refl
    exact ((ih depth rest).map _).behind left

theorem separated_onward {separator : Reader β} (inner : reader.Onward)
    (between : separator.Onward) (rounds : Nat) : (separated reader separator rounds).Onward := by
  intro depth feed
  refine (inner depth feed).resolve (fun tree rest left => ?_) fun _ _ => feed.leaves_refl
  exact ((separatedTail_onward inner between rounds depth rest).map _).behind left

theorem takeUntil_onward (inner : reader.Onward) (stop : TokenKind) (rounds : Nat) :
    (takeUntil reader stop rounds).Onward := by
  induction rounds with
  | zero => exact fun _ _ => trivial
  | succ rounds ih =>
    intro depth feed
    refine look_onward fun token looked => ?_
    split
    · exact feed.leaves_next
    · refine (inner depth feed).andThen fun tree rest left => ?_
      split
      · exact Feed.fronts_token looked
      · exact ((ih depth rest).map _).behind left

theorem withMessage_onward (inner : reader.Onward) (message : String) :
    (withMessage message reader).Onward :=
  fun depth feed => (inner depth feed).resolve (fun _ _ left => left) fun _ front => front

theorem nested_onward (inner : reader.Onward) (limit : Nat) : (nested limit reader).Onward := by
  intro depth feed
  unfold nested
  split
  · exact look_onward fun _ looked => Feed.fronts_token looked
  · exact inner (depth + 1) feed

end Reader

/-! ## Rules -/

section

variable {read : {α : Type} → Rule Γ α → Reader α}

theorem Steps.reader_onward (inner : ∀ {α : Type} (rule : Rule Γ α), (read rule).Onward) {α : Type} :
    (steps : Steps Γ α) → (steps.reader read).Onward
  | .last rule => inner rule
  | .next rule others => fun depth feed =>
    (inner rule depth feed).andThen fun _ rest left =>
      ((Steps.reader_onward inner others depth rest).map _).behind left

theorem Alternatives.readers_onward (inner : ∀ {α : Type} (rule : Rule Γ α), (read rule).Onward)
    {α : Type} : (alternatives : Alternatives Γ α) →
      ∀ reader ∈ alternatives.readers read, reader.Onward
  | .last rule => by
    intro reader found
    cases List.mem_singleton.1 found
    exact inner rule
  | .orElse rule others => by
    intro reader found
    rcases List.mem_cons.1 found with rfl | later
    · exact inner rule
    · exact Alternatives.readers_onward inner others reader later

end

/-- Every rule reads on. -/
theorem Rule.reader_onward (grammar : Grammar Γ) (budget : Nat) {α : Type} (rule : Rule Γ α) :
    (rule.reader grammar budget).Onward := by
  induction budget generalizing α with
  | zero => exact fun _ _ => trivial
  | succ budget ih =>
    cases rule with
    | token kind => exact Reader.one_onward _ _
    | keyword word => exact Reader.one_onward _ _
    | map change rule => exact fun depth feed => (ih rule depth feed).map change
    | sequence steps => exact steps.reader_onward ih
    | choice message alternatives =>
      exact Reader.choice_onward (alternatives.readers_onward ih) message
    | optional rule => exact Reader.optional_onward (ih rule)
    | zeroOrMore rule => exact Reader.zeroOrMore_onward (ih rule) budget
    | separated rule separator => exact Reader.separated_onward (ih rule) (ih separator) budget
    | takeUntil rule stop => exact Reader.takeUntil_onward (ih rule) stop budget
    | withMessage message rule => exact Reader.withMessage_onward (ih rule) message
    | nested limit rule => exact Reader.nested_onward (ih rule) limit
    | ref name => exact ih (grammar name)

/-! ## Runs that end -/

/-- What a look answers is the front of the feed in front of the cursor. -/
theorem Cursor.Shows.peek {cursor : Cursor} {feed : Feed} (shown : cursor.Shows feed) :
    cursor.peek.1 = feed.look := by
  obtain ⟨final, peeked, -⟩ := Cursor.peek_shows shown
  rw [peeked]

/-- A reading that has not run out of steps. -/
def Reading.Ended : Reading α → Prop
  | .exhausted => False
  | _ => True

/-- A reading that fails in a way that is not fatal. -/
def Reading.Misses (reading : Reading α) (error : ParseError) : Prop :=
  error.isFatal = false ∧ reading = .failure error

/-- A rule fails in a way that is not fatal. -/
def Rule.Misses (grammar : Grammar Γ) (state : ParserState) (rule : Rule Γ α) (error : ParseError) :
    Prop :=
  error.isFatal = false ∧ ∃ final, rule.Ends grammar state (.error error) final

namespace Rule

variable {grammar : Grammar Γ} {rule : Rule Γ α} {state after : ParserState} {feed rest : Feed}
  {value : α} {error : ParseError} {budget : Nat}

/-- A run that ends with a value is a reading with that value, and has reached its rest. -/
theorem value_of_ends (shown : state.cursor.Shows feed)
    (ends : rule.Ends grammar state (.ok value) after) :
    ∃ budget rest, rule.reader grammar budget state.depth feed = .value value rest ∧
      state.Reaches feed after rest := by
  obtain ⟨budget, ran⟩ := ends
  have tracked := (rule.parse_rewinds grammar budget).follows state feed shown
  rw [ran] at tracked
  obtain ⟨rest, read, reached⟩ := tracked
  exact ⟨budget, rest, read, reached⟩

/-- A run that ends with a failure is a reading with that failure, and is back where it
began. -/
theorem failure_of_ends (shown : state.cursor.Shows feed)
    (ends : rule.Ends grammar state (.error error) after) :
    ∃ budget, rule.reader grammar budget state.depth feed = .failure error ∧
      state.Reaches feed after feed := by
  obtain ⟨budget, ran⟩ := ends
  have ⟨follows, returns⟩ := rule.parse_rewinds grammar budget
  have tracked := follows state feed shown
  rw [ran] at tracked
  exact ⟨budget, tracked.1, returns state feed error after shown ran⟩

theorem ends_of_value (shown : state.cursor.Shows feed)
    (read : rule.reader grammar budget state.depth feed = .value value rest) :
    ∃ after, rule.Ends grammar state (.ok value) after ∧ state.Reaches feed after rest := by
  have tracked := (rule.parse_rewinds grammar budget).follows state feed shown
  rw [read] at tracked
  cases ran : rule.parse grammar budget state with
  | ok found after =>
    rw [ran] at tracked
    obtain ⟨final, same, reached⟩ := tracked
    cases same
    exact ⟨after, ⟨budget, ran⟩, reached⟩
  | error halt after =>
    rw [ran] at tracked
    cases halt with
    | failed error => cases tracked.1
    | exhausted => cases tracked
    | misplaced fault => exact tracked.elim

theorem ends_of_failure (shown : state.cursor.Shows feed)
    (read : rule.reader grammar budget state.depth feed = .failure error) :
    ∃ after, rule.Ends grammar state (.error error) after ∧ state.Reaches feed after feed := by
  have reported : (rule.reader grammar budget state.depth feed).report feed =
      some (.error error, feed.size) := by rw [read, Reading.report]
  obtain ⟨after, ends⟩ := ends_of_report shown reported
  obtain ⟨_, -, reached⟩ := failure_of_ends shown ends
  exact ⟨after, ends, reached⟩

theorem misses_of_reading (shown : state.cursor.Shows feed)
    (missed : (rule.reader grammar budget state.depth feed).Misses error) :
    rule.Misses grammar state error := by
  obtain ⟨final, ends, -⟩ := ends_of_failure shown missed.2
  exact ⟨missed.1, final, ends⟩

/-- A reading that has not run out of steps is that of a run that ends. -/
theorem ends_of_reading (shown : state.cursor.Shows feed)
    (read : (rule.reader grammar budget state.depth feed).Ended) :
    ∃ outcome after, rule.Ends grammar state outcome after := by
  cases reading : rule.reader grammar budget state.depth feed with
  | value value rest =>
    obtain ⟨after, ends, -⟩ := ends_of_value shown reading
    exact ⟨.ok value, after, ends⟩
  | failure error =>
    obtain ⟨after, ends, -⟩ := ends_of_failure shown reading
    exact ⟨.error error, after, ends⟩
  | exhausted => rw [reading] at read; exact read.elim

/-- Two runs that begin at the same ordinal and depth end alike. -/
theorem ends_unique {text : List Char} {other final : ParserState}
    {outcome outcome' : Except ParseError α} (reachable : state.Reachable text)
    (met : other.Reachable text) (same : other.cursor.pointer = state.cursor.pointer)
    (deep : other.depth = state.depth) (ends : rule.Ends grammar state outcome after)
    (ends' : rule.Ends grammar other outcome' final) :
    outcome' = outcome ∧ final.cursor.pointer = after.cursor.pointer := by
  have there := met.shows
  rw [same] at there
  obtain ⟨budget, left, read, moved⟩ := report_of_ends reachable.shows ends
  obtain ⟨budget', left', read', moved'⟩ := report_of_ends there ends'
  rw [deep] at read'
  cases report_unique read read'
  exact ⟨rfl, by omega⟩

/-- A failure begins where an element of the text begins, not before the one in front of
which the rule began. -/
theorem failure_fronts {text : List Char} (reachable : state.Reachable text)
    (ends : rule.Ends grammar state (.error error) after) :
    (Feed.next^[state.cursor.pointer] (.ofText text)).Fronts error.position := by
  obtain ⟨budget, read, -⟩ := failure_of_ends reachable.shows ends
  have onward := rule.reader_onward grammar budget state.depth
    (Feed.next^[state.cursor.pointer] (.ofText text))
  rw [read] at onward
  exact onward

end Rule

end SchemaLang
