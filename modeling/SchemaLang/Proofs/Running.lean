import Mathlib.Data.List.Forall2
import SchemaLang.Proofs.Reading

/-! Running a rule on a cursor gives the same answer as its reader, and leaves the
cursor where the reader stopped. What the cursor had cached before, and how often
a failed part was given back on the way, makes no difference to either. -/
namespace SchemaLang

variable {κ : Type} {Γ : κ → Type} {α β : Type}

/-- A later state of the same run: no level was left open, and all that could be
seen before can still be seen. -/
structure ParserState.Leads (before after : ParserState) : Prop where
  depth : after.depth = before.depth
  kept : before.cursor.Keeps after.cursor

namespace ParserState

theorem Leads.refl (state : ParserState) : state.Leads state := ⟨rfl, .refl _⟩

theorem Leads.trans {first second third : ParserState} (one : first.Leads second)
    (two : second.Leads third) : first.Leads third :=
  ⟨two.depth.trans one.depth, one.kept.trans two.kept⟩

/-- A state in front of the rest of a feed that another state had in front of it. -/
structure Reaches (before : ParserState) (feed : Feed) (after : ParserState) (rest : Feed) :
    Prop where
  leads : before.Leads after
  shows : after.cursor.Shows rest
  moved : after.cursor.pointer + rest.size = before.cursor.pointer + feed.size

theorem Reaches.here {state : ParserState} {feed : Feed} (shown : state.cursor.Shows feed) :
    state.Reaches feed state feed :=
  ⟨.refl state, shown, rfl⟩

theorem Reaches.trans {first second third : ParserState} {feed rest final : Feed}
    (one : first.Reaches feed second rest) (two : second.Reaches rest third final) :
    first.Reaches feed third final :=
  ⟨one.leads.trans two.leads, two.shows, two.moved.trans one.moved⟩

end ParserState

/-- How the end of a run and a reading belong together. A run that fails may have
moved on; its cursor still has everything it once had. -/
def Reading.Tracks (reading : Reading α) (feed : Feed) (before : ParserState) :
    EStateM.Result Halt ParserState α → Prop
  | .ok result after => ∃ rest, reading = .value result rest ∧ before.Reaches feed after rest
  | .error (.failed error) after => reading = .failure error ∧ before.Leads after
  | .error .exhausted _ => reading = .exhausted
  | .error (.misplaced _) _ => False

/-- A parser and a reader that answer alike. -/
def Parser.Follows (parser : Parser α) (reader : Reader α) : Prop :=
  ∀ state feed, state.cursor.Shows feed →
    (reader state.depth feed).Tracks feed state (parser state)

/-- A parser that also goes back to where it began when it fails. -/
structure Parser.Rewinds (parser : Parser α) (reader : Reader α) : Prop where
  follows : parser.Follows reader
  returns : ∀ state feed error after, state.cursor.Shows feed →
    parser state = .error (.failed error) after → state.Reaches feed after feed

/-- What follows a run from a later state is also tracked from the first one. -/
theorem Reading.Tracks.earlier {reading : Reading α} {feed rest : Feed}
    {before middle : ParserState} {result : EStateM.Result Halt ParserState α}
    (reached : before.Reaches feed middle rest) (tracked : reading.Tracks rest middle result) :
    reading.Tracks feed before result := by
  cases result with
  | ok value after =>
    obtain ⟨final, same, later⟩ := tracked
    exact ⟨final, same, reached.trans later⟩
  | error halt after =>
    cases halt with
    | failed error => exact ⟨tracked.1, reached.leads.trans tracked.2⟩
    | exhausted => exact tracked
    | misplaced fault => exact tracked

/-- A parser that follows a reader goes on doing so from every later state. -/
theorem Parser.Follows.later {parser : Parser α} {reader : Reader α} (same : parser.Follows reader)
    {before after : ParserState} {feed rest : Feed} (reached : before.Reaches feed after rest) :
    (reader before.depth rest).Tracks feed before (parser after) := by
  have tracked := same after rest reached.shows
  rw [reached.leads.depth] at tracked
  exact tracked.earlier reached

namespace Parser

/-- A look at the front of the feed, whatever comes after it. -/
theorem peek_reaches {state : ParserState} {feed : Feed} (shown : state.cursor.Shows feed) :
    ∃ after, state.Reaches feed after feed ∧
      peek state = match feed.look with
        | .ok token => .ok token after
        | .error failure => .error (.failed (.ofLexError failure)) after := by
  obtain ⟨cursor, looked, same, shownAfter, kept, _⟩ := Cursor.peek_shows shown
  refine ⟨⟨cursor, state.depth⟩, ⟨⟨rfl, kept⟩, shownAfter, by simp only [same]⟩, ?_⟩
  simp only [peek, reading, looked]
  cases feed.look <;> rfl

theorem advance_reaches {state : ParserState} {feed : Feed} (shown : state.cursor.Shows feed) :
    ∃ after, state.Reaches feed after feed.next ∧
      advance state = match feed.look with
        | .ok token => .ok token after
        | .error failure => .error (.failed (.ofLexError failure)) after := by
  obtain ⟨cursor, looked, shownAfter, kept, moved⟩ := Cursor.advance_shows shown
  refine ⟨⟨cursor, state.depth⟩, ⟨⟨rfl, kept⟩, shownAfter, moved⟩, ?_⟩
  simp only [advance, reading, looked]
  cases feed.look <;> rfl

/-- Going back to where a feed was shown before always succeeds. -/
theorem restore_reaches {before after : ParserState} {feed : Feed}
    (shown : before.cursor.Shows feed) (led : before.Leads after) :
    ∃ final, restore before.cursor.pointer after = .ok () final ∧
      before.Reaches feed final feed := by
  have back := led.kept before.cursor.pointer feed shown
  refine ⟨{ after with cursor := { after.cursor with pointer := before.cursor.pointer } }, ?_,
    ⟨led.depth, led.kept⟩, back, rfl⟩
  simp only [restore, Cursor.restore, if_pos back.1]

theorem bind_run (parser : Parser α) (next : α → Parser β) (state : ParserState) :
    (parser >>= next) state = match parser state with
      | .ok value after => next value after
      | .error halt after => .error halt after := by
  show EStateM.bind parser next state = _
  unfold EStateM.bind
  cases parser state <;> rfl

/-- A parser that is made to go back follows the same reader. -/
theorem Follows.rewinding {parser : Parser α} {reader : Reader α} (same : parser.Follows reader) :
    parser.rewinding.Rewinds reader := by
  have outcome : ∀ state feed, state.cursor.Shows feed →
      (reader state.depth feed).Tracks feed state (parser.rewinding state) ∧
      ∀ error after, parser.rewinding state = .error (.failed error) after →
        state.Reaches feed after feed := by
    intro state feed shown
    have tracked := same state feed shown
    simp only [Parser.rewinding, bind_run, pointer, attempt]
    cases ran : parser state with
    | ok value after =>
      rw [ran] at tracked
      refine ⟨tracked, ?_⟩
      rintro _ _ ⟨⟩
    | error halt after =>
      rw [ran] at tracked
      cases halt with
      | failed error =>
        obtain ⟨final, back, reached⟩ := restore_reaches shown tracked.2
        simp only [bind_run, back]
        refine ⟨⟨tracked.1, reached.leads⟩, ?_⟩
        rintro _ _ ⟨⟩
        exact reached
      | exhausted =>
        refine ⟨tracked, ?_⟩
        rintro _ _ ⟨⟩
      | misplaced fault => exact tracked.elim
  exact ⟨fun state feed shown => (outcome state feed shown).1,
    fun state feed error after shown ran => (outcome state feed shown).2 error after ran⟩

/-- Two parsers in a row. -/
theorem tracks_bind {parser : Parser α} {reader : Reader α} (same : parser.Follows reader)
    {state : ParserState} {feed : Feed} (shown : state.cursor.Shows feed)
    {next : α → Parser β} {further : α → Feed → Reading β}
    (goesOn : ∀ value rest after, state.Reaches feed after rest →
      (further value rest).Tracks feed state (next value after)) :
    ((reader state.depth feed).andThen further).Tracks feed state ((parser >>= next) state) := by
  have tracked := same state feed shown
  rw [bind_run]
  cases ran : parser state with
  | ok value after =>
    rw [ran] at tracked
    obtain ⟨rest, same, reached⟩ := tracked
    rw [same]
    exact goesOn value rest after reached
  | error halt after =>
    rw [ran] at tracked
    cases halt with
    | failed error => rw [tracked.1]; exact ⟨rfl, tracked.2⟩
    | exhausted => rw [show reader state.depth feed = .exhausted from tracked]; rfl
    | misplaced fault => exact tracked.elim

/-- A part that may be missing: its failure is taken in hand, and only a fatal one
goes on as it is. -/
theorem tracks_attempt {parser : Parser α} {reader : Reader α} (same : parser.Rewinds reader)
    {state : ParserState} {feed : Feed} (shown : state.cursor.Shows feed)
    {next : Except ParseError α → Parser β} {found : α → Feed → Reading β}
    {missing : ParseError → Reading β}
    (onValue : ∀ value rest after, state.Reaches feed after rest →
      (found value rest).Tracks feed state (next (.ok value) after))
    (onFailure : ∀ error after, error.isFatal = false → state.Reaches feed after feed →
      (missing error).Tracks feed state (next (.error error) after))
    (onFatal : ∀ error after, error.isFatal = true →
      next (.error error) after = .error (.failed error) after) :
    ((reader state.depth feed).resolve found missing).Tracks feed state
      ((parser.attempt >>= next) state) := by
  have tracked := same.follows state feed shown
  simp only [bind_run, attempt]
  cases ran : parser state with
  | ok value after =>
    rw [ran] at tracked
    obtain ⟨rest, same, reached⟩ := tracked
    rw [same]
    exact onValue value rest after reached
  | error halt after =>
    rw [ran] at tracked
    cases halt with
    | failed error =>
      simp only [tracked.1, Reading.resolve]
      cases fatal : error.isFatal with
      | true => rw [onFatal error after fatal]; exact ⟨rfl, tracked.2⟩
      | false => exact onFailure error after fatal (same.returns state feed error after shown ran)
    | exhausted => rw [show reader state.depth feed = .exhausted from tracked]; rfl
    | misplaced fault => exact tracked.elim

/-! ## Combinators -/

private theorem peek_follows {feed : Feed} {state : ParserState} (shown : state.cursor.Shows feed)
    {next : Token → Parser α} {further : Token → Reading α}
    (goesOn : ∀ token after, feed.look = .ok token → state.Reaches feed after feed →
      (further token).Tracks feed state (next token after)) :
    Reading.Tracks (match feed.look with
      | .error failure => .failure (.ofLexError failure)
      | .ok token => further token) feed state ((peek >>= next) state) := by
  obtain ⟨after, reached, looked⟩ := peek_reaches shown
  rw [bind_run, looked]
  cases front : feed.look with
  | error failure => exact ⟨rfl, reached.leads⟩
  | ok token => exact goesOn token after front reached

private theorem one_follows (accepts : Token → Bool) (message : String) :
    Follows (do
      let next ← peek
      if accepts next then advance else fail (.mismatch message next.start))
      (Reader.one accepts message) := by
  intro state feed shown
  refine peek_follows shown fun token after looked reached => ?_
  split
  · obtain ⟨final, moved, taken⟩ := advance_reaches reached.shows
    rw [taken, looked]
    exact ⟨feed.next, rfl, reached.trans moved⟩
  · exact ⟨rfl, reached.leads⟩

theorem token_follows (kind : TokenKind) : (token kind).Follows (Reader.token kind) := by
  have same := one_follows (fun token => decide (token.kind = kind))
    ("Expected " ++ kind.description)
  simp only [decide_eq_true_eq] at same
  exact same

theorem keyword_follows (word : String) : (keyword word).Follows (Reader.keyword word) := by
  have same := one_follows (fun token => decide (token.kind = .identifier ∧ token.text = word))
    ("Expected keyword " ++ word)
  simp only [decide_eq_true_eq] at same
  exact same

/-- The value of a further run may be changed before it is handed out. -/
private theorem tracks_map {parser : Parser α} {reading : Reading α} {feed : Feed}
    {before state : ParserState} (tracked : reading.Tracks feed before (parser state))
    (change : α → β) :
    (reading.map change).Tracks feed before ((do return change (← parser) : Parser β) state) := by
  show Reading.Tracks _ _ _ ((parser >>= fun value => pure (change value)) state)
  rw [bind_run]
  cases ran : parser state with
  | ok value after =>
    rw [ran] at tracked
    obtain ⟨rest, same, reached⟩ := tracked
    exact ⟨rest, by simp only [same, Reading.map], reached⟩
  | error halt after =>
    rw [ran] at tracked
    cases halt with
    | failed error => exact ⟨by simp only [tracked.1, Reading.map], tracked.2⟩
    | exhausted => rw [show reading = .exhausted from tracked]; rfl
    | misplaced fault => exact tracked.elim

theorem map_follows {parser : Parser α} {reader : Reader α} (same : parser.Follows reader)
    (change : α → β) :
    Follows (change <$> parser) fun depth feed => (reader depth feed).map change := by
  intro state feed shown
  have ran : (change <$> parser) state = (do return change (← parser) : Parser β) state := by
    show EStateM.map change parser state = (parser >>= fun value => pure (change value)) state
    rw [bind_run, EStateM.map]
    cases parser state <;> rfl
  rw [ran]
  exact tracks_map (same state feed shown) change

theorem firstOf_follows (furthest : ParseError) (parsers : List (Parser α))
    (readers : List (Reader α)) (same : List.Forall₂ Rewinds parsers readers) :
    (firstOf furthest parsers).Follows (Reader.firstOf furthest readers) := by
  induction same generalizing furthest with
  | nil => exact fun state feed _ => ⟨rfl, .refl state⟩
  | cons head _ ih =>
    intro state feed shown
    refine tracks_attempt head shown ?_ ?_ ?_
    · exact fun value rest after reached => ⟨rest, rfl, reached⟩
    · intro error after soft reached
      simp only [soft, Bool.false_eq_true, if_false]
      exact (ih (furthest.furthest error)).later reached
    · intro error after fatal
      simp only [fatal, if_true]
      rfl

theorem choice_follows (message : String) (parsers : List (Parser α))
    (readers : List (Reader α)) (same : List.Forall₂ Rewinds parsers readers) :
    (choice message parsers).Follows (Reader.choice message readers) := by
  intro state feed shown
  refine peek_follows shown fun token after looked reached => ?_
  exact (firstOf_follows (.mismatch message token.start) parsers readers same).later reached

/-- A part whose failure counts as its absence, unless it is fatal. -/
private theorem tracks_recovered {parser : Parser α} {reader : Reader α}
    (same : parser.Rewinds reader) {state : ParserState} {feed : Feed}
    (shown : state.cursor.Shows feed) {next : Option α → Parser β} {found : α → Feed → Reading β}
    {missing : Reading β}
    (onValue : ∀ value rest after, state.Reaches feed after rest →
      (found value rest).Tracks feed state (next (some value) after))
    (onFailure : ∀ after, state.Reaches feed after feed →
      missing.Tracks feed state (next none after)) :
    ((reader state.depth feed).resolve found fun _ => missing).Tracks feed state
      ((do next (← recovered (← parser.attempt)) : Parser β) state) := by
  refine tracks_attempt same shown onValue ?_ ?_
  · intro error after soft reached
    simp only [recovered, soft, Bool.false_eq_true, if_false]
    exact onFailure after reached
  · intro error after fatal
    simp only [recovered, fatal, if_true]
    rfl

theorem optional_follows {parser : Parser α} {reader : Reader α} (same : parser.Rewinds reader) :
    (optional parser).Follows (Reader.optional reader) := by
  intro state feed shown
  refine tracks_attempt same shown ?_ ?_ ?_
  · exact fun value rest after reached => ⟨rest, rfl, reached⟩
  · intro error after soft reached
    simp only [recovered, soft, Bool.false_eq_true, if_false]
    exact ⟨feed, rfl, reached⟩
  · intro error after fatal
    simp only [recovered, fatal, if_true]
    rfl

theorem zeroOrMore_follows {parser : Parser α} {reader : Reader α} (same : parser.Rewinds reader)
    (budget : Nat) : (zeroOrMore parser budget).Follows (Reader.zeroOrMore reader budget) := by
  induction budget with
  | zero => exact fun state feed _ => rfl
  | succ budget ih =>
    intro state feed shown
    refine tracks_recovered same shown ?_ ?_
    · intro value rest after reached
      -- Ordinals tell a part that takes no token as well as the sizes of the feeds do.
      have moved : after.cursor.pointer = state.cursor.pointer ↔ rest.size = feed.size := by
        have := reached.moved
        omega
      show Reading.Tracks _ _ _ ((pointer >>= fun now =>
        if now = state.cursor.pointer then pure [value]
        else do return value :: (← zeroOrMore parser budget)) after)
      simp only [bind_run, pointer, moved]
      split
      · exact ⟨rest, rfl, reached⟩
      · exact tracks_map (ih.later reached) (value :: ·)
    · exact fun after reached => ⟨feed, rfl, reached⟩

theorem separatedTail_follows {parser : Parser α} {reader : Reader α} {separator : Parser β}
    {between : Reader β} (same : parser.Rewinds reader) (sameBetween : separator.Rewinds between)
    (budget : Nat) :
    (separatedTail parser separator budget).Follows
      (Reader.separatedTail reader between budget) := by
  induction budget with
  | zero => exact fun state feed _ => rfl
  | succ budget ih =>
    intro state feed shown
    have tracked : ((between state.depth feed).andThen fun _ rest =>
        reader state.depth rest).Tracks feed state ((do let _ ← separator; parser) state) :=
      tracks_bind sameBetween.follows shown fun value rest after reached =>
        same.follows.later reached
    simp only [Reader.separatedTail]
    generalize (between state.depth feed).andThen (fun _ rest => reader state.depth rest) =
      reading at tracked
    unfold separatedTail
    generalize (do let _ ← separator; parser : Parser α) = both at tracked
    simp only [bind_run, pointer, attempt]
    cases ran : both state with
    | ok value after =>
      rw [ran] at tracked
      obtain ⟨rest, rfl, reached⟩ := tracked
      exact tracks_map (ih.later reached) (value :: ·)
    | error halt after =>
      rw [ran] at tracked
      cases halt with
      | failed error =>
        obtain ⟨rfl, led⟩ := tracked
        -- A separator without a part behind it is given back before anything else.
        obtain ⟨final, back, reached⟩ := restore_reaches shown led
        simp only [Reading.resolve, bind_run, back]
        split
        · exact ⟨rfl, reached.leads⟩
        · exact ⟨feed, rfl, reached⟩
      | exhausted => cases tracked; rfl
      | misplaced fault => exact tracked.elim

theorem separated_follows {parser : Parser α} {reader : Reader α} {separator : Parser β}
    {between : Reader β} (same : parser.Rewinds reader) (sameBetween : separator.Rewinds between)
    (budget : Nat) :
    (separated parser separator budget).Follows (Reader.separated reader between budget) := by
  intro state feed shown
  refine tracks_recovered same shown ?_ ?_
  · intro first rest after reached
    have others := separatedTail_follows same sameBetween budget
    exact tracks_map (others.later reached) (first :: ·)
  · exact fun after reached => ⟨feed, rfl, reached⟩

theorem takeUntil_follows {parser : Parser α} {reader : Reader α} (same : parser.Rewinds reader)
    (stop : TokenKind) (budget : Nat) :
    (takeUntil parser stop budget).Follows (Reader.takeUntil reader stop budget) := by
  induction budget with
  | zero => exact fun state feed _ => rfl
  | succ budget ih =>
    intro state feed shown
    refine peek_follows shown fun token after looked reached => ?_
    split
    · obtain ⟨final, moved, taken⟩ := advance_reaches reached.shows
      simp only [bind_run, taken, looked]
      exact ⟨feed.next, rfl, reached.trans moved⟩
    · rw [← reached.leads.depth]
      refine Reading.Tracks.earlier reached (tracks_bind same.follows reached.shows ?_)
      intro value rest later passed
      have moved : later.cursor.pointer = after.cursor.pointer ↔ rest.size = feed.size := by
        have := passed.moved
        omega
      simp only [bind_run, pointer, moved]
      split
      · exact ⟨rfl, passed.leads⟩
      · exact tracks_map (ih.later passed) _

theorem withMessage_follows {parser : Parser α} {reader : Reader α} (same : parser.Rewinds reader)
    (message : String) :
    (withMessage message parser).Follows (Reader.withMessage message reader) := by
  intro state feed shown
  refine tracks_attempt same shown ?_ ?_ ?_
  · exact fun value rest after reached => ⟨rest, rfl, reached⟩
  · intro error after soft reached
    simp only [soft, Bool.false_eq_true, if_false]
    exact ⟨rfl, reached.leads⟩
  · intro error after fatal
    simp only [fatal, if_true]
    rfl

theorem nested_follows {parser : Parser α} {reader : Reader α} (same : parser.Rewinds reader)
    (limit : Nat) : (nested limit parser).Follows (Reader.nested limit reader) := by
  intro state feed shown
  unfold nested Reader.nested
  split
  · exact peek_follows shown fun token after looked reached => ⟨rfl, reached.leads⟩
  · have tracked := same.follows { state with depth := state.depth + 1 } feed shown
    cases ran : parser { state with depth := state.depth + 1 } with
    | ok value after =>
      rw [ran] at tracked
      obtain ⟨rest, read, reached⟩ := tracked
      have depth : after.depth - 1 = state.depth := by rw [reached.leads.depth]; rfl
      exact ⟨rest, read, ⟨depth, reached.leads.kept⟩, reached.shows, reached.moved⟩
    | error halt after =>
      rw [ran] at tracked
      cases halt with
      | failed error =>
        have depth : after.depth - 1 = state.depth := by rw [tracked.2.depth]; rfl
        exact ⟨tracked.1, depth, tracked.2.kept⟩
      | exhausted => exact tracked
      | misplaced fault => exact tracked

end Parser

/-! ## Rules -/

section

variable {parse : {α : Type} → Rule Γ α → Parser α} {read : {α : Type} → Rule Γ α → Reader α}

theorem Steps.parser_follows
    (same : ∀ {α : Type} (rule : Rule Γ α), (parse rule).Rewinds (read rule)) {α : Type} :
    (steps : Steps Γ α) → (steps.parser parse).Follows (steps.reader read)
  | .last rule => (same rule).follows
  | .next rule others => by
    intro state feed shown
    refine Parser.tracks_bind (same rule).follows shown fun value rest after reached => ?_
    have following := Steps.parser_follows same others
    exact Parser.tracks_map (following.later reached) fun values => (value, values)

theorem Alternatives.parsers_rewind
    (same : ∀ {α : Type} (rule : Rule Γ α), (parse rule).Rewinds (read rule)) {α : Type} :
    (alternatives : Alternatives Γ α) →
      List.Forall₂ Parser.Rewinds (alternatives.parsers parse) (alternatives.readers read)
  | .last rule => .cons (same rule) .nil
  | .orElse rule others => .cons (same rule) (Alternatives.parsers_rewind same others)

end

/-- Running a rule and reading it come to the same, and a failed run is back where
it began. -/
theorem Rule.parse_rewinds (grammar : Grammar Γ) (budget : Nat) {α : Type} (rule : Rule Γ α) :
    (rule.parse grammar budget).Rewinds (rule.reader grammar budget) := by
  apply Parser.Follows.rewinding
  induction budget generalizing α with
  | zero =>
    intro state feed _
    cases rule <;> rfl
  | succ budget ih =>
    have inner : ∀ {α : Type} (rule : Rule Γ α),
        (rule.apply grammar budget).rewinding.Rewinds (rule.reader grammar budget) :=
      fun rule => (ih rule).rewinding
    cases rule with
    | token kind => exact Parser.token_follows kind
    | keyword word => exact Parser.keyword_follows word
    | map change rule => exact Parser.map_follows (inner rule).follows change
    | sequence steps => exact steps.parser_follows inner
    | choice message alternatives =>
      exact Parser.choice_follows message _ _ (alternatives.parsers_rewind inner)
    | optional rule => exact Parser.optional_follows (inner rule)
    | zeroOrMore rule => exact Parser.zeroOrMore_follows (inner rule) budget
    | separated rule separator =>
      exact Parser.separated_follows (inner rule) (inner separator) budget
    | takeUntil rule stop => exact Parser.takeUntil_follows (inner rule) stop budget
    | withMessage message rule => exact Parser.withMessage_follows (inner rule) message
    | nested limit rule => exact Parser.nested_follows (inner rule) limit
    | ref name => exact (inner (grammar name)).follows

/-- A whole run from the start of a text ends as the reading of its feed does. -/
theorem Rule.parse_ofText (grammar : Grammar Γ) (budget : Nat) {α : Type} (rule : Rule Γ α)
    (text : List Char) :
    match rule.reader grammar budget 0 (.ofText text) with
    | .value result _ => ∃ after, rule.parse grammar budget (.ofText text) = .ok result after
    | .failure error =>
      ∃ after, rule.parse grammar budget (.ofText text) = .error (.failed error) after
    | .exhausted => ∃ after, rule.parse grammar budget (.ofText text) = .error .exhausted after := by
  have tracked := (rule.parse_rewinds grammar budget).follows (.ofText text) (.ofText text)
    (Cursor.shows_ofText text)
  show match rule.reader grammar budget (ParserState.ofText text).depth (.ofText text) with
    | .value result _ => _
    | .failure error => _
    | .exhausted => _
  cases ran : rule.parse grammar budget (.ofText text) with
  | ok value after =>
    rw [ran] at tracked
    obtain ⟨rest, read, _⟩ := tracked
    rw [read]
    exact ⟨after, rfl⟩
  | error halt after =>
    rw [ran] at tracked
    cases halt with
    | failed error => rw [tracked.1]; exact ⟨after, rfl⟩
    | exhausted =>
      rw [show rule.reader grammar budget _ _ = .exhausted from tracked]
      exact ⟨after, rfl⟩
    | misplaced fault => exact tracked.elim

end SchemaLang
