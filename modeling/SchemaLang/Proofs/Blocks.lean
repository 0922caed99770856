import SchemaLang.Proofs.Running
import SchemaLang.Proofs.Values

/-! Readings of everything around values, up to a whole text. Signs and markers are
tried where they may be left out, lines are read up to a closing brace, and a block
is chosen by its first word. As with values, every reading fits the verdict. -/
namespace SchemaLang.Schema

open Expectation Phrase

variable {α : Type} {limit : Nat}

/-! ## Repetitions -/

/-- How the reading of parts up to a closing token fits a verdict: the parts are
phrases, and the verdict is that on the feed in front of the closing token. -/
def Stops (reading : Reading (List α × Token)) (feed : Feed) (verdict : Verdict)
    (inside : Expectation) (stop : TokenKind)
    (phrase : List Terminal → α → List Terminal → Prop) : Prop :=
  match reading with
  | .value (trees, close) rest => ∃ last : Feed, last.size ≤ feed.size ∧ last.look = .ok close ∧
      close.kind = stop ∧ rest = last.next ∧ Many phrase feed.terminals trees last.terminals ∧
      verdict = inside.verdict last
  | .failure error => verdict = if error.isFatal then .fatal error else .stuck
  | .exhausted => False

private theorem Stops.cons {reading : Reading (List α × Token)} {feed rest : Feed}
    {verdict : Verdict} {inside : Expectation} {stop : TokenKind} {tree : α}
    {phrase : List Terminal → α → List Terminal → Prop}
    (stops : Stops reading rest verdict inside stop phrase) (shorter : rest.size < feed.size)
    (said : phrase feed.terminals tree rest.terminals) :
    Stops (reading.map fun (trees, close) => (tree :: trees, close)) feed verdict inside stop
      phrase := by
  cases reading with
  | value result behind =>
    obtain ⟨last, bound, looked, kind, moved, many, same⟩ := stops
    exact ⟨last, by omega, looked, kind, moved, .more said many, same⟩
  | failure error => exact stops
  | exhausted => exact stops

/-- Parts are read up to a closing token as the language has them, if each part is.
A part has to refuse a parenthesis, so that a part that strayed is the last one. -/
theorem takeUntil_stops {part : Reader α} {inside : Expectation}
    {phrase : List Terminal → α → List Terminal → Prop} (stop : TokenKind) (depth : Nat)
    (other : stop ≠ .leftParen)
    (fits : ∀ (feed : Feed) (terminal : Terminal), feed.size ≤ limit →
      feed.head? = some terminal → terminal.kind ≠ stop →
      (part depth feed).Fits feed (inside.verdict feed) inside phrase)
    (misses : ∀ feed : Feed, feed.head? = some .leftParen → (part depth feed).Missed)
    (rounds : Nat) (feed : Feed) (short : feed.size ≤ limit) (enough : feed.size < rounds) :
    Stops (Reader.takeUntil part stop rounds depth feed) feed (inside.verdict feed) inside stop
      phrase := by
  induction rounds generalizing feed with
  | zero => omega
  | succ rounds ih =>
    cases ahead : feed.head? with
    | none =>
      obtain ⟨failure, rfl⟩ := Feed.eq_fault_of_head? ahead
      exact rfl
    | some terminal =>
      obtain ⟨first, looked, rfl⟩ := Feed.look_of_head? ahead
      rw [Reader.takeUntil, looked]
      by_cases closing : first.kind = stop
      · simp only [closing, if_true]
        exact ⟨feed, Nat.le_refl _, looked, closing, rfl, .none, rfl⟩
      · simp only [closing, if_false]
        have fit := fits feed first.terminal short ahead (by rwa [Token.kind_terminal])
        cases read : part depth feed with
        | value tree rest =>
          rw [read] at fit
          obtain ⟨shorter, clean⟩ := fit
          rw [Reading.andThen, if_neg (Nat.ne_of_lt shorter)]
          rcases clean with ⟨said, same⟩ | ⟨stuck, paren⟩
          · rw [same]
            exact (ih rest (by omega) (by omega)).cons shorter said
          · obtain ⟨rounds, rfl⟩ := Nat.exists_eq_add_one.2 (show 0 < rounds by omega)
            obtain ⟨second, looked, same⟩ := Feed.look_of_head? paren
            obtain ⟨error, refused, soft⟩ := misses rest paren
            have different : second.kind ≠ stop := by
              rw [← Token.kind_terminal, same]
              exact other.symm
            rw [Reader.takeUntil, looked, stuck]
            simp [different, refused, Reading.andThen, Reading.map, Stops, soft]
        | failure error =>
          rw [read] at fit
          exact fit
        | exhausted =>
          rw [read] at fit
          exact fit

/-! ## Names -/

theorem named_takes (message : String) (budget : Nat) :
    (reads (budget + 3) (named message)).Takes .identifier fun first =>
      ⟨first.text, first.span⟩ :=
  (identifier_takes budget).withMessage message

theorem stepName_eq (next : Expectation) (terminal : Terminal) :
    stepName next terminal = if terminal.kind = .identifier then some next else none := by
  cases terminal <;> rfl

theorem stepLine_eq (inside : Expectation) {terminal : Terminal}
    (more : terminal ≠ .rightBrace) :
    stepLine inside terminal = if terminal.kind = .identifier then some inside else none := by
  cases terminal with
  | rightBrace => exact absurd rfl more
  | _ => rfl

theorem stepOnly_eq {wanted : Terminal}
    (plain : wanted.kind ∉ [.identifier, .attributeName, .string]) (next : Expectation)
    (terminal : Terminal) :
    stepOnly wanted next terminal = if terminal.kind = wanted.kind then some next else none := by
  unfold stepOnly
  by_cases same : terminal = wanted
  · rw [if_pos same, same, if_pos rfl]
  · rw [if_neg same, if_neg fun kind => same (Terminal.eq_of_kind kind plain)]

/-! ## Fields -/

/-- A marker as a phrase. -/
def MarkerPhrase (before : List Terminal) (mark : Attribute) (after : List Terminal) : Prop :=
  Marker before (mark.mapSpans unplaced) after

/-- A type as a phrase. -/
def TypePhrase (before : List Terminal) (type : FieldType) (after : List Terminal) : Prop :=
  Typed before (type.mapSpans unplaced) after

/-- A field as a phrase. -/
def FieldPhrase (before : List Terminal) (field : Field) (after : List Terminal) : Prop :=
  Line before (field.mapSpans unplaced) after

section

variable {budget depth : Nat} {feed : Feed}

theorem marker_eq (budget depth : Nat) (feed : Feed) :
    reads (budget + 9) marker depth feed =
      ((Reader.token .attributeName depth feed).andThen fun name rest =>
        (Reader.optional (reads (budget + 6) arguments) depth rest).map fun values =>
          (name, values)).map fun (name, values) => markerOf name values := rfl

theorem marker_missed {terminal : Terminal} (front : feed.head? = some terminal)
    (other : terminal.kind ≠ .attributeName) (budget depth : Nat) :
    (reads (budget + 9) marker depth feed).Missed := by
  rw [marker_eq]
  exact ((Reader.token_missed front other depth).andThen _).map _

theorem marker_taken {first : Token} {name : String}
    (same : first.terminal = .marker name) (proper : first.kind ≠ .endOfInput) (rest : Feed)
    (budget depth : Nat) :
    reads (budget + 9) marker depth (.token first proper rest) =
      (reads (budget + 6) arguments depth rest).resolve
        (fun result after => .value (markerOf first (some result)) after)
        fun _ => .value (markerOf first none) rest := by
  rw [marker_eq, Reader.token_taken (Token.terminal_marker.1 same).1, Reading.andThen,
    Reading.map_map, Reader.optional]
  cases reads (budget + 6) arguments depth rest with
  | value result after => rfl
  | failure error =>
    simp only [Reading.resolve]
    split <;> rfl
  | exhausted => rfl

/-- A marker is read as the language has it. Arguments that are stuck somewhere are
given back, and the parenthesis in front of them stays. -/
private theorem arguments_optional {first : Token} {name : String}
    {proper : first.kind ≠ .endOfInput} {rest : Feed} (same : first.terminal = .marker name)
    (inner : ValuesFit budget 1 rest.size) :
    (reads (budget + 9) marker 0 (.token first proper rest)).Fits (.token first proper rest)
      (markerEnd.verdict rest) markers MarkerPhrase := by
  have text : first.text = name := (Token.terminal_marker.1 same).2
  have terminals : (Feed.token first proper rest).terminals = .marker name :: rest.terminals := by
    rw [Feed.terminals, same]
  rw [marker_taken same]
  by_cases opening : ∀ terminal, rest.head? = some terminal → terminal = .leftParen
  · have stepped : markerEnd.step .leftParen = some (firstArgument .marker 0) := rfl
    have fits := arguments_fits stepped opening fun _ => inner
    refine fits.resolve ?_ ?_ ?_
    · intro result after shorter said same
      refine ⟨Nat.lt_succ_of_lt shorter, .inl ⟨?_, same⟩⟩
      rw [terminals, ← text]
      exact .applied said
    · intro result after shorter paren _
      exact ⟨Nat.lt_succ_of_lt shorter, .inr ⟨rfl, paren⟩⟩
    · intro _ _ _ stuck
      obtain ⟨terminal, paren⟩ := head?_of_stuck stuck
      cases opening terminal paren
      exact ⟨Nat.lt_succ_self _, .inr ⟨rfl, paren⟩⟩
  · simp only [Classical.not_forall] at opening
    obtain ⟨terminal, behind, other⟩ := opening
    obtain ⟨error, soft, read⟩ := (arguments_missed behind other budget 0).resolve
      (fun result after => .value (markerOf first (some result)) after)
      fun _ => .value (markerOf first none) rest
    have resumed : markerEnd.verdict rest = markers.verdict rest :=
      verdict_alike behind (stepMarkerEnd_eq other)
    rw [read, resumed]
    refine ⟨Nat.lt_succ_self _, .inl ⟨?_, rfl⟩⟩
    rw [terminals, ← text]
    exact .plain

/-- Once a marker is there, it does not fail in a way that lets something else be tried. -/
theorem marker_kept {name : String} (front : feed.head? = some (.marker name)) :
    ¬ (reads (budget + 9) marker depth feed).Missed := by
  cases feed with
  | fault failure => cases front
  | finish place => cases front
  | token first proper rest =>
    have same : first.terminal = .marker name := Option.some.inj front
    rw [marker_taken same]
    rintro ⟨error, failed, soft⟩
    cases read : reads (budget + 6) arguments depth rest with
    | value result after => rw [read] at failed; cases failed
    | failure other =>
      rw [read, Reading.resolve] at failed
      split at failed
      · cases failed
        simp_all
      · cases failed
    | exhausted => rw [read] at failed; cases failed

/-- A marker is read as the language has it. -/
theorem marker_fits {name : String} (front : feed.head? = some (.marker name))
    (inner : ValuesFit budget 1 feed.size) :
    (reads (budget + 9) marker 0 feed).Fits feed (markers.verdict feed) markers MarkerPhrase := by
  cases feed with
  | fault failure => cases front
  | finish place => cases front
  | token first proper rest =>
    have same : first.terminal = .marker name := Option.some.inj front
    have stepped : markers.step first.terminal = some markerEnd := by rw [same]; rfl
    rw [verdict_step stepped (Nat.zero_le _)]
    exact arguments_optional same (inner.smaller (Nat.le_succ _))

theorem markers_none {terminal : Terminal} (front : feed.head? = some terminal)
    (other : terminal.kind ≠ .attributeName) (rounds : Nat) :
    Reader.zeroOrMore (reads (budget + 9) marker) (rounds + 1) depth feed = .value [] feed := by
  obtain ⟨error, read, soft⟩ := marker_missed front other budget depth
  simp [Reader.zeroOrMore, read, Reading.resolve, soft]

/-- Markers are read as often as they come. -/
theorem markers_fits (inner : ValuesFit budget 1 limit) (rounds : Nat) (feed outer : Feed)
    (short : feed.size ≤ limit) (inside : feed.size < outer.size) (enough : feed.size < rounds) :
    (Reader.zeroOrMore (reads (budget + 9) marker) rounds 0 feed).Fits outer (markers.verdict feed)
      fieldName fun _ marks after => Many MarkerPhrase feed.terminals marks after := by
  induction rounds generalizing feed with
  | zero => omega
  | succ rounds ih =>
    by_cases marked : ∃ name, feed.head? = some (.marker name)
    · obtain ⟨name, front⟩ := marked
      rw [Reader.zeroOrMore]
      refine (marker_fits front (inner.smaller short)).resolve ?_ ?_ ?_
      · intro mark rest shorter said same
        rw [if_neg (Nat.ne_of_lt shorter), same]
        have others := ih rest (by omega) (by omega) (by omega)
        exact others.map (Nat.le_refl _) fun marks after many => .more said many
      · intro mark rest shorter paren _
        obtain ⟨rounds, rfl⟩ := Nat.exists_eq_add_one.2 (show 0 < rounds by omega)
        rw [if_neg (Nat.ne_of_lt shorter), markers_none paren (by simp) rounds]
        exact ⟨by omega, .inr ⟨rfl, paren⟩⟩
      · intro error failed soft _
        exact absurd ⟨error, failed, soft⟩ (marker_kept front)
    · cases ahead : feed.head? with
      | none =>
        obtain ⟨failure, rfl⟩ := Feed.eq_fault_of_head? ahead
        exact Reading.fits_fault
      | some terminal =>
        have other : terminal.kind ≠ .attributeName := by
          cases terminal with
          | marker name => exact absurd ⟨name, ahead⟩ marked
          | _ => simp
        have same : markers.verdict feed = fieldName.verdict feed :=
          verdict_alike ahead (stepMarkers_eq (by rintro name rfl; exact other rfl))
        rw [markers_none ahead other rounds, same]
        exact ⟨inside, .inl ⟨.none, rfl⟩⟩

/-- The sign behind the name of a type, if there is one. -/
def signs : Reader (Option Token) :=
  Reader.optional
    (Reader.choice "Expected type modifier" [Reader.token .question, Reader.token .brackets])

theorem signs_taken {first : Token} (signed : first.kind = .question ∨ first.kind = .brackets)
    (proper : first.kind ≠ .endOfInput) (rest : Feed) :
    signs depth (.token first proper rest) = .value (some first) rest := by
  have chosen : Reader.choice "Expected type modifier"
      [Reader.token .question, Reader.token .brackets] depth (.token first proper rest) =
      .value first rest := by
    rcases signed with question | brackets
    · exact Reader.choice_value [] rfl (List.forall_mem_nil _)
        (Reader.token_taken question depth proper rest) _ _
    · have missed : (Reader.token .question depth (.token first proper rest)).Missed :=
        Reader.token_missed rfl (by rw [Token.kind_terminal, brackets]; simp) depth
      exact Reader.choice_value [Reader.token .question] rfl (List.forall_mem_singleton.2 missed)
        (Reader.token_taken brackets depth proper rest) _ _
  rw [signs, Reader.optional, chosen, Reading.resolve]

theorem signs_missed {terminal : Terminal} (front : feed.head? = some terminal)
    (question : terminal.kind ≠ .question) (brackets : terminal.kind ≠ .brackets) :
    signs depth feed = .value none feed := by
  have missed : (Reader.choice "Expected type modifier"
      [Reader.token .question, Reader.token .brackets] depth feed).Missed :=
    Reader.choice_missed front (List.forall_mem_cons.2 ⟨Reader.token_missed front question depth,
      List.forall_mem_singleton.2 (Reader.token_missed front brackets depth)⟩) _
  obtain ⟨error, -, read⟩ := missed.resolve (fun sign rest => .value (some sign) rest)
    fun _ => .value none feed
  exact read

/-- The sign of a type, or nothing, is read as the language has it. -/
private theorem signs_fits (feed outer : Feed) (inside : feed.size < outer.size) (depth : Nat) :
    (signs depth feed).Fits outer (typeEnd.verdict feed) markers
      fun _ sign after => ∀ name, Sign feed.terminals (fieldTypeOf name sign).modifier after := by
  cases ahead : feed.head? with
  | none =>
    obtain ⟨failure, rfl⟩ := Feed.eq_fault_of_head? ahead
    exact Reading.fits_fault
  | some terminal =>
    by_cases signed : terminal.kind = .question ∨ terminal.kind = .brackets
    · cases feed with
      | fault failure => cases ahead
      | finish place => cases ahead; simp [Terminal.kind] at signed
      | token first proper rest =>
        cases ahead
        rw [Token.kind_terminal] at signed
        have stepped : typeEnd.step first.terminal = some markers := by
          rcases signed with kind | kind <;> simp [Token.terminal, kind, step, stepTypeEnd]
        rw [signs_taken signed, verdict_step stepped (Nat.zero_le _)]
        refine ⟨Nat.lt_of_succ_lt inside, .inl ⟨fun name => ?_, rfl⟩⟩
        rcases signed with kind | kind
        · simp only [Feed.terminals, Token.terminal, kind, fieldTypeOf, if_true]
          exact .optional
        · simp only [Feed.terminals, Token.terminal, kind, fieldTypeOf, reduceCtorEq, if_false]
          exact .array
    · rw [not_or] at signed
      have resumed : typeEnd.verdict feed = markers.verdict feed := by
        refine verdict_alike ahead (stepTypeEnd_eq ?_ ?_)
        · rintro rfl
          exact signed.1 rfl
        · rintro rfl
          exact signed.2 rfl
      rw [signs_missed ahead signed.1 signed.2, resumed]
      exact ⟨inside, .inl ⟨fun _ => .none, rfl⟩⟩

theorem fieldType_eq (budget depth : Nat) (feed : Feed) :
    reads (budget + 5) fieldType depth feed =
      ((reads (budget + 3) (named "Expected field type") depth feed).andThen fun name rest =>
        (signs depth rest).map fun sign => (name, sign)).map
          fun (name, sign) => fieldTypeOf name sign := rfl

/-- A type is read as the language has it. -/
theorem fieldType_fits (feed : Feed) (budget depth : Nat) :
    (reads (budget + 5) fieldType depth feed).Fits feed (Expectation.fieldType.verdict feed)
      markers TypePhrase := by
  rw [fieldType_eq, Reading.andThen_map]
  refine (named_takes _ budget).andThen (by simp) rfl
    (fun terminal _ => stepName_eq typeEnd terminal) ?_
  intro first rest shorter kind said
  rw [Reading.map_map]
  refine (signs_fits rest feed shorter depth).map (Nat.le_refl _) fun sign after signed => ?_
  rw [said, Token.terminal_identifier.2 ⟨kind, rfl⟩]
  cases sign <;> exact .mk (signed ⟨first.text, first.span⟩)

theorem field_eq (budget depth : Nat) (feed : Feed) :
    reads (budget + 12) field depth feed =
      ((reads (budget + 10) (named "Expected field definition or '\x7d'") depth feed).andThen
        fun name rest =>
          ((reads (budget + 10) fieldType depth rest).andThen fun type rest =>
            (Reader.zeroOrMore (reads (budget + 9) marker) (budget + 9) depth rest).map
              fun marks => (type, marks)).map fun result => (name, result)).map
        fun (name, type, marks) => fieldOf name type marks := rfl

theorem field_missed {terminal : Terminal} (front : feed.head? = some terminal)
    (other : terminal.kind ≠ .identifier) (budget depth : Nat) :
    (reads (budget + 12) field depth feed).Missed := by
  rw [field_eq]
  exact (((named_takes _ _).missed depth front other).andThen _).map _

/-- A line of a model is read as the language has it. -/
theorem field_fits {feed : Feed} (inner : ValuesFit budget 1 feed.size)
    (more : ∀ terminal, feed.head? = some terminal → terminal ≠ .rightBrace) :
    (reads (budget + 12) field 0 feed).Fits feed (fieldName.verdict feed) fieldName
      FieldPhrase := by
  rw [field_eq, Reading.andThen_map]
  refine (named_takes _ (budget + 7)).andThen (by simp) rfl
    (fun terminal front => stepLine_eq .fieldType (more terminal front)) ?_
  intro first rest shorter kind said
  rw [Reading.map_map, Reading.andThen_map]
  refine (fieldType_fits rest (budget + 5) 0).andThen ?_ ?_
  · intro type rest' shorter' typed same
    rw [same, Reading.map_map]
    have enough := inner.enough
    refine (markers_fits inner _ rest' feed (by omega) (by omega) (by omega)).map
      (Nat.le_refl _) fun marks after many => ?_
    rw [said, Token.terminal_identifier.2 ⟨kind, rfl⟩]
    exact .mk typed (Many.map Marker (Attribute.mapSpans unplaced) many)
  · intro type rest' shorter' paren _
    rw [markers_none paren (by simp)]
    exact ⟨Nat.lt_trans shorter' shorter, .inr ⟨rfl, paren⟩⟩

end

/-! ## Options -/

/-- An option as a phrase. -/
def OptionPhrase (before : List Terminal) (option : ConfigOption) (after : List Terminal) : Prop :=
  Setting before (option.mapSpans unplaced) after

section

variable {budget depth : Nat} {feed : Feed}

theorem option_eq (budget depth : Nat) (feed : Feed) :
    reads (budget + 5) option depth feed =
      ((reads (budget + 3) (named "Expected config option or '\x7d'") depth feed).andThen
        fun key rest =>
          ((Reader.token .equals depth rest).andThen fun equals rest =>
            (reads (budget + 2) expression depth rest).map
              fun given => (equals, given)).map fun result => (key, result)).map
        fun (key, _, given) => ⟨key, given, ⟨key.span.start, given.span.stop⟩⟩ := rfl

theorem option_missed {terminal : Terminal} (front : feed.head? = some terminal)
    (other : terminal.kind ≠ .identifier) (budget depth : Nat) :
    (reads (budget + 5) option depth feed).Missed := by
  rw [option_eq]
  exact (((named_takes _ _).missed depth front other).andThen _).map _

/-- A line of a configuration is read as the language has it. -/
theorem option_fits {feed : Feed} (inner : ValuesFit (budget + 2) 0 feed.size)
    (more : ∀ terminal, feed.head? = some terminal → terminal ≠ .rightBrace) :
    (reads (budget + 5) option 0 feed).Fits feed (optionKey.verdict feed) optionKey
      OptionPhrase := by
  rw [option_eq, Reading.andThen_map]
  refine (named_takes _ budget).andThen (by simp) rfl
    (fun terminal front => stepLine_eq optionEquals (more terminal front)) ?_
  intro first rest shorter kind said
  rw [Reading.map_map, Reading.andThen_map]
  refine (Reader.token_takes .equals).andThen (by simp) rfl
    (fun terminal _ => stepOnly_eq (by simp) (.value .option 0) terminal) ?_
  intro sign rest' shorter' kind' said'
  rw [Reading.map_map]
  refine (inner.fits .option rest' (by omega)).map (by omega) fun given after phrase => ?_
  have bare : sign.terminal = .equals := by rw [Token.terminal, kind']
  rw [said, said', Token.terminal_identifier.2 ⟨kind, rfl⟩, bare]
  exact .mk phrase

end

/-! ## Blocks -/

section

variable {part : Reader α} {phrase : List Terminal → α → List Terminal → Prop}
  {name brace inside line : Expectation} {budget : Nat}

/-- What a block consists of behind the word that opens it. -/
def body (message : String) (budget : Nat) (part : Reader α) :
    Reader (Identifier × Token × List α × Token) := fun depth feed =>
  (reads (budget + 3) (named message) depth feed).andThen fun name rest =>
    ((Reader.token .leftBrace depth rest).andThen fun brace rest =>
      (Reader.takeUntil part .rightBrace (budget + 2) depth rest).map fun result =>
        (brace, result)).map fun result => (name, result)

/-- The name of a block and its lines are read as the language has them, if each
line is. -/
private theorem body_fits (message : String) {feed : Feed}
    (named : name.step = stepName brace) (opened : brace.step = stepOnly .leftBrace inside)
    (lined : inside.step = stepLine line) (rooms : brace.opened = 0 ∧ inside.opened = 0)
    (fits : ∀ (feed : Feed) (terminal : Terminal), feed.size ≤ limit →
      feed.head? = some terminal → terminal.kind ≠ .rightBrace →
      (part 0 feed).Fits feed (inside.verdict feed) inside phrase)
    (misses : ∀ feed : Feed, feed.head? = some .leftParen → (part 0 feed).Missed)
    (short : feed.size ≤ limit) (enough : feed.size ≤ budget) :
    (body message budget part 0 feed).Fits feed (name.verdict feed) block
      fun before result after => ∃ rest,
        before = .identifier result.1.name :: .leftBrace :: rest ∧
        Many phrase rest result.2.2.1 (.rightBrace :: after) := by
  refine (named_takes message budget).andThen (by simp) rooms.1
    (fun terminal _ => by rw [named, stepName_eq]) ?_
  intro first rest shorter kind said
  rw [Reading.andThen_map]
  refine (Reader.token_takes .leftBrace).andThen (by simp) rooms.2
    (fun terminal _ => by rw [opened]; exact stepOnly_eq (by simp) _ _) ?_
  intro sign rest' shorter' kind' said'
  have bare : sign.terminal = .leftBrace := by rw [Token.terminal, kind']
  have stops := takeUntil_stops .rightBrace 0 (by simp) fits misses (budget + 2) rest' (by omega)
    (by omega)
  rw [Reading.map_map]
  cases read : Reader.takeUntil part .rightBrace (budget + 2) 0 rest' with
  | value result behind =>
    obtain ⟨trees, close⟩ := result
    rw [read] at stops
    obtain ⟨last, bound, looked, closing, rfl, many, same⟩ := stops
    cases last with
    | fault failure => cases looked
    | finish place => cases looked; cases closing
    | token last proper behind =>
      cases looked
      have ended : close.terminal = .rightBrace := by rw [Token.terminal, closing]
      have stepped : inside.step close.terminal = some block := by rw [lined, ended]; rfl
      simp only [Feed.size] at bound
      rw [same, verdict_step stepped (Nat.zero_le _)]
      refine ⟨by simp only [Feed.next]; omega, .inl ⟨⟨rest'.terminals, ?_, ?_⟩, rfl⟩⟩
      · rw [said, said', Token.terminal_identifier.2 ⟨kind, rfl⟩, bare]
      · rw [Feed.terminals, ended] at many
        exact many
  | failure error =>
    rw [read] at stops
    exact stops
  | exhausted =>
    rw [read] at stops
    exact stops

end

/-- A block as a phrase. -/
def BlockPhrase (before : List Terminal) (block : Definition) (after : List Terminal) : Prop :=
  Block before (block.mapSpans unplaced) after

section

variable {budget depth : Nat} {feed : Feed}

theorem model_eq (budget depth : Nat) (feed : Feed) :
    reads (budget + 15) model depth feed =
      ((Reader.keyword "model" depth feed).andThen fun word rest =>
        (body "Expected model name" (budget + 10) (reads (budget + 12) field) depth rest).map
          fun result => (word, result)).map fun (word, name, _, fields, close) =>
            .model ⟨name, fields, ⟨word.start, close.stop⟩⟩ := rfl

theorem model_missed {terminal : Terminal} (front : feed.head? = some terminal)
    (other : terminal ≠ .identifier "model") (budget depth : Nat) :
    (reads (budget + 15) model depth feed).Missed := by
  rw [model_eq]
  exact ((Reader.keyword_missed front other depth).andThen _).map _

/-- A model is read as the language has it. -/
theorem model_fits (front : feed.head? = some (.identifier "model"))
    (inner : ValuesFit budget 1 feed.size) :
    (reads (budget + 15) model 0 feed).Fits feed (block.verdict feed) block BlockPhrase := by
  cases feed with
  | fault failure => cases front
  | finish place => cases front
  | token first proper rest =>
    have same : first.terminal = .identifier "model" := Option.some.inj front
    have stepped : block.step first.terminal = some modelName := by rw [same]; rfl
    have enough := inner.enough
    simp only [Feed.size] at enough
    rw [model_eq, Reader.keyword_taken same, Reading.andThen, Reading.map_map,
      verdict_step stepped (Nat.zero_le _)]
    have fits : Reading.Fits _ rest (modelName.verdict rest) block _ :=
      body_fits "Expected model name" rfl rfl rfl ⟨rfl, rfl⟩
        (fun feed terminal short front other => field_fits (inner.smaller short) fun _ found => by
          cases front.symm.trans found
          rintro rfl
          exact other rfl)
        (fun feed paren => field_missed paren (by simp) budget 0) (Nat.le_succ _)
        (show rest.size ≤ budget + 10 by omega)
    refine fits.map (Nat.le_succ _) fun result after said => ?_
    obtain ⟨lines, header, many⟩ := said
    rw [Feed.terminals, same, header]
    exact .model (Many.map Line (Field.mapSpans unplaced) many)

/-- The word that opens a configuration, with its meaning. -/
def kinds : Reader (ConfigKind × Token) :=
  Reader.choice "Expected datasource or generator keyword"
    [fun depth feed => (Reader.keyword "datasource" depth feed).map fun word => (.datasource, word),
      fun depth feed => (Reader.keyword "generator" depth feed).map fun word => (.generator, word)]

theorem kinds_taken {kind : ConfigKind} {first : Token}
    (same : first.terminal = .identifier kind.keyword) (depth : Nat)
    (proper : first.kind ≠ .endOfInput) (rest : Feed) :
    kinds depth (.token first proper rest) = .value (kind, first) rest := by
  have read := Reader.keyword_taken same depth proper rest
  cases kind with
  | datasource =>
    exact Reader.choice_value [] rfl (List.forall_mem_nil _) (congrArg (Reading.map _) read) _ _
  | generator =>
    refine Reader.choice_value [_] rfl (List.forall_mem_singleton.2 ?_)
      (congrArg (Reading.map _) read) _ _
    exact (Reader.keyword_missed rfl (by rw [same]; simp [ConfigKind.keyword]) depth).map _

theorem kinds_missed {terminal : Terminal} (front : feed.head? = some terminal)
    (other : ∀ kind : ConfigKind, terminal ≠ .identifier kind.keyword) :
    (kinds depth feed).Missed := by
  refine Reader.choice_missed front (List.forall_mem_cons.2 ⟨?_, List.forall_mem_singleton.2 ?_⟩) _
  · exact (Reader.keyword_missed front (other .datasource) depth).map _
  · exact (Reader.keyword_missed front (other .generator) depth).map _

theorem config_eq (budget depth : Nat) (feed : Feed) :
    reads (budget + 15) config depth feed =
      ((kinds depth feed).andThen fun word rest =>
        (body "Expected config name" (budget + 10) (reads (budget + 12) option) depth rest).map
          fun result => (word, result)).map fun ((kind, word), name, _, options, close) =>
            .config ⟨kind, name, options, ⟨word.start, close.stop⟩⟩ := rfl

theorem config_missed {terminal : Terminal} (front : feed.head? = some terminal)
    (other : ∀ kind : ConfigKind, terminal ≠ .identifier kind.keyword) (budget depth : Nat) :
    (reads (budget + 15) config depth feed).Missed := by
  rw [config_eq]
  exact ((kinds_missed front other).andThen _).map _

/-- A configuration is read as the language has it. -/
theorem config_fits {kind : ConfigKind} (front : feed.head? = some (.identifier kind.keyword))
    (inner : ValuesFit (budget + 9) 0 feed.size) :
    (reads (budget + 15) config 0 feed).Fits feed (block.verdict feed) block BlockPhrase := by
  cases feed with
  | fault failure => cases front
  | finish place => cases front
  | token first proper rest =>
    have same : first.terminal = .identifier kind.keyword := Option.some.inj front
    have stepped : block.step first.terminal = some configName := by rw [same]; cases kind <;> rfl
    have enough := inner.enough
    simp only [Feed.size] at enough
    rw [config_eq, kinds_taken same, Reading.andThen, Reading.map_map,
      verdict_step stepped (Nat.zero_le _)]
    have fits : Reading.Fits _ rest (configName.verdict rest) block _ :=
      body_fits "Expected config name" rfl rfl rfl ⟨rfl, rfl⟩
        (fun feed terminal short front other => option_fits (inner.smaller short) fun _ found => by
          cases front.symm.trans found
          rintro rfl
          exact other rfl)
        (fun feed paren => option_missed paren (by simp) (budget + 7) 0) (Nat.le_succ _)
        (show rest.size ≤ budget + 10 by omega)
    refine fits.map (Nat.le_succ _) fun result after said => ?_
    obtain ⟨lines, header, many⟩ := said
    rw [Feed.terminals, same, header]
    exact .config (Many.map Setting (ConfigOption.mapSpans unplaced) many)

theorem definition_eq (budget depth : Nat) (feed : Feed) :
    reads (budget + 16) definition depth feed =
      Reader.choice "Expected config or model definition"
        [reads (budget + 15) model, reads (budget + 15) config] depth feed := rfl

theorem definition_missed {terminal : Terminal} (front : feed.head? = some terminal)
    (model : terminal ≠ .identifier "model")
    (config : ∀ kind : ConfigKind, terminal ≠ .identifier kind.keyword) (budget depth : Nat) :
    (reads (budget + 16) definition depth feed).Missed := by
  rw [definition_eq]
  exact Reader.choice_missed front (List.forall_mem_cons.2 ⟨model_missed front model budget depth,
    List.forall_mem_singleton.2 (config_missed front config budget depth)⟩) _

/-- Nothing but the words that open a block and the end leads on between blocks. -/
theorem block_blocked {terminal : Terminal} (more : terminal ≠ .endOfInput)
    (model : terminal ≠ .identifier "model")
    (config : ∀ kind : ConfigKind, terminal ≠ .identifier kind.keyword) :
    block.step terminal = none := by
  cases terminal with
  | identifier name =>
    have data : name ≠ "datasource" := fun same => config .datasource (by rw [same]; rfl)
    have gen : name ≠ "generator" := fun same => config .generator (by rw [same]; rfl)
    have mod : name ≠ "model" := fun same => model (by rw [same])
    simp [step, stepBlock, data, gen, mod]
  | endOfInput => contradiction
  | _ => rfl

/-- A block is read as the language has it. -/
theorem definition_fits {terminal : Terminal} (front : feed.head? = some terminal)
    (more : terminal ≠ .endOfInput) (inner : ValuesFit budget 1 feed.size) :
    (reads (budget + 16) definition 0 feed).Fits feed (block.verdict feed) block BlockPhrase := by
  rw [definition_eq]
  by_cases model : terminal = .identifier "model"
  · subst model
    refine Reader.choice_fits front (model_fits front inner) (fun error soft _ => ?_) _
    have missed := config_missed front (by rintro ⟨⟩ <;> simp [ConfigKind.keyword]) budget 0
    obtain ⟨last, softer, skipped⟩ := Reader.firstOf_skip [reads (budget + 15) config]
      (List.forall_mem_singleton.2 missed) soft []
    exact Reading.Missed.fits ⟨last, skipped, softer⟩
  · by_cases config : ∃ kind : ConfigKind, terminal = .identifier kind.keyword
    · obtain ⟨kind, rfl⟩ := config
      obtain ⟨error, soft, chosen⟩ := Reader.choice_skip [reads (budget + 15) Schema.model] front
        (List.forall_mem_singleton.2 (model_missed front model budget 0))
        "Expected config or model definition" [reads (budget + 15) Schema.config]
      rw [List.singleton_append] at chosen
      rw [chosen]
      have enough := inner.enough
      have whole := expression_step (Nat.zero_le _) (by omega) fun _ => inner
      refine Reader.firstOf_fits soft (config_fits front whole) fun error soft _ => ?_
      exact Reading.Missed.fits ⟨error, rfl, soft⟩
    · rw [← definition_eq]
      have neither : ∀ kind : ConfigKind, terminal ≠ .identifier kind.keyword :=
        fun kind same => config ⟨kind, same⟩
      have blocked := block_blocked more model neither
      rw [verdict_stuck front blocked]
      exact (definition_missed front model neither budget 0).fits

end

/-! ## Whole texts -/

theorem document_eq (budget : Nat) (feed : Feed) :
    reads (budget + 18) document 0 feed =
      (Reader.takeUntil (reads (budget + 16) definition) .endOfInput (budget + 16) 0 feed).map
        fun (definitions, stop) => documentOf definitions stop := rfl

/-- The tree of a text is the one that the language has for it, and a failure is
that of the verdict. -/
theorem document_fits {budget : Nat} {feed : Feed} (inner : ValuesFit budget 1 feed.size) :
    match reads (budget + 18) document 0 feed with
    | .value document _ => block.verdict feed = .accepted ∧
        Sentence feed.terminals document.eraseSpans
    | .failure error => block.verdict feed = if error.isFatal then .fatal error else .stuck
    | .exhausted => False := by
  have enough := inner.enough
  have stops := takeUntil_stops .endOfInput 0 (by simp)
    (fun feed terminal short front other => definition_fits front
      (by rintro rfl; exact other rfl) (inner.smaller short))
    (fun feed paren => definition_missed paren (by simp) (by simp) budget 0) (budget + 16) feed
    (Nat.le_refl _) (by omega)
  rw [document_eq]
  cases read : Reader.takeUntil (reads (budget + 16) definition) .endOfInput (budget + 16) 0 feed with
  | value result behind =>
    obtain ⟨definitions, close⟩ := result
    rw [read] at stops
    obtain ⟨last, bound, looked, closing, rfl, many, same⟩ := stops
    cases last with
    | fault failure => cases looked
    | token last proper behind => cases looked; exact absurd closing proper
    | finish place =>
      refine ⟨same, ?_⟩
      have erased : (documentOf definitions close).eraseSpans =
          ⟨definitions.map (Definition.mapSpans unplaced), nowhere⟩ := by
        cases definitions <;> rfl
      simp only [erased]
      exact .mk (Many.map Block (Definition.mapSpans unplaced) many)
  | failure error =>
    rw [read] at stops
    exact stops
  | exhausted =>
    rw [read] at stops
    exact stops

end SchemaLang.Schema

namespace SchemaLang.Document

open Expectation Phrase

/-- What is read from a text as a whole. -/
def reading (source : String) : Reading Document :=
  Schema.reads (parseBudget source.toList) Schema.document 0 (.ofText source.toList)

/-- A parse answers with what is read. -/
theorem parse_reading (source : String) :
    match reading source with
    | .value document _ => parse source = .ok document
    | .failure error => parse source = .error error
    | .exhausted => True := by
  have ran := Rule.parse_ofText Schema.grammar (parseBudget source.toList) Schema.document
    source.toList
  rw [show Rule.reader _ _ _ _ _ = reading source from rfl] at ran
  unfold parse run
  cases read : reading source with
  | value document rest =>
    rw [read] at ran
    obtain ⟨after, ran⟩ := ran
    rw [ran]
  | failure error =>
    rw [read] at ran
    obtain ⟨after, ran⟩ := ran
    rw [ran]
  | exhausted => trivial

/-- What is read from a text fits the verdict on it, and the budget is enough. -/
theorem reading_fits (source : String) :
    match reading source with
    | .value document _ => block.verdict (.ofText source.toList) = .accepted ∧
        Sentence (Feed.ofText source.toList).terminals document.eraseSpans
    | .failure error => block.verdict (.ofText source.toList) =
        if error.isFatal then .fatal error else .stuck
    | .exhausted => False := by
  have bound : (Feed.ofText source.toList).size ≤ source.toList.length :=
    Feed.size_ofScanner_le (.ofText source.toList)
  have inner : Schema.ValuesFit (source.toList.length + 982) 1 (Feed.ofText source.toList).size :=
    Schema.valuesFit 63 rfl (by omega)
  exact Schema.document_fits inner

/-- A parse agrees with the verdict on its text. -/
theorem parse_verdict (source : String) :
    match parse source with
    | .ok document => block.verdict (.ofText source.toList) = .accepted ∧
        Sentence (Feed.ofText source.toList).terminals document.eraseSpans
    | .error error => block.verdict (.ofText source.toList) =
        if error.isFatal then .fatal error else .stuck := by
  have fits := reading_fits source
  have parsed := parse_reading source
  cases read : reading source with
  | value document rest =>
    rw [read] at fits parsed
    rw [show parse source = _ from parsed]
    exact fits
  | failure error =>
    rw [read] at fits parsed
    rw [show parse source = _ from parsed]
    exact fits
  | exhausted =>
    rw [read] at fits
    exact fits.elim

end SchemaLang.Document
