import SchemaLang.Proofs.Blocks
import SchemaLang.Proofs.ValuePassage

/-! Where readings get to around values, up to a whole text. Names, signs and braces are
read along the path, lists of arguments may be given back, and the next line then begins
in front of them. A block that cannot be read is never left by the path, and a failure
that is not fatal demands something at a place of the path where it could stand. -/
namespace SchemaLang.Schema

open Expectation

variable {expectation : Expectation} {feed : Feed} {budget depth : Nat}

/-! ## Demands -/

theorem named_refuses (message : String) {terminal : Terminal}
    (front : feed.head? = some terminal) (other : terminal.kind ≠ .identifier) :
    reads (budget + 3) (named message) depth feed = .failure (.mismatch message feed.place) := by
  have refused : reads (budget + 2) identifier depth feed =
      .failure (.mismatch (Demand.only .identifier).message feed.place) :=
    congrArg (Reading.map _) (Reader.token_refuses front other depth)
  show Reader.withMessage message (reads (budget + 2) identifier) depth feed = _
  rw [Reader.withMessage, refused]
  rfl

/-- A line may begin, or its block end, where a line is demanded. -/
private theorem line_accepted {demand : Demand} (lines : demand = .field ∨ demand = .option)
    {line : Expectation} (flat : line.opened = 0) {terminal : Terminal}
    (wanted : demand.accepts terminal = true) :
    ∃ next, stepLine line terminal = some next ∧ next.opened ≤ 1 := by
  have kind : terminal.kind = .identifier ∨ terminal.kind = .rightBrace := by
    rcases lines with rfl | rfl <;> exact of_decide_eq_true wanted
  cases terminal with
  | identifier name => exact ⟨line, rfl, by omega⟩
  | rightBrace => exact ⟨block, rfl, Nat.zero_le _⟩
  | _ => simp at kind

/-- What goes on behind the name of a line. -/
private theorem line_lands {α : Type} (demand : Demand) (lines : demand = .field ∨ demand = .option)
    {line inside : Expectation} (inner : line.height = 1) (flat : line.opened = 0)
    {following : Identifier → Feed → Reading α}
    (stands : Stands 1 expectation (stepLine line) feed)
    (more : ∀ terminal, feed.head? = some terminal → terminal ≠ .rightBrace)
    (lands : ∀ first rest, Stands 1 line line.step rest →
      (following first rest).Lands 0 1 1 line inside.step rest) :
    ((reads (budget + 3) (named demand.message) 0 feed).andThen following).Lands 0 1 1 expectation
        inside.step feed ∧
      ((reads (budget + 3) (named demand.message) 0 feed).andThen following).Advances feed := by
  refine (named_takes _ budget).lands (named_refuses _) stands (fun terminal front => ?_)
    (fun terminal wanted => line_accepted lines flat wanted) (by simp) (by omega)
    (Nat.le_of_eq inner.symm) (Nat.le_refl _) fun first rest _ => lands _ rest
  refine ⟨stepLine_eq line (more terminal front), fun wanted => ?_⟩
  have kind : terminal.kind = .identifier ∨ terminal.kind = .rightBrace := by
    rcases lines with rfl | rfl <;> exact of_decide_eq_true wanted
  exact kind.resolve_right fun brace => more terminal front (Terminal.eq_of_kind brace (by simp))

/-- What goes on behind a name that has to be there. -/
private theorem required_lands {α : Type} (demand : Demand)
    (names : ∀ terminal, demand.accepts terminal = decide (terminal.kind = .identifier))
    {low : Nat} {next : Expectation} {follows : Terminal → Option Expectation}
    (inner : next.height = 1) (flat : next.opened = 0) (less : low ≤ 1)
    {following : Identifier → Feed → Reading α}
    (stands : Stands 1 expectation (stepName next) feed)
    (lands : ∀ first rest, Stands 1 next next.step rest →
      (following first rest).Lands 0 low 1 next follows rest) :
    ((reads (budget + 3) (named demand.message) 0 feed).andThen following).Lands 0 low 1 expectation
      follows feed := by
  refine ((named_takes _ budget).lands (named_refuses _) stands (fun terminal _ => ?_)
    (fun terminal wanted => ?_) (by simp) (by omega) (Nat.le_of_eq inner.symm) less
    fun first rest _ => lands _ rest).1
  · refine ⟨stepName_eq next terminal, fun wanted => ?_⟩
    rw [names] at wanted
    exact of_decide_eq_true wanted
  · rw [names] at wanted
    exact ⟨next, by rw [stepName_eq, if_pos (of_decide_eq_true wanted)], by omega⟩

/-- What goes on behind a sign that has to be there. -/
private theorem sign_lands {α : Type} (wanted : Terminal) {low : Nat} {next : Expectation}
    {follows : Terminal → Option Expectation}
    (plain : wanted.kind ∉ [.identifier, .attributeName, .string, .endOfInput])
    (inner : next.height = 1) (flat : next.opened = 0) (less : low ≤ 1)
    {following : Token → Feed → Reading α}
    (stands : Stands 1 expectation (stepOnly wanted next) feed)
    (lands : ∀ first rest, Stands 1 next next.step rest →
      (following first rest).Lands 0 low 1 next follows rest) :
    ((Reader.token wanted.kind 0 feed).andThen following).Lands 0 low 1 expectation follows feed := by
  have single : wanted.kind ∉ [.identifier, .attributeName, .string] := by
    simp only [List.mem_cons, List.not_mem_nil, or_false, not_or] at plain ⊢
    exact ⟨plain.1, plain.2.1, plain.2.2.1⟩
  have proper : wanted.kind ≠ .endOfInput := by
    simp only [List.mem_cons, List.not_mem_nil, or_false, not_or] at plain
    exact plain.2.2.2
  refine ((Reader.token_takes wanted.kind).lands (fun front other => Reader.token_refuses front other 0)
    stands (fun terminal _ => ⟨stepOnly_eq single next terminal, fun wanted => of_decide_eq_true wanted⟩)
    (fun terminal asked => ?_) proper (by omega) (Nat.le_of_eq inner.symm) less
    fun first rest _ => lands _ rest).1
  exact ⟨next, by rw [stepOnly_eq single, if_pos (of_decide_eq_true asked)], by omega⟩

/-! ## Fields -/

/-- The arguments of a marker are read, or given back with their parenthesis. -/
private theorem arguments_optional_lands (ordered : feed.Ordered)
    (inner : ValuesLand (reads (budget + 9) expression) 1) :
    (Reader.optional (reads (budget + 15) arguments) 0 feed).Lands 0 1 1 markerEnd markers.step
      feed := by
  have stands : Stands 1 markerEnd markerEnd.step feed := .refl ordered
  have fits : ∀ {terminal next}, markers.step terminal = some next →
      markerEnd.step terminal = some next := by
    intro terminal next taken
    rw [← taken]
    exact stepMarkerEnd_eq (by rintro rfl; cases taken)
  by_cases opening : ∀ terminal, feed.head? = some terminal → terminal = .leftParen
  · have stepped : markerEnd.step .leftParen = some (firstArgument .marker 0) := rfl
    have lands : (reads (budget + 15) arguments 0 feed).Lands 0 1 2 markerEnd markers.step feed :=
      arguments_lands stepped opening ordered fun _ => inner
    refine (lands.mono (Nat.le_succ _)).resolve (Nat.le_refl _) ?_ ?_
    · exact fun result rest last _ stands => ⟨last, .here, stands⟩
    · intro error read _ _ _
      rw [read] at lands
      exact ⟨markerEnd, .here, stands.giveBack fits lands.1⟩
  · simp only [Classical.not_forall] at opening
    obtain ⟨terminal, front, other⟩ := opening
    obtain ⟨error, -, read⟩ := (arguments_missed front other (budget + 9) 0).resolve
      (fun value rest => .value (some value) rest) fun _ => .value none feed
    rw [Reader.optional, read]
    refine ⟨markerEnd, .here, stands.narrow fits fun other' found => ?_⟩
    cases front.symm.trans found
    exact stepMarkerEnd_eq other

/-- A marker is read along the path. -/
private theorem marker_lands {name : String} (front : feed.head? = some (.marker name))
    (stands : Stands 1 expectation markers.step feed)
    (inner : ValuesLand (reads (budget + 9) expression) 1) :
    (reads (budget + 18) marker 0 feed).Lands 0 1 1 expectation markers.step feed ∧
      (reads (budget + 18) marker 0 feed).Advances feed := by
  rw [marker_eq]
  refine Reading.Lands.map_advances ((Reader.token_takes .attributeName).lands
    (fun ahead other => Reader.token_refuses ahead other 0) stands (fun terminal found => ?_)
    (fun terminal wanted => ?_) (by simp) (Nat.zero_le _) (show 1 ≤ markerEnd.height from Nat.le_refl 1)
    (Nat.le_refl _) fun first rest _ behind => (arguments_optional_lands behind.ordered inner).map _)
  · cases front.symm.trans found
    exact ⟨rfl, fun _ => rfl⟩
  · have kind : terminal.kind = .attributeName := of_decide_eq_true wanted
    cases terminal <;> first | exact ⟨markerEnd, rfl, Nat.zero_le _⟩ | cases kind

/-- Markers are read along the path as often as they come. -/
private theorem markers_lands (inner : ValuesLand (reads (budget + 9) expression) 1) (rounds : Nat)
    (stands : Stands 1 expectation markers.step feed) :
    (Reader.zeroOrMore (reads (budget + 18) marker) rounds 0 feed).Lands 0 1 1 expectation
      fieldName.step feed := by
  induction rounds generalizing expectation feed with
  | zero => trivial
  | succ rounds ih =>
    cases ahead : feed.head? with
    | none =>
      obtain ⟨failure, rfl⟩ := Feed.eq_fault_of_head? ahead
      exact Reading.lands_fault
    | some terminal =>
      by_cases marked : terminal.kind = .attributeName
      · obtain ⟨name, rfl⟩ : ∃ name, terminal = .marker name := by
          cases terminal <;> first | exact ⟨_, rfl⟩ | cases marked
        obtain ⟨lands, advances⟩ := marker_lands ahead stands inner
        rw [Reader.zeroOrMore]
        refine lands.resolve (Nat.le_refl _) ?_ ?_
        · intro mark rest last read stands
          rw [read] at advances
          rw [if_neg (Nat.ne_of_lt advances)]
          exact (ih stands).map _
        · intro error failed soft _ _
          exact absurd ⟨error, failed, soft⟩ (marker_kept ahead)
      · rw [markers_none ahead marked]
        refine ⟨expectation, .here, stands.narrow (fun {terminal next} taken => ?_)
          fun other found => ?_⟩
        · rw [← taken]
          exact stepMarkers_eq (by rintro name rfl; cases taken)
        · cases ahead.symm.trans found
          exact stepMarkers_eq (by rintro name rfl; exact marked rfl)

/-- The sign of a type, or nothing, is read along the path. -/
private theorem signs_lands (ordered : feed.Ordered) :
    (signs 0 feed).Lands 0 1 1 typeEnd markers.step feed := by
  cases ahead : feed.head? with
  | none =>
    obtain ⟨failure, rfl⟩ := Feed.eq_fault_of_head? ahead
    exact Reading.lands_fault
  | some terminal =>
    by_cases signed : terminal.kind = .question ∨ terminal.kind = .brackets
    · obtain ⟨first, proper, rest, rfl, rfl⟩ :=
        Feed.eq_token_of_head? ahead (by rintro rfl; simp at signed)
      rw [Token.kind_terminal] at signed
      have stepped : typeEnd.step first.terminal = some markers := by
        rcases signed with kind | kind <;> simp [Token.terminal, kind, step, stepTypeEnd]
      rw [signs_taken signed]
      exact ⟨markers, .one stepped (Nat.zero_le _) (Nat.le_refl _), .refl ordered.2⟩
    · rw [not_or] at signed
      have stands : Stands 1 typeEnd typeEnd.step feed := .refl ordered
      rw [signs_missed ahead signed.1 signed.2]
      refine ⟨typeEnd, .here, stands.narrow (fun {terminal next} taken => ?_) fun other found => ?_⟩
      · rw [← taken]
        exact stepTypeEnd_eq (by rintro rfl; cases taken) (by rintro rfl; cases taken)
      · cases ahead.symm.trans found
        exact stepTypeEnd_eq (by rintro rfl; exact signed.1 rfl) (by rintro rfl; exact signed.2 rfl)

/-- A type is read along the path. -/
private theorem fieldType_lands (stands : Stands 1 expectation Expectation.fieldType.step feed) :
    (reads (budget + 5) fieldType 0 feed).Lands 0 1 1 expectation markers.step feed := by
  rw [fieldType_eq]
  refine .map (required_lands .fieldType (fun _ => rfl) rfl rfl (Nat.le_refl _) stands ?_) _
  exact fun name rest behind => (signs_lands behind.ordered).map _

/-- A line of a model is read along the path. -/
private theorem field_lands (inner : ValuesLand (reads (budget + 9) expression) 1)
    (stands : Stands 1 expectation fieldName.step feed)
    (more : ∀ terminal, feed.head? = some terminal → terminal ≠ .rightBrace) :
    (reads (budget + 21) field 0 feed).Lands 0 1 1 expectation fieldName.step feed ∧
      (reads (budget + 21) field 0 feed).Advances feed := by
  rw [field_eq]
  refine Reading.Lands.map_advances (line_lands .field (.inl rfl) rfl rfl stands more fun name rest behind => .map ?_ _)
  refine (fieldType_lands behind).andThen (Nat.le_refl _) fun type rest last _ stands => .map ?_ _
  exact markers_lands inner _ stands

/-! ## Options -/

/-- A line of a configuration is read along the path. -/
private theorem option_lands (inner : ValuesLand (reads (budget + 2) expression) 0)
    (stands : Stands 1 expectation optionKey.step feed)
    (more : ∀ terminal, feed.head? = some terminal → terminal ≠ .rightBrace) :
    (reads (budget + 5) option 0 feed).Lands 0 1 1 expectation optionKey.step feed ∧
      (reads (budget + 5) option 0 feed).Advances feed := by
  rw [option_eq]
  refine Reading.Lands.map_advances (line_lands .option (.inr rfl) rfl rfl stands more fun key rest behind => .map ?_ _)
  refine sign_lands .equals (by simp) rfl rfl (Nat.le_refl _) behind fun sign rest behind => .map ?_ _
  exact inner .option behind

/-! ## Blocks -/

/-- Parts are read along the path up to a closing token. -/
private theorem takeUntil_lands {α : Type} {part : Reader α} {stop : TokenKind} {low high : Nat}
    {inside behind : Terminal → Option Expectation} (less : low ≤ high)
    (parts : ∀ {expectation feed terminal}, Stands high expectation inside feed →
      feed.head? = some terminal → terminal.kind ≠ stop →
      (part 0 feed).Lands 0 high high expectation inside feed ∧ (part 0 feed).Advances feed)
    (closes : ∀ {expectation feed terminal}, Stands high expectation inside feed →
      feed.head? = some terminal → terminal.kind = stop →
      ∃ last, Path low expectation feed last feed.next ∧ Stands low last behind feed.next)
    (rounds : Nat) (stands : Stands high expectation inside feed) :
    (Reader.takeUntil part stop rounds 0 feed).Lands 0 low high expectation behind feed := by
  induction rounds generalizing expectation feed with
  | zero => trivial
  | succ rounds ih =>
    cases ahead : feed.head? with
    | none =>
      obtain ⟨failure, rfl⟩ := Feed.eq_fault_of_head? ahead
      exact Reading.lands_fault
    | some terminal =>
      obtain ⟨first, looked, rfl⟩ := Feed.look_of_head? ahead
      rw [Reader.takeUntil, looked]
      by_cases closing : first.kind = stop
      · simp only [closing, if_true]
        exact closes stands ahead (by rwa [Token.kind_terminal])
      · simp only [closing, if_false]
        obtain ⟨lands, advances⟩ := parts stands ahead (by rwa [Token.kind_terminal])
        refine lands.andThen less fun tree rest last read stands => ?_
        rw [read] at advances
        rw [if_neg (Nat.ne_of_lt advances)]
        exact (ih stands).map _

/-- The name of a block and its lines are read along the path, if each line is. Nothing
but the closing brace leads out of the block. -/
private theorem body_lands {α : Type} {part : Reader α} (demand : Demand)
    {name brace inside line : Expectation}
    (names : ∀ terminal, demand.accepts terminal = decide (terminal.kind = .identifier))
    (named : name.step = stepName brace) (opened : brace.step = stepOnly .leftBrace inside)
    (lined : inside.step = stepLine line) (heights : brace.height = 1 ∧ inside.height = 1)
    (flats : brace.opened = 0 ∧ inside.opened = 0)
    (parts : ∀ {expectation feed}, Stands 1 expectation inside.step feed →
      (∀ terminal, feed.head? = some terminal → terminal ≠ .rightBrace) →
      (part 0 feed).Lands 0 1 1 expectation inside.step feed ∧ (part 0 feed).Advances feed)
    (ordered : feed.Ordered) :
    (body demand.message budget part 0 feed).Lands 0 0 1 name block.step feed := by
  refine required_lands demand names heights.1 flats.1 (Nat.zero_le _)
    (by rw [← named]; exact .refl ordered) fun first rest behind => .map ?_ _
  refine sign_lands .leftBrace (by simp) heights.2 flats.2 (Nat.zero_le _) (by rw [← opened]; exact behind)
    fun first rest behind => .map ?_ _
  refine takeUntil_lands (Nat.zero_le _) (fun stands front other => ?_)
    (fun {expectation feed terminal} stands front closing => ?_) _ behind
  · refine parts stands fun terminal found => ?_
    cases front.symm.trans found
    rintro rfl
    exact other rfl
  · obtain rfl : terminal = .rightBrace := Terminal.eq_of_kind closing (by simp)
    obtain ⟨first, proper, rest, rfl, same⟩ := Feed.eq_token_of_head? front (by simp)
    have stepped : expectation.step first.terminal = some block :=
      stands.wider (by rw [lined, same]; rfl)
    exact ⟨block, .one stepped (Nat.zero_le _) (Nat.zero_le _), .refl stands.ordered.2⟩

/-- A block is as good as what follows the word that opens it. A failure there is further
on than the word. -/
private theorem opened_lands {α β : Type} {reading : Reading α} {change : α → β} {first : Token}
    {proper : first.kind ≠ .endOfInput} {rest : Feed} {name : Expectation}
    (stands : Stands 0 expectation block.step (.token first proper rest))
    (taken : block.step first.terminal = some name) (high : name.height = 1) (flat : name.opened = 0)
    (lands : reading.Lands 0 0 1 name block.step rest) :
    ((reading.map change).Lands 0 0 1 expectation block.step (.token first proper rest) ∧
        (reading.map change).Advances (.token first proper rest)) ∧
      ∀ error, reading.map change = .failure error → error.isFatal = false →
        first.start.offset < error.position.offset := by
  have path : Path 1 expectation (.token first proper rest) name rest :=
    .one (stands.wider taken) (by omega) (Nat.le_of_eq high.symm)
  refine ⟨⟨(lands.map change).of_path path (Nat.zero_le _), ?_⟩, ?_⟩
  · cases reading with
    | value tree final =>
      obtain ⟨_, further, _⟩ := lands
      exact Nat.lt_succ_of_le further.size_le
    | failure | exhausted => trivial
  · intro error failed soft
    cases reading with
    | value tree final => cases failed
    | failure other =>
      cases failed
      exact Nat.lt_of_lt_of_le stands.ordered.1 ((lands.2 soft).place_le stands.ordered.2)
    | exhausted => cases failed

private theorem model_refuses {terminal : Terminal} (front : feed.head? = some terminal)
    (other : terminal ≠ .identifier "model") :
    (reads (budget + 15) model depth feed).Refuses feed := by
  rw [model_eq]
  exact ((Reader.keyword_refuses front other depth).andThen _).map _

private theorem config_refuses {terminal : Terminal} (front : feed.head? = some terminal)
    (other : ∀ kind : ConfigKind, terminal ≠ .identifier kind.keyword) :
    (reads (budget + 15) config depth feed).Refuses feed := by
  have refuses : (kinds depth feed).Refuses feed := by
    refine ⟨_, Reader.choice_refuses front ?_ _⟩
    simp only [List.forall_mem_cons, List.not_mem_nil, false_implies, implies_true, and_true]
    exact ⟨(Reader.keyword_refuses front (other .datasource) depth).map _,
      (Reader.keyword_refuses front (other .generator) depth).map _⟩
  rw [config_eq]
  exact (refuses.andThen _).map _

/-- A model is read along the path, and its failures are further on than its word. -/
private theorem model_lands (front : feed.head? = some (.identifier "model"))
    (stands : Stands 0 expectation block.step feed)
    (inner : ValuesLand (reads (budget + 9) expression) 1) :
    ((reads (budget + 24) model 0 feed).Lands 0 0 1 expectation block.step feed ∧
        (reads (budget + 24) model 0 feed).Advances feed) ∧
      ∀ error, reads (budget + 24) model 0 feed = .failure error → error.isFatal = false →
        feed.place.offset < error.position.offset := by
  obtain ⟨first, proper, rest, rfl, same⟩ := Feed.eq_token_of_head? front (by simp)
  rw [model_eq, Reader.keyword_taken same, Reading.andThen, Reading.map_map]
  refine opened_lands stands (by rw [same]; rfl) rfl rfl ?_
  exact body_lands .modelName (fun _ => rfl) rfl rfl rfl ⟨rfl, rfl⟩ ⟨rfl, rfl⟩
    (field_lands inner) stands.ordered.2

/-- A configuration is read along the path, and its failures are further on than its
word. -/
private theorem config_lands {kind : ConfigKind}
    (front : feed.head? = some (.identifier kind.keyword))
    (stands : Stands 0 expectation block.step feed)
    (inner : ValuesLand (reads (budget + 9) expression) 0) :
    ((reads (budget + 15) config 0 feed).Lands 0 0 1 expectation block.step feed ∧
        (reads (budget + 15) config 0 feed).Advances feed) ∧
      ∀ error, reads (budget + 15) config 0 feed = .failure error → error.isFatal = false →
        feed.place.offset < error.position.offset := by
  obtain ⟨first, proper, rest, rfl, same⟩ := Feed.eq_token_of_head? front (by simp)
  rw [config_eq, kinds_taken same, Reading.andThen, Reading.map_map]
  refine opened_lands stands (by rw [same]; cases kind <;> rfl) rfl rfl ?_
  exact body_lands .configName (fun _ => rfl) rfl rfl rfl ⟨rfl, rfl⟩ ⟨rfl, rfl⟩
    (option_lands inner) stands.ordered.2

/-- What begins no block is refused in the words of a block. -/
private theorem definition_refuses {terminal : Terminal} (front : feed.head? = some terminal)
    (model : terminal ≠ .identifier "model")
    (config : ∀ kind : ConfigKind, terminal ≠ .identifier kind.keyword) :
    reads (budget + 16) definition depth feed =
      .failure (.mismatch Demand.definition.message feed.place) := by
  rw [definition_eq, Reader.choice_refuses front]
  · rfl
  · simp only [List.forall_mem_cons, List.not_mem_nil, false_implies, implies_true, and_true]
    exact ⟨model_refuses front model, config_refuses front config⟩

private theorem definition_accepted {terminal : Terminal}
    (wanted : Demand.definition.accepts terminal = true) :
    ∃ next, block.step terminal = some next ∧ next.opened ≤ 1 := by
  have word := of_decide_eq_true wanted
  simp only [List.mem_cons, List.not_mem_nil, or_false] at word
  rcases word with rfl | rfl | rfl
  · exact ⟨modelName, rfl, Nat.zero_le _⟩
  · exact ⟨configName, rfl, Nat.zero_le _⟩
  · exact ⟨configName, rfl, Nat.zero_le _⟩

/-- A block is read along the path. If it cannot be read, the path never leaves it. -/
theorem definition_lands {terminal : Terminal} (front : feed.head? = some terminal)
    (more : terminal ≠ .endOfInput) (stands : Stands 0 expectation block.step feed)
    (inner : ValuesLand (reads (budget + 9) expression) 1) :
    (reads (budget + 25) definition 0 feed).Lands 0 0 1 expectation block.step feed ∧
      (reads (budget + 25) definition 0 feed).Advances feed := by
  by_cases model : terminal = .identifier "model"
  · subst model
    obtain ⟨lands, further⟩ := model_lands front stands inner
    have refuses : (reads (budget + 24) config 0 feed).Refuses feed :=
      config_refuses front (by rintro ⟨⟩ <;> simp [ConfigKind.keyword])
    have alone := Reader.choice_alone front [] [reads (budget + 24) config]
      (List.forall_mem_singleton.2 refuses) further "Expected config or model definition"
    rw [List.nil_append] at alone
    rwa [definition_eq, alone]
  · by_cases config : ∃ kind : ConfigKind, terminal = .identifier kind.keyword
    · obtain ⟨kind, rfl⟩ := config
      have outer := expression_lands (Nat.zero_le _) fun _ => inner
      obtain ⟨lands, further⟩ := config_lands front stands outer
      have refuses : (reads (budget + 24) Schema.model 0 feed).Refuses feed :=
        model_refuses front model
      have alone := Reader.choice_alone front [reads (budget + 24) Schema.model] []
        (List.forall_mem_singleton.2 refuses) further "Expected config or model definition"
      rw [List.singleton_append] at alone
      rwa [definition_eq, alone]
    · have neither : ∀ kind : ConfigKind, terminal ≠ .identifier kind.keyword :=
        fun kind same => config ⟨kind, same⟩
      have refused : Demand.definition.accepts terminal = false := by
        refine decide_eq_false ?_
        simp only [List.mem_cons, List.not_mem_nil, or_false, not_or]
        exact ⟨model, neither .datasource, neither .generator⟩
      have blocked := block_blocked more model neither
      rw [definition_refuses front model neither]
      exact ⟨stands.fails (by simp) (fun _ => definition_accepted) front refused blocked, trivial⟩

/-! ## Whole texts -/

/-- A failure to read a text that is not fatal demands something at a place of its path
where it could stand. -/
theorem document_blamed (ordered : feed.Ordered)
    (inner : ValuesLand (reads (budget + 9) expression) 1) {error : ParseError}
    (read : reads (budget + 27) document 0 feed = .failure error) (soft : error.isFatal = false) :
    Blamed 0 block feed error := by
  have lands : (reads (budget + 27) document 0 feed).Lands 0 0 0 block (fun _ => none) feed := by
    rw [document_eq]
    refine .map (takeUntil_lands (Nat.le_refl _) (fun stands front other => ?_)
      (fun {expectation feed terminal} stands front ended => ?_) _ (.refl ordered)) _
    · obtain ⟨lands, advances⟩ :=
        definition_lands front (by rintro rfl; exact other rfl) stands inner
      exact ⟨lands.mono (Nat.zero_le _), advances⟩
    · obtain rfl : terminal = .endOfInput := Terminal.eq_of_kind ended (by simp)
      cases feed with
      | token first proper rest =>
        exact absurd (Token.kind_of_terminal (Option.some.inj front)) proper
      | finish place =>
        exact ⟨expectation, .here, stands.ordered, nofun, fun _ _ => .inr (confined_of_size rfl)⟩
      | fault failure => cases front
  rw [read] at lands
  exact lands.2 soft

end SchemaLang.Schema
