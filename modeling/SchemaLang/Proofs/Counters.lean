import SchemaLang.Proofs.Placement

/-! Counting with words. Going over a text with counters that fit a word leads to where
unbounded counting leads, and is refused just when a line or a column no longer fits behind
some character, or the bytes do not fit behind the last. Each part of a text moves the
counters as it does in the whole, so two texts in a row are gone over, or refused, as one. -/
namespace SchemaLang.Position

/-! ## Where a text leads -/

/-- On one line, columns are counted on. -/
theorem column_advance_of_notMem {text : List Char} (flat : lineFeed ∉ text)
    (position : Position) : (position.advance text).column = position.column + text.length := by
  induction text generalizing position with
  | nil => rfl
  | cons char text ih =>
    obtain ⟨here, others⟩ := not_or.1 (List.mem_cons.not.1 flat)
    show ((position.step char).advance text).column = _
    rw [ih others, step, if_neg (Ne.symm here), List.length_cons]
    show position.column + 1 + text.length = _
    omega

/-- Behind a line feed, columns are counted from the first. -/
theorem column_advance_lineFeed {back : List Char} (flat : lineFeed ∉ back) (front : List Char)
    (position : Position) :
    (position.advance (front ++ lineFeed :: back)).column = 1 + back.length := by
  rw [advance_append]
  show (((position.advance front).step lineFeed).advance back).column = _
  rw [column_advance_of_notMem flat, step, if_pos rfl]

/-- One place is where a text leads from another: on by its bytes and its line feeds, and to
the column behind the last of these, or else on by its characters. -/
structure Leads (position : Position) (text : List Char) (next : Position) : Prop where
  offset : next.offset = position.offset + (String.ofList text).utf8ByteSize
  line : next.line = position.line + text.count '\n'
  column : ∀ front back, text = front ++ '\n' :: back → '\n' ∉ back →
    next.column = 1 + back.length
  flat : '\n' ∉ text → next.column = position.column + text.length

theorem leads_advance (position : Position) (text : List Char) :
    position.Leads text (position.advance text) where
  offset := by rw [offset_advance, utf8ByteSize_ofList]
  line := line_advance position text
  column := by
    rintro front back rfl flat
    exact column_advance_lineFeed flat front position
  flat := fun flat => column_advance_of_notMem flat position

/-- A text that is not empty leads on. -/
theorem isAfter_advance {text : List Char} (nonempty : text ≠ []) (position : Position) :
    (position.advance text).isAfter position = true := by
  have further : position.offset < (position.advance text).offset := by
    have wide := byteLength_pos nonempty
    rw [offset_advance]
    omega
  rw [isAfter, compare, Nat.compare_eq_gt.2 further]
  rfl

/-! ## Room for a text -/

/-- A place whose counters fit a word. -/
structure Fits (position : Position) : Prop where
  offset : position.offset < wordLimit
  line : position.line < wordLimit
  column : position.column < wordLimit

instance (position : Position) : Decidable position.Fits :=
  decidable_of_iff (position.offset < wordLimit ∧ position.line < wordLimit ∧
    position.column < wordLimit)
    ⟨fun ⟨offset, line, column⟩ => ⟨offset, line, column⟩,
      fun ⟨offset, line, column⟩ => ⟨offset, line, column⟩⟩

/-- Lines and columns fit their words behind every part that a text begins with. -/
def Clear (position : Position) (text : List Char) : Prop :=
  ∀ front, front <+: text →
    (position.advance front).line < wordLimit ∧ (position.advance front).column < wordLimit

/-- A text for which the counters have room: they fit their words all the way, the offset,
which is moved once, at the end of it. -/
structure Room (position : Position) (text : List Char) : Prop where
  clear : position.Clear text
  bytes : (position.advance text).offset < wordLimit

theorem clear_cons {position : Position} {char : Char} {text : List Char} :
    position.Clear (char :: text) ↔
      (position.line < wordLimit ∧ position.column < wordLimit) ∧
        (position.step char).Clear text := by
  constructor
  · intro clear
    exact ⟨clear [] List.nil_prefix,
      fun front begins => clear (char :: front) (List.cons_prefix_cons.2 ⟨rfl, begins⟩)⟩
  · rintro ⟨here, others⟩ front begins
    rcases List.prefix_cons_iff.1 begins with rfl | ⟨front, rfl, within⟩
    · exact here
    · exact others front within

theorem clear_append {position : Position} {first others : List Char} :
    position.Clear (first ++ others) ↔
      position.Clear first ∧ (position.advance first).Clear others := by
  constructor
  · intro clear
    refine ⟨fun front begins => clear front (begins.trans (List.prefix_append ..)), ?_⟩
    intro front begins
    rw [← advance_append]
    exact clear (first ++ front) ((List.prefix_append_right_inj first).2 begins)
  · rintro ⟨clear, behind⟩ front begins
    rcases List.prefix_or_prefix_of_prefix begins (List.prefix_append first others) with
      within | ⟨rest, rfl⟩
    · exact clear front within
    · rw [advance_append]
      exact behind rest ((List.prefix_append_right_inj first).1 begins)

theorem room_append {position : Position} {first others : List Char} :
    position.Room (first ++ others) ↔
      position.Room first ∧ (position.advance first).Room others := by
  have grows := offset_advance (position.advance first) others
  constructor
  · rintro ⟨clear, bytes⟩
    obtain ⟨front, behind⟩ := clear_append.1 clear
    rw [advance_append] at bytes
    exact ⟨⟨front, by omega⟩, ⟨behind, bytes⟩⟩
  · rintro ⟨front, behind⟩
    refine ⟨clear_append.2 ⟨front.clear, behind.clear⟩, ?_⟩
    rw [advance_append]
    exact behind.bytes

theorem Room.fits {position : Position} {text : List Char} (room : position.Room text) :
    (position.advance text).Fits :=
  have ⟨line, column⟩ := room.clear text (List.prefix_refl _)
  ⟨room.bytes, line, column⟩

/-! ## Checked counting -/

/-- From a line that fits, one character is refused just when the line or the column behind it
does not. -/
theorem stepLine?_eq {position : Position} (line : position.line < wordLimit) (char : Char) :
    stepLine? position char =
      if (position.step char).line < wordLimit ∧ (position.step char).column < wordLimit then
        some { position.step char with offset := position.offset }
      else none := by
  have one : 1 < wordLimit := by decide
  unfold stepLine? step add?
  split
  · by_cases fits : position.line + 1 < wordLimit <;> simp [fits, one]
  · by_cases fits : position.column + 1 < wordLimit <;> simp [fits, line]

theorem foldlM_stepLine?_eq_some_iff (text : List Char) (position moved : Position)
    (line : position.line < wordLimit) (column : position.column < wordLimit) :
    text.foldlM stepLine? position = some moved ↔
      position.Clear text ∧ moved = { position.advance text with offset := position.offset } := by
  induction text generalizing position with
  | nil =>
    have clear : position.Clear [] := fun front begins => by
      obtain rfl := List.prefix_nil.1 begins
      exact ⟨line, column⟩
    rw [List.foldlM_nil]
    exact ⟨fun same => ⟨clear, (Option.some.inj same).symm⟩, fun same => same.2 ▸ rfl⟩
  | cons char text ih =>
    rw [List.foldlM_cons, stepLine?_eq line, clear_cons]
    by_cases fits :
        (position.step char).line < wordLimit ∧ (position.step char).column < wordLimit
    · -- The fold goes on from the old offset, on which lines and columns do not depend.
      have further := ih { position.step char with offset := position.offset } fits.1 fits.2
      have clear : Clear { position.step char with offset := position.offset } text ↔
          (position.step char).Clear text :=
        forall₂_congr fun front _ => by rw [advance_offset]
      rw [advance_offset, clear] at further
      rw [if_pos fits]
      refine further.trans ?_
      rw [and_iff_right (show position.line < wordLimit ∧ _ from ⟨line, column⟩)]
      rfl
    · rw [if_neg fits]
      constructor
      · rintro ⟨⟩
      · rintro ⟨⟨-, clear⟩, -⟩
        exact absurd (clear [] List.nil_prefix) fits

/-- Going over a text with counters that are words succeeds just when there is room for it,
and then leads to where it leads without bounds. -/
theorem advance?_eq_some_iff {position next : Position} (fits : position.Fits)
    (text : List Char) :
    position.advance? text = some next ↔ position.Room text ∧ next = position.advance text := by
  have bytes := offset_advance position text
  have counted (moved : Position) :=
    foldlM_stepLine?_eq_some_iff text position moved fits.line fits.column
  constructor
  · intro done
    obtain ⟨moved, steps, rest⟩ := Option.bind_eq_some_iff.1 done
    obtain ⟨clear, rfl⟩ := (counted moved).1 steps
    obtain ⟨offset, added, same⟩ := Option.bind_eq_some_iff.1 rest
    obtain ⟨below, sum⟩ := Option.ite_none_right_eq_some.1 added
    cases sum
    cases same
    rw [← bytes] at below ⊢
    exact ⟨⟨clear, below⟩, rfl⟩
  · rintro ⟨room, rfl⟩
    have below := room.bytes
    rw [bytes] at below
    rw [advance?, (counted _).2 ⟨room.clear, rfl⟩, add?, if_pos below, ← bytes]
    rfl

theorem advance?_eq_none_iff {position : Position} (fits : position.Fits) (text : List Char) :
    position.advance? text = none ↔ ¬ position.Room text := by
  rw [Option.eq_none_iff_forall_ne_some]
  constructor
  · intro refused room
    exact refused _ ((advance?_eq_some_iff fits text).2 ⟨room, rfl⟩)
  · intro full next done
    exact full ((advance?_eq_some_iff fits text).1 done).1

/-- **Checked counting acts by texts.** From a place of words, two texts in a row lead where
they lead one after the other, and are refused if one of the steps is. A text is refused
just when there is no room for it. Otherwise the place that it leads to is one of words
again, as many bytes and lines further as the text has, in the column behind its last line
feed or as many columns further as it has characters, and further on unless it is empty. -/
theorem advance?_action {position : Position} (fits : position.Fits) (first others : List Char) :
    position.advance? (first ++ others) =
        (position.advance? first).bind (fun next => next.advance? others) ∧
      (position.advance? first = none ↔ ¬ position.Room first) ∧
      ∀ next, position.advance? first = some next →
        next.Fits ∧ position.Leads first next ∧
          (first ≠ [] → next.isAfter position = true) := by
  refine ⟨?_, advance?_eq_none_iff fits first, ?_⟩
  · by_cases room : position.Room first
    · have front := (advance?_eq_some_iff fits first).2 ⟨room, rfl⟩
      rw [front, Option.bind_some]
      refine Option.ext fun next => ?_
      rw [advance?_eq_some_iff fits, advance?_eq_some_iff room.fits, room_append, advance_append,
        and_iff_right room]
    · have whole : ¬ position.Room (first ++ others) := fun all => room (room_append.1 all).1
      rw [(advance?_eq_none_iff fits first).2 room, (advance?_eq_none_iff fits _).2 whole]
      rfl
  · intro next done
    obtain ⟨room, rfl⟩ := (advance?_eq_some_iff fits first).1 done
    exact ⟨room.fits, leads_advance position first,
      fun nonempty => isAfter_advance nonempty position⟩

/-- At the brim of a line two characters are refused, but a line feed between them makes room. -/
theorem advance?_action_brim :
    let position : Position := ⟨wordLimit - 5, 1, wordLimit - 2⟩
    position.Fits ∧ position.advance? ['a', 'b'] = none ∧
      position.advance? ['a', '\n', 'b', 'c'] = some ⟨wordLimit - 1, 2, 3⟩ ∧
      (position.advance? ['a', '\n']).bind (fun next => next.advance? ['b', 'c']) =
        some ⟨wordLimit - 1, 2, 3⟩ ∧
      (⟨wordLimit - 3, 2, 1⟩ : Position).Fits ∧
      position.Leads ['a', '\n'] ⟨wordLimit - 3, 2, 1⟩ ∧
      (⟨wordLimit - 3, 2, 1⟩ : Position).isAfter position = true := by
  intro position
  have fits : position.Fits := by decide
  have front : position.advance? ['a', '\n'] = some ⟨wordLimit - 3, 2, 1⟩ := by decide
  have both : position.advance? ['a', '\n', 'b', 'c'] = some ⟨wordLimit - 1, 2, 3⟩ := by decide
  obtain ⟨acts, -, leads⟩ := advance?_action fits ['a', '\n'] ['b', 'c']
  obtain ⟨within, moved, later⟩ := leads _ front
  exact ⟨fits, by decide, both, acts.symm.trans both, within, moved, later (List.cons_ne_nil _ _)⟩

end SchemaLang.Position
