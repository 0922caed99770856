import SchemaLang.Proofs.Pointing

/-! Which place the top line of a frame names. A frame counts the bytes behind the last line
break in front of a place, and takes a carriage return for a break even if no line feed
follows it; positions count characters, and break lines at line feeds alone. So the two
agree just where bytes and characters count alike and no carriage return stands by itself. -/
namespace SchemaLang

namespace Frame

/-! ## Line breaks -/

/-- A break is a pair, a carriage return or a line feed, and there are no others. -/
theorem lineBreaks_cons (offset : Nat) {char : Char} {rest : List Char}
    (single : char = '\r' → rest.head? ≠ some '\n') :
    lineBreaks offset (char :: rest) =
      if char = '\r' ∨ char = '\n' then ⟨offset, offset⟩ :: lineBreaks (offset + 1) rest
      else lineBreaks (offset + char.utf8Size) rest := by
  rw [lineBreaks]
  rintro others rfl rfl
  exact single rfl rfl

private theorem head?_of_alone {char : Char} {rest : List Char}
    (alone : ∀ others, char = '\r' → rest = '\n' :: others → False) (carriage : char = '\r') :
    rest.head? ≠ some '\n' := by
  intro feed
  obtain ⟨others, same⟩ := List.head?_eq_some_iff.1 feed
  exact alone others carriage same

private theorem utf8Size_of_break {char : Char} (ending : char = '\r' ∨ char = '\n') :
    char.utf8Size = 1 := by
  rcases ending with rfl | rfl <;> rfl

private theorem byteLength_pair (text : List Char) :
    Position.byteLength ('\r' :: '\n' :: text) = 2 + Position.byteLength text :=
  (Nat.add_assoc 1 1 _).symm

/-- The breaks of a text are those of its parts, unless a pair is divided. -/
theorem lineBreaks_append (offset : Nat) (before : List Char) {behind : List Char}
    (apart : behind.head? ≠ some '\n') :
    lineBreaks offset (before ++ behind) =
      lineBreaks offset before ++ lineBreaks (offset + Position.byteLength before) behind := by
  have single {char : Char} {rest : List Char}
      (alone : ∀ others, char = '\r' → rest = '\n' :: others → False) (carriage : char = '\r') :
      (rest ++ behind).head? ≠ some '\n' := by
    have other := head?_of_alone alone carriage
    cases rest with
    | nil => exact apart
    | cons next rest => exact other
  fun_induction lineBreaks offset before with
  | case1 => rfl
  | case2 offset rest ih =>
    rw [List.cons_append, List.cons_append, lineBreaks, ih, byteLength_pair, ← Nat.add_assoc]
    rfl
  | case3 offset char rest alone ending ih =>
    have narrow := utf8Size_of_break ending
    rw [List.cons_append, lineBreaks_cons offset (single alone), if_pos ending, ih,
      Position.byteLength_cons, narrow, Nat.add_assoc]
    rfl
  | case4 offset char rest alone inner ih =>
    rw [List.cons_append, lineBreaks_cons offset (single alone), if_neg inner, ih,
      Position.byteLength_cons, Nat.add_assoc]

/-- Breaks lie inside the text they are found in. -/
theorem lineBreaks_bounds (offset : Nat) (text : List Char) :
    ∀ found ∈ lineBreaks offset text, offset ≤ found.first ∧ found.first ≤ found.last ∧
      found.last < offset + Position.byteLength text := by
  fun_induction lineBreaks offset text with
  | case1 => exact List.forall_mem_nil _
  | case2 offset rest ih =>
    rw [byteLength_pair]
    refine List.forall_mem_cons.2 ⟨⟨Nat.le_refl _, Nat.le_succ _, ?_⟩, fun found held => ?_⟩
    · show offset + 1 < _
      omega
    · have bounds := ih found held
      omega
  | case3 offset char rest alone ending ih =>
    have narrow := utf8Size_of_break ending
    rw [Position.byteLength_cons]
    refine List.forall_mem_cons.2 ⟨⟨Nat.le_refl _, Nat.le_refl _, ?_⟩, fun found held => ?_⟩
    · show offset < _
      omega
    · have bounds := ih found held
      omega
  | case4 offset char rest alone inner ih =>
    intro found held
    have bounds := ih found held
    rw [Position.byteLength_cons]
    omega

/-- The breaks in front of a place that divides no pair are those of the part in front of it. -/
theorem breaksBefore_append (before : List Char) {behind : List Char}
    (apart : behind.head? ≠ some '\n') :
    breaksBefore (lineBreaks 0 (before ++ behind)) (Position.byteLength before) =
      lineBreaks 0 before := by
  have inner := lineBreaks_bounds 0 before
  have outer := lineBreaks_bounds (0 + Position.byteLength before) behind
  rw [lineBreaks_append 0 before apart, breaksBefore, List.takeWhile_append_of_pos]
  · cases further : lineBreaks (0 + Position.byteLength before) behind with
    | nil => exact List.append_nil _
    | cons next others =>
      have bounds := outer next (by rw [further]; exact List.mem_cons_self)
      rw [List.takeWhile_cons_of_neg, List.append_nil]
      simp only [decide_eq_true_eq]
      omega
  · intro found held
    have bounds := inner found held
    simp only [decide_eq_true_eq]
    omega

/-- In front of a place that divides no pair, a frame counts the breaks and then the bytes
behind the last of them. -/
theorem place_append (before : List Char) {behind : List Char}
    (apart : behind.head? ≠ some '\n') :
    place (before ++ behind) (Position.byteLength before) =
      ((lineBreaks 0 before).length,
        Position.byteLength before - (lineStarts (lineBreaks 0 before)).getLastD 0) := by
  have reached : min (Position.byteLength before) (Position.byteLength (before ++ behind)) =
      Position.byteLength before := by
    rw [Position.byteLength_append]
    omega
  simp only [place, breaksBefore_append before apart, reached]
  rw [lineBreaks_append 0 before apart, List.drop_left]
  -- The next break is no nearer than the place, so it does not cut the column short.
  cases further : lineBreaks (0 + Position.byteLength before) behind with
  | nil => rfl
  | cons next others =>
    have bounds := lineBreaks_bounds _ _ next (by rw [further]; exact List.mem_cons_self)
    show (_, min _ next.first - _) = _
    rw [Nat.min_eq_left (by omega)]

/-! ## Pairs -/

/-- Every carriage return of a text is followed by a line feed. -/
def Paired (text : List Char) : Prop :=
  ∀ front back, text = front ++ '\r' :: back → back.head? = some '\n'

theorem paired_cons {char : Char} {rest : List Char} :
    Paired (char :: rest) ↔ (char = '\r' → rest.head? = some '\n') ∧ Paired rest := by
  constructor
  · intro paired
    refine ⟨?_, fun front back split => paired (char :: front) back (by rw [split]; rfl)⟩
    rintro rfl
    exact paired [] rest rfl
  · rintro ⟨here, others⟩ front back split
    cases front with
    | nil =>
      obtain ⟨rfl, rfl⟩ := List.cons.inj split
      exact here rfl
    | cons first front =>
      obtain ⟨rfl, same⟩ := List.cons.inj split
      exact others front back same

/-- A text has as many breaks as line feeds, and one more for every carriage return by itself. -/
theorem length_lineBreaks (offset : Nat) (text : List Char) :
    text.count '\n' ≤ (lineBreaks offset text).length ∧
      ((lineBreaks offset text).length = text.count '\n' ↔ Paired text) := by
  fun_induction lineBreaks offset text with
  | case1 => exact ⟨Nat.le_refl _, fun _ front back split => by simp at split, fun _ => rfl⟩
  | case2 offset rest ih =>
    have feed : ('\r' :: '\n' :: rest).count '\n' = rest.count '\n' + 1 := by simp
    rw [feed, List.length_cons, paired_cons, paired_cons, Nat.add_right_cancel_iff, ih.2]
    exact ⟨Nat.succ_le_succ ih.1, by simp⟩
  | case3 offset char rest alone ending ih =>
    rw [paired_cons, List.length_cons, ← ih.2]
    rcases ending with rfl | rfl
    · have returned : ('\r' :: rest).count '\n' = rest.count '\n' := by simp
      have single := head?_of_alone alone rfl
      rw [returned]
      refine ⟨Nat.le_succ_of_le ih.1, fun same => ?_, fun ⟨feed, _⟩ => absurd (feed rfl) single⟩
      omega
    · have fed : ('\n' :: rest).count '\n' = rest.count '\n' + 1 := by simp
      rw [fed, Nat.add_right_cancel_iff]
      exact ⟨Nat.succ_le_succ ih.1, fun same => ⟨nofun, same⟩, And.right⟩
  | case4 offset char rest alone inner ih =>
    obtain ⟨carriage, feed⟩ := not_or.1 inner
    rw [paired_cons, List.count_cons_of_ne feed, ← ih.2]
    exact ⟨ih.1, fun same => ⟨fun here => absurd here carriage, same⟩, And.right⟩

/-! ## Columns -/

/-- The last break of a text that ends in a line feed is at its end. -/
theorem getLast?_lineBreaks (offset : Nat) {text : List Char} (fed : text.getLast? = some '\n') :
    ∃ found, (lineBreaks offset text).getLast? = some found ∧
      found.last + 1 = offset + Position.byteLength text := by
  have behind (first : LineBreak) {rest : List Char} {start : Nat}
      (later : ∃ found, (lineBreaks start rest).getLast? = some found ∧
        found.last + 1 = start + Position.byteLength rest) :
      ∃ found, (first :: lineBreaks start rest).getLast? = some found ∧
        found.last + 1 = start + Position.byteLength rest := by
    obtain ⟨found, last, ends⟩ := later
    exact ⟨found, by rw [List.getLast?_cons, last]; rfl, ends⟩
  fun_induction lineBreaks offset text with
  | case1 => cases fed
  | case2 offset rest ih =>
    cases rest with
    | nil => exact ⟨_, rfl, rfl⟩
    | cons next rest =>
      obtain ⟨found, last, ends⟩ := behind ⟨offset, offset + 1⟩ (ih (by simpa using fed))
      exact ⟨found, last, by rw [ends, byteLength_pair, Nat.add_assoc]⟩
  | case3 offset char rest alone ending ih =>
    have narrow := utf8Size_of_break ending
    rw [Position.byteLength_cons]
    cases rest with
    | nil =>
      refine ⟨_, rfl, ?_⟩
      show offset + 1 = offset + (char.utf8Size + 0)
      omega
    | cons next rest =>
      obtain ⟨found, last, ends⟩ := behind ⟨offset, offset⟩ (ih (by simpa using fed))
      exact ⟨found, last, by omega⟩
  | case4 offset char rest alone inner ih =>
    cases rest with
    | nil => exact absurd (.inr (Option.some.inj fed)) inner
    | cons next rest =>
      obtain ⟨found, last, ends⟩ := ih (by simpa using fed)
      exact ⟨found, last, by rw [Position.byteLength_cons]; omega⟩

theorem lineBreaks_eq_nil (offset : Nat) {text : List Char}
    (plain : ∀ char ∈ text, char ≠ '\r' ∧ char ≠ '\n') : lineBreaks offset text = [] := by
  induction text generalizing offset with
  | nil => rfl
  | cons char rest ih =>
    obtain ⟨here, others⟩ := List.forall_mem_cons.1 plain
    rw [lineBreaks_cons offset fun carriage => absurd carriage here.1, if_neg (by simp [here])]
    exact ih _ others

/-- What is in front of the last line of a text is empty or ends in a line feed. -/
private theorem exists_lines (text : List Char) :
    ∃ front, text = front ++ text.rtakeWhile (· != '\n') ∧
      (front = [] ∨ front.getLast? = some '\n') := by
  refine ⟨text.rdropWhile (· != '\n'), List.rdropWhile_append_rtakeWhile.symm, ?_⟩
  by_cases empty : text.rdropWhile (· != '\n') = []
  · exact .inl empty
  · have last := List.rdropWhile_last_not _ _ empty
    refine .inr ?_
    rw [List.getLast?_eq_some_getLast empty]
    simpa using last

/-- Without single carriage returns, the last line begins behind the last line feed. -/
theorem lineStart_of_paired {text : List Char} (paired : Paired text) :
    Position.byteLength text - (lineStarts (lineBreaks 0 text)).getLastD 0 =
      Position.byteLength (text.rtakeWhile (· != '\n')) := by
  obtain ⟨front, split, ends⟩ := exists_lines text
  have fed : ∀ char ∈ text.rtakeWhile (· != '\n'), char ≠ '\n' := fun char found => by
    simpa using List.mem_rtakeWhile_imp found
  generalize text.rtakeWhile (· != '\n') = tail at split fed
  subst split
  have plain : ∀ char ∈ tail, char ≠ '\r' ∧ char ≠ '\n' := by
    refine fun char found => ⟨?_, fed char found⟩
    rintro rfl
    obtain ⟨early, late, rfl⟩ := List.append_of_mem found
    have feed := paired (front ++ early) late (by rw [List.append_assoc])
    exact fed '\n' (by simp [List.mem_of_head? feed]) rfl
  have apart : tail.head? ≠ some '\n' := fun feed => fed '\n' (List.mem_of_head? feed) rfl
  rw [lineBreaks_append 0 front apart, lineBreaks_eq_nil _ plain, List.append_nil,
    Position.byteLength_append]
  rcases ends with rfl | feed
  · exact Nat.zero_add _
  · obtain ⟨found, last, reached⟩ := getLast?_lineBreaks 0 feed
    have start : (lineStarts (lineBreaks 0 front)).getLastD 0 = Position.byteLength front := by
      rw [lineStarts, List.getLastD_eq_getLast?, List.getLast?_cons, List.getLast?_map, last]
      show found.last + 1 = _
      omega
    rw [start, Nat.add_sub_cancel_left]

theorem takeBytes_append (before behind : List Char) :
    takeBytes (Position.byteLength before) (before ++ behind) = before := by
  induction before with
  | nil => cases behind <;> rfl
  | cons char before ih =>
    have wide := char.utf8Size_pos
    rw [List.cons_append, takeBytes, Position.byteLength_cons, if_neg (by omega),
      Nat.add_sub_cancel_left, ih]

/-- A label inside a text is shown, with the place that the frame counts in the top line. -/
theorem exists_render {source : List Char} {label : FrameLabel}
    (inside : label.offset + label.length ≤ Position.byteLength source) (file : String) :
    let found := place source label.offset
    ∃ margin body, render source label (some file) =
      times margin ' ' ++ "╭─" ++ "[" ++ file ++ ":" ++ toString (found.1 + 1) ++ ":" ++
        toString (found.2 + 1) ++ "]" ++ "\n" ++ body := by
  have last : ¬ Position.byteLength source < lastByte label.offset label.length := by
    rw [lastByte]
    omega
  obtain ⟨window, shown⟩ : ∃ window, window? source label.offset label.length = some window :=
    ⟨_, if_neg last⟩
  let rows := lines source window
  let width := (toString ((rows.getLast?.map Line.number).getD 0)).length
  refine ⟨width + 2,
    String.join (rows.map (row width label)) ++ (times (width + 2) ' ' ++ "╰────\n"), ?_⟩
  rw [render, shown]
  simp only [header, String.append_assoc, rows, width]

/-- What is in front of a place counts alike in a frame and in positions: no carriage return
stands by itself, and each character of the last line takes one byte. -/
structure CountsAlike (before : List Char) : Prop where
  paired : Paired before
  narrow : ∀ char ∈ before.rtakeWhile (· != '\n'), char.utf8Size = 1

end Frame

theorem Position.byteLength_eq_length_iff (text : List Char) :
    byteLength text = text.length ↔ ∀ char ∈ text, char.utf8Size = 1 := by
  induction text with
  | nil => exact ⟨fun _ => List.forall_mem_nil _, fun _ => rfl⟩
  | cons char text ih =>
    have wide := char.utf8Size_pos
    have fewer := length_le_byteLength text
    rw [List.forall_mem_cons, ← ih, byteLength_cons, List.length_cons]
    omega

/-- A frame and a position that cuts a text name the same line and column just where they
count alike. -/
theorem Position.Cuts.place_eq_iff {position : Position} {text before behind : List Char}
    (cuts : position.Cuts text before behind) :
    ((Frame.place text position.offset).1 + 1 = position.line ∧
      (Frame.place text position.offset).2 + 1 = position.column) ↔ Frame.CountsAlike before := by
  have apart : behind.head? ≠ some '\n' := fun feed => cuts.visible _ feed (by simp [Blank])
  have counts := counts_advance_start before
  rw [← cuts.reached] at counts
  obtain ⟨more, pairs⟩ := Frame.length_lineBreaks 0 before
  have lines : (lineBreaks 0 before).length + 1 = position.line ↔ Frame.Paired before := by
    rw [← pairs, counts.line, lineFeed]
    omega
  rw [cuts.whole, cuts.offset_eq, Frame.place_append before apart, lines]
  constructor
  · rintro ⟨paired, column⟩
    have width := Frame.lineStart_of_paired paired
    refine ⟨paired, (byteLength_eq_length_iff _).1 ?_⟩
    have characters := counts.column
    simp only [lineFeed] at characters
    omega
  · rintro ⟨paired, narrow⟩
    refine ⟨paired, ?_⟩
    show _ - _ + 1 = _
    rw [Frame.lineStart_of_paired paired, (byteLength_eq_length_iff _).2 narrow, counts.column,
      Nat.add_comm]
    rfl

/-- A carriage return by itself begins a line of the frame, and is a column of a position. -/
example : Frame.place ['\r', '!'] 1 = (1, 0) ∧ Position.start.advance ['\r'] = ⟨1, 1, 2⟩ := by
  decide

namespace Diagnostic

/-- The top line of the frame of a diagnostic names the place that the frame counts. -/
theorem exists_render_heading {source : String} {error : ParseError}
    (failed : Document.parse source = .error error) (file : String) :
    let found := Frame.place source.toList error.position.offset
    ∃ margin body, (ofError error source).render source file =
      "  × " ++ error.message ++ "\n" ++ Frame.times margin ' ' ++ "╭─" ++ "[" ++ file ++ ":" ++
        toString (found.1 + 1) ++ ":" ++ toString (found.2 + 1) ++ "]" ++ "\n" ++ body := by
  obtain ⟨before, behind, cuts⟩ := Document.cuts_of_parse failed
  let label : FrameLabel :=
    ⟨error.position.offset, (ofError error source).length, (ofError error source).label⟩
  have inside : label.offset + label.length ≤ Position.byteLength source.toList :=
    stop_ofError_le cuts
  obtain ⟨margin, body, drawn⟩ := Frame.exists_render inside file
  refine ⟨margin, body ++ ((ofError error source).help.map hint).getD "", ?_⟩
  show "  × " ++ error.message ++ "\n" ++ Frame.render source.toList label (some file) ++ _ = _
  rw [drawn]
  simp only [String.append_assoc, label]

/-- **A diagnostic names the place of its error just where bytes and characters count alike.**
The line and the column in the top line of its frame are those of the error exactly if, in
front of the error, every carriage return is followed by a line feed and the characters of
the last line take one byte each. -/
theorem heading_eq_position_iff {source : String} {error : ParseError}
    (failed : Document.parse source = .error error) (file : String) :
    let found := Frame.place source.toList error.position.offset
    (∃ margin body, (ofError error source).render source file =
      "  × " ++ error.message ++ "\n" ++ Frame.times margin ' ' ++ "╭─" ++ "[" ++ file ++ ":" ++
        toString (found.1 + 1) ++ ":" ++ toString (found.2 + 1) ++ "]" ++ "\n" ++ body) ∧
      ((found.1 + 1 = error.position.line ∧ found.2 + 1 = error.position.column) ↔
        Frame.CountsAlike (Frame.takeBytes error.position.offset source.toList)) := by
  refine ⟨exists_render_heading failed file, ?_⟩
  obtain ⟨before, behind, cuts⟩ := Document.cuts_of_parse failed
  have front : Frame.takeBytes error.position.offset source.toList = before := by
    rw [cuts.whole, cuts.offset_eq, Frame.takeBytes_append]
  rw [front]
  exact cuts.place_eq_iff

theorem heading_eq_position_iff_paired :
    let source := "model A\r\n!"
    let error : ParseError := ⟨.unexpectedToken, "Unexpected character '!'", ⟨9, 2, 1⟩⟩
    let found := Frame.place source.toList error.position.offset
    Document.parse source = .error error ∧
      (∃ margin body, (ofError error source).render source "a" =
        "  × " ++ error.message ++ "\n" ++ Frame.times margin ' ' ++ "╭─" ++ "[" ++ "a" ++ ":" ++
          toString (found.1 + 1) ++ ":" ++ toString (found.2 + 1) ++ "]" ++ "\n" ++ body) ∧
        ((found.1 + 1 = error.position.line ∧ found.2 + 1 = error.position.column) ↔
          Frame.CountsAlike (Frame.takeBytes error.position.offset source.toList)) := by
  have failed : Document.parse "model A\r\n!" =
      .error ⟨.unexpectedToken, "Unexpected character '!'", ⟨9, 2, 1⟩⟩ := by decide +kernel
  exact ⟨failed, heading_eq_position_iff failed "a"⟩

/-- Behind a character of two bytes the frame names another column than the error. -/
theorem heading_ne_position_wide :
    let source := "generator g \x7b a = \"é\""
    let error := ParseError.mismatch "Expected config option or '\x7d'" ⟨22, 1, 22⟩
    Document.parse source = .error error ∧ error.position.display = "1:22" ∧
      ∃ margin body, (ofError error source).render source "a" =
        "  × " ++ error.message ++ "\n" ++ Frame.times margin ' ' ++ "╭─" ++ "[" ++ "a" ++ ":" ++
          "1" ++ ":" ++ "23" ++ "]" ++ "\n" ++ body := by
  have failed : Document.parse "generator g \x7b a = \"é\"" =
      .error (.mismatch "Expected config option or '\x7d'" ⟨22, 1, 22⟩) := by decide +kernel
  exact ⟨failed, by decide +kernel, exists_render_heading failed "a"⟩

end Diagnostic

end SchemaLang
