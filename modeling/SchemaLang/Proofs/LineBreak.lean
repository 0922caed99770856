import Mathlib.Data.List.TakeWhile
import SchemaLang.Proofs.Counterparts
import SchemaLang.Proofs.Offsets

/-! Scanning across a line break. No lexeme contains a line feed, and none is decided by
it otherwise than by the end of the text. So what stands in front of a line feed is
scanned as if the text ended there, and what stands behind it as if a text began
there, only at places further on. -/
namespace SchemaLang

/-! ## Places further on -/

namespace Position

/-- The place of a point when another text and a line feed are put in front of its text. -/
def shift (before : List Char) (position : Position) : Position where
  offset := position.offset + byteLength before + 1
  line := position.line + before.count lineFeed + 1
  column := position.column

theorem shift_step (before : List Char) (position : Position) (char : Char) :
    (position.shift before).step char = (position.step char).shift before := by
  unfold step shift
  split <;> simp only [mk.injEq, and_true] <;> omega

theorem shift_advance (before : List Char) (position : Position) (text : List Char) :
    (position.shift before).advance text = (position.advance text).shift before := by
  induction text generalizing position with
  | nil => rfl
  | cons char text ih =>
    show ((position.shift before).step char).advance text = _
    rw [shift_step, ih]
    rfl

theorem line_advance (position : Position) (text : List Char) :
    (position.advance text).line = position.line + text.count lineFeed := by
  induction text generalizing position with
  | nil => rfl
  | cons char text ih =>
    show ((position.step char).advance text).line = _
    rw [ih, List.count_cons, step]
    by_cases feed : char = lineFeed <;> simp [feed]
    omega

/-- Behind a line feed a text begins, at the first column of a new line. -/
theorem advance_lineFeed (before : List Char) :
    start.advance (before ++ [lineFeed]) = start.shift before := by
  have bytes := offset_advance start before
  have lines := line_advance start before
  rw [advance_append]
  show (start.advance before).step lineFeed = _
  simp only [step, if_true, bytes, lines, shift]
  rfl

end Position

/-- Both ends further on. -/
def Span.shift (before : List Char) (span : Span) : Span :=
  ⟨span.start.shift before, span.stop.shift before⟩

namespace Correspondence

/-- Every point of a text and its place behind another text and a line feed. -/
def ofShift (before : List Char) : Correspondence where
  starts place place' := place' = place.shift before
  stops place place' := place' = place.shift before
  left := Span.shift before
  right := id
  ordered := by
    rintro first _ further _ rfl rfl
    simp only [Position.shift]
    omega
  kept := by
    rintro first ⟨_, _⟩ rfl rfl
    rfl

end Correspondence

/-- The same token further on. -/
def Token.shift (before : List Char) (token : Token) : Token :=
  { token with start := token.start.shift before, stop := token.stop.shift before }

namespace Scanner

/-- The same text further on. -/
def shift (before : List Char) (scanner : Scanner) : Scanner :=
  ⟨scanner.position.shift before, scanner.rest⟩

theorem skipBlanks_shift (before : List Char) (scanner : Scanner) :
    (scanner.shift before).skipBlanks = scanner.skipBlanks.shift before := by
  simp only [skipBlanks, shift, Position.shift_advance]

/-- A step does the same wherever a text stands, only further on. -/
theorem next_shift (before : List Char) (scanner : Scanner) :
    (scanner.shift before).next =
      match scanner.next with
      | .error failure => .error { failure with position := failure.position.shift before }
      | .ok (first, after) => .ok (first.shift before, after.shift before) := by
  unfold next
  rw [skipBlanks_shift]
  cases rest : scanner.skipBlanks.rest with
  | nil => simp [shift, rest, Token.shift, Token.endAt]
  | cons found others =>
    cases read : lexeme? (found :: others) with
    | none => simp [shift, rest, read]
    | some result => simp [shift, rest, read, Token.shift, Position.shift_advance]

end Scanner

/-- The same text is scanned alike wherever it stands. -/
theorem Correspondence.ofShift_feeds (before : List Char) (scanner : Scanner) :
    (ofShift before).Feeds (.ofScanner scanner) (.ofScanner (scanner.shift before)) := by
  fun_induction Feed.ofScanner scanner with
  | case1 scanner failure read =>
    have shifted := scanner.next_shift before
    rw [read] at shifted
    rw [Feed.ofScanner_error shifted]
    exact .fault rfl rfl
  | case2 scanner first after read ended =>
    have shifted := scanner.next_shift before
    rw [read] at shifted
    rw [Feed.ofScanner_ok shifted, dif_pos (show (first.shift before).kind = _ from ended)]
    exact .finish rfl rfl
  | case3 scanner first after read proper ih =>
    have shifted := scanner.next_shift before
    rw [read] at shifted
    rw [Feed.ofScanner_ok shifted, dif_neg (show (first.shift before).kind ≠ _ from proper)]
    exact .token ⟨rfl, rfl, rfl, rfl⟩ ih

/-! ## Lexemes in front of a line feed -/

private theorem quotedTail?_lineFeed (text others : List Char) :
    quotedTail? (text ++ '\n' :: others) = quotedTail? text := by
  fun_induction quotedTail? text with
  | case1 => rfl
  | case2 => rfl
  | case3 => rfl
  | case4 => rfl
  | case5 => rfl
  | case6 char rest line ih =>
    rw [List.cons_append, List.cons_append, quotedTail?_escaped line, ih]
  | case7 char rest quote line alone _ paired ih =>
    rw [List.cons_append, quotedTail?_cons quote line (ne_backslash alone paired), ih]

private theorem dottedTail_lineFeed (text others : List Char) :
    dottedTail (text ++ '\n' :: others) = dottedTail text := by
  induction text with
  | nil => rfl
  | cons char text ih =>
    have ahead : (text ++ '\n' :: others).head?.any isNameStart = text.head?.any isNameStart := by
      cases text <;> rfl
    simp only [List.cons_append, dottedTail, ih, ahead]

private theorem takeWhile_lineFeed (text others : List Char) :
    (text ++ '\n' :: others).takeWhile isNamePart = text.takeWhile isNamePart := by
  induction text with
  | nil => rfl
  | cons char text ih => simp only [List.cons_append, List.takeWhile_cons, ih]

/-- A character that begins neither a marker nor a literal nor brackets decides alone. -/
private theorem lexeme?_plain {char : Char} {rest : List Char} (marker : char ≠ '@')
    (bracket : ∀ tail, char = '[' → rest = ']' :: tail → False) (quote : char ≠ '"')
    (others : List Char) :
    lexeme? (char :: (rest ++ '\n' :: others)) =
      if isNameStart char then some (.identifier, char :: rest.takeWhile isNamePart)
      else (punctuation? char).map fun kind => (kind, [char]) := by
  rw [lexeme?, takeWhile_lineFeed]
  · exact fun _ _ same _ => marker same
  · intro tail same listed
    cases rest with
    | nil => cases listed
    | cons next rest => cases listed; exact bracket rest same rfl
  · exact quote

/-- A line feed ends a lexeme as the end of the text does. -/
theorem lexeme?_lineFeed {text : List Char} (nonempty : text ≠ []) (others : List Char) :
    lexeme? (text ++ '\n' :: others) = lexeme? text := by
  fun_cases lexeme? text with
  | case1 => exact absurd rfl nonempty
  | case2 char rest start => simp only [List.cons_append, lexeme?, start, dottedTail_lineFeed, if_true]
  | case3 char rest other => simp only [List.cons_append, lexeme?, if_neg other]
  | case4 tail => rfl
  | case5 rest => simp only [List.cons_append, lexeme?, quotedTail?_lineFeed]
  | case6 char rest marker bracket quote start =>
    have named : char ≠ '@' := by rintro rfl; cases start
    rw [List.cons_append, lexeme?_plain named bracket quote, if_pos start]
  | case7 char rest marker bracket quote other =>
    by_cases named : char = '@'
    · subst named
      cases rest with
      | nil => rfl
      | cons next rest => exact (marker next rest rfl rfl).elim
    · rw [List.cons_append, lexeme?_plain named bracket quote, if_neg other]

private theorem quotedTail?_isPrefix {text tail : List Char} (found : quotedTail? text = some tail) :
    tail <+: text := by
  fun_induction quotedTail? text generalizing tail with
  | case1 | case3 | case4 | case5 => cases found
  | case2 rest => cases found; exact ⟨rest, rfl⟩
  | case6 char rest line ih =>
    obtain ⟨others, within, rfl⟩ := Option.map_eq_some_iff.1 found
    simpa using ih within
  | case7 char rest quote line alone _ paired ih =>
    obtain ⟨others, within, rfl⟩ := Option.map_eq_some_iff.1 found
    simpa using ih within

private theorem dottedTail_isPrefix (text : List Char) : dottedTail text <+: text := by
  induction text with
  | nil => exact List.nil_prefix
  | cons char text ih =>
    rw [dottedTail]
    split
    · simpa using ih
    · split
      · simpa using ih
      · exact List.nil_prefix

/-- A spelling is what a text begins with. -/
theorem lexeme?_isPrefix {text spelling : List Char} {kind : TokenKind}
    (found : lexeme? text = some (kind, spelling)) : spelling <+: text := by
  revert found
  fun_cases lexeme? text with
  | case1 | case3 => exact nofun
  | case2 char rest start =>
    rintro ⟨⟩
    simpa using dottedTail_isPrefix rest
  | case4 tail =>
    rintro ⟨⟩
    exact ⟨tail, rfl⟩
  | case5 rest =>
    intro found
    obtain ⟨tail, within, ⟨⟩⟩ := Option.map_eq_some_iff.1 found
    simpa using quotedTail?_isPrefix within
  | case6 char rest marker bracket quote start =>
    rintro ⟨⟩
    simpa using List.takeWhile_prefix isNamePart
  | case7 char rest marker bracket quote other =>
    intro found
    obtain ⟨kind, -, ⟨⟩⟩ := Option.map_eq_some_iff.1 found
    exact ⟨rest, rfl⟩

/-! ## Feeds of joined texts -/

namespace Scanner

/-- Blanks are skipped up to what is visible, whatever follows it. -/
theorem skipBlanks_append {scanner : Scanner} (visible : scanner.skipBlanks.rest ≠ [])
    (others : List Char) :
    skipBlanks ⟨scanner.position, scanner.rest ++ others⟩ =
      ⟨scanner.skipBlanks.position, scanner.skipBlanks.rest ++ others⟩ := by
  have stops : (scanner.rest.takeWhile isBlank).length ≠ scanner.rest.length := fun whole => by
    have split := congrArg List.length (scanner.rest.takeWhile_append_dropWhile (p := isBlank))
    rw [List.length_append, whole] at split
    exact visible (List.length_eq_zero_iff.1 (Nat.add_eq_left.1 split))
  have shown : ¬ (scanner.rest.dropWhile isBlank).isEmpty = true :=
    fun empty => visible (List.isEmpty_iff.1 empty)
  simp only [skipBlanks, List.takeWhile_append, if_neg stops, List.dropWhile_append, if_neg shown]

/-- Blanks only lead further on. -/
theorem skipBlanks_blanks (position : Position) {blanks : List Char}
    (blank : ∀ char ∈ blanks, isBlank char = true) (others : List Char) :
    skipBlanks ⟨position, blanks ++ others⟩ = skipBlanks ⟨position.advance blanks, others⟩ := by
  simp only [skipBlanks, List.takeWhile_append_of_pos blank, List.dropWhile_append_of_pos blank,
    Position.advance_append]

theorem next_blank {scanner : Scanner} (blank : scanner.skipBlanks.rest = []) :
    scanner.next = .ok (.endAt scanner.skipBlanks.position, scanner.skipBlanks) := by
  unfold next
  simp only [blank]

theorem blank_of_end {scanner after : Scanner} {first : Token}
    (read : scanner.next = .ok (first, after)) (ended : first.kind = .endOfInput) :
    scanner.skipBlanks.rest = [] := by
  rcases scanner.next_cases with ⟨blank, -⟩ | ⟨_, _, -, -, next⟩ | ⟨kind, text, found, next⟩
  · exact blank
  · cases read.symm.trans next
  · cases read.symm.trans next
    exact absurd ended (lexeme?_kind found)

/-- A step that is not the last one does not see what is behind a line feed. -/
theorem next_lineFeed {scanner : Scanner}
    (more : ∀ first after, scanner.next = .ok (first, after) → first.kind ≠ .endOfInput)
    (others : List Char) :
    next ⟨scanner.position, scanner.rest ++ '\n' :: others⟩ =
      match scanner.next with
      | .error failure => .error failure
      | .ok (first, after) => .ok (first, ⟨after.position, after.rest ++ '\n' :: others⟩) := by
  have visible : scanner.skipBlanks.rest ≠ [] := fun blank => more _ _ (next_blank blank) rfl
  unfold next
  rw [skipBlanks_append visible]
  have same := lexeme?_lineFeed visible others
  cases rest : scanner.skipBlanks.rest with
  | nil => exact absurd rest visible
  | cons found more =>
    rw [rest, List.cons_append] at same
    cases read : lexeme? (found :: more) with
    | none => simp only [rest, List.cons_append, same, read]
    | some result =>
      have dropped : (found :: (more ++ '\n' :: others)).drop result.2.length =
          (found :: more).drop result.2.length ++ '\n' :: others :=
        List.drop_append_of_le_length (lexeme?_isPrefix read).length_le
      simp only [rest, List.cons_append, same, read, dropped]

/-- Each step leaves the rest of a text where it stands. -/
theorem advance_next {scanner after : Scanner} {first : Token}
    (read : scanner.next = .ok (first, after)) :
    after.position.advance after.rest = scanner.position.advance scanner.rest := by
  have skipped : scanner.skipBlanks.position.advance scanner.skipBlanks.rest =
      scanner.position.advance scanner.rest := by
    rw [skipBlanks, ← Position.advance_append, List.takeWhile_append_dropWhile]
  rcases scanner.next_cases with ⟨-, next⟩ | ⟨_, _, -, -, next⟩ | ⟨kind, text, found, next⟩
  · cases read.symm.trans next
    exact skipped
  · cases read.symm.trans next
  · cases read.symm.trans next
    obtain ⟨rest, split⟩ := lexeme?_isPrefix found
    rw [← skipped, ← split, List.drop_left, Position.advance_append]

end Scanner

namespace Feed

/-- Another feed in place of the end of this one. Nothing comes behind a fault. -/
def append : Feed → Feed → Feed
  | token first proper rest, tail => token first proper (rest.append tail)
  | finish _, tail => tail
  | fault failure, _ => fault failure

/-- What stands in front of a line feed is scanned first, and then what stands behind
it. -/
theorem ofScanner_lineFeed (scanner : Scanner) (others : List Char) :
    ofScanner ⟨scanner.position, scanner.rest ++ '\n' :: others⟩ =
      (ofScanner scanner).append
        (ofScanner ⟨scanner.position.advance (scanner.rest ++ ['\n']), others⟩) := by
  fun_induction ofScanner scanner with
  | case1 scanner failure read =>
    have next := Scanner.next_lineFeed (fun _ _ last => by cases read.symm.trans last) others
    rw [read] at next
    exact ofScanner_error next
  | case2 scanner first after read ended =>
    have blank := List.dropWhile_eq_nil_iff.1 (Scanner.blank_of_end read ended)
    have blanks : ∀ char ∈ scanner.rest ++ ['\n'], isBlank char = true :=
      List.forall_mem_append.2 ⟨blank, List.forall_mem_singleton.2 rfl⟩
    refine ofScanner_congr ?_
    rw [List.append_cons, Scanner.next, Scanner.skipBlanks_blanks scanner.position blanks]
    rfl
  | case3 scanner first after read proper ih =>
    have next := Scanner.next_lineFeed
      (fun _ _ last => by cases read.symm.trans last; exact proper) others
    rw [read] at next
    rw [ofScanner_ok next, dif_neg proper, ih, append, Position.advance_append,
      Position.advance_append, Scanner.advance_next read]

theorem ofText_lineFeed (text others : List Char) :
    ofText (text ++ '\n' :: others) =
      (ofText text).append (ofScanner (Scanner.shift text (.ofText others))) := by
  rw [Scanner.shift, Scanner.ofText, ← Position.advance_lineFeed]
  exact ofScanner_lineFeed (.ofText text) others

end Feed

end SchemaLang
