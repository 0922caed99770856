import SchemaLang.Proofs.Feed
import SchemaLang.Proofs.Language

/-! Spellings and lexemes. Every terminal that is scanned can be written, and a terminal
that can be written is scanned again from its spelling, wherever it is kept apart from
what follows it. Literals are also compared with the values they stand for. -/
namespace SchemaLang

/-! ## Literals -/

namespace Literal

private theorem escape_cons {char : Char} (plain : char ≠ '"') (rest : List Char) :
    escape (char :: rest) = char :: escape rest := by
  rw [escape]
  exact fun same => plain same

private theorem unescape_cons {char : Char} {rest : List Char}
    (apart : char = '\\' → rest.head? ≠ some '"') :
    unescape (char :: rest) = char :: unescape rest := by
  rw [unescape]
  rintro others rfl rfl
  exact apart rfl rfl

private theorem head?_escape (value : List Char) : (escape value).head? ≠ some '"' := by
  fun_cases escape value with
  | case1 => simp
  | case2 rest => simp
  | case3 char rest plain => simpa using plain

private theorem head?_isBody {body : List Char} (fits : isBody body = true) :
    body.head? ≠ some '"' := by
  cases body with
  | nil => simp
  | cons char rest =>
    rintro ⟨⟩
    cases fits

theorem unescape_escape (value : List Char) : unescape (escape value) = value := by
  fun_induction escape value with
  | case1 => rfl
  | case2 rest ih => rw [unescape, ih]
  | case3 char rest plain ih => rw [unescape_cons fun _ => head?_escape rest, ih]

/-- What stands between quotes is what its value is written as. -/
theorem escape_unescape {body : List Char} (fits : isBody body = true) :
    escape (unescape body) = body := by
  fun_induction isBody body with
  | case1 => rfl
  | case2 | case3 | case4 | case5 => cases fits
  | case6 char rest _ ih =>
    by_cases quote : char = '"'
    · rw [quote, unescape, escape, ih fits]
    · rw [unescape_cons (fun _ => by simpa using quote), unescape_cons fun _ => head?_isBody fits,
        escape_cons (by decide), escape_cons quote, ih fits]
  | case7 char rest quote _ _ _ _ ih =>
    rw [unescape_cons fun _ => head?_isBody fits, escape_cons quote, ih fits]

/-- A literal is read as the value it was written for. -/
theorem read_write (value : List Char) : read (write value) = value := by
  simp [read, write, unescape_escape]

/-- The value of a literal can be written. -/
theorem isPrintable_read {body : List Char} (fits : isBody body = true) :
    isPrintable (read ('"' :: body ++ ['"'])) = true := by
  simp [read, isPrintable, escape_unescape fits, fits]

end Literal

/-! ## Lexemes -/

/-- No name or marker in front of this text could go on into it. -/
def Apart (rest : List Char) : Prop :=
  ∀ char, rest.head? = some char → isNamePart char = false ∧ char ≠ '.'

theorem isNamePart_of_start {char : Char} (start : isNameStart char = true) :
    isNamePart char = true := by
  simp [isNamePart, start]

theorem lexeme?_cons {char : Char} (marker : char ≠ '@') (bracket : char ≠ '[')
    (quote : char ≠ '"') (rest : List Char) :
    lexeme? (char :: rest) =
      if isNameStart char then some (.identifier, char :: rest.takeWhile isNamePart)
      else (punctuation? char).map fun kind => (kind, [char]) := by
  rw [lexeme?]
  · exact fun _ _ same _ => marker same
  · exact fun _ same _ => bracket same
  · exact fun same => quote same

private theorem start_ne {char other : Char} (start : isNameStart char = true)
    (different : isNameStart other = false) : char ≠ other := by
  rintro rfl
  rw [start] at different
  cases different

/-- A name at the front of a text is taken together with what goes on behind it. -/
theorem lexeme?_isName {name : List Char} (named : isName name = true) (rest : List Char) :
    lexeme? (name ++ rest) = some (.identifier, name ++ rest.takeWhile isNamePart) := by
  cases name with
  | nil => cases named
  | cons first others =>
    obtain ⟨start, parts⟩ := Bool.and_eq_true_iff.1 named
    rw [List.cons_append, lexeme?_cons (start_ne start (by decide)) (start_ne start (by decide))
      (start_ne start (by decide)), if_pos start,
      List.takeWhile_append_of_pos (List.all_eq_true.1 parts), List.cons_append]

theorem lexeme?_name {name rest : List Char} (named : isName name = true) (apart : Apart rest) :
    lexeme? (name ++ rest) = some (.identifier, name) := by
  have ended : rest.takeWhile isNamePart = [] := by
    cases rest with
    | nil => rfl
    | cons char rest => simp [(apart char rfl).1]
  rw [lexeme?_isName named, ended, List.append_nil]

private theorem dottedTail_parts {parts : List Char} (named : parts.all isNamePart = true)
    (rest : List Char) : dottedTail (parts ++ rest) = parts ++ dottedTail rest := by
  induction parts with
  | nil => rfl
  | cons char parts ih =>
    obtain ⟨part, others⟩ := Bool.and_eq_true_iff.1 named
    rw [List.cons_append, dottedTail, if_pos part, ih others, List.cons_append]

theorem isName_parts {name : List Char} (named : isName name = true) :
    name.all isNamePart = true := by
  cases name with
  | nil => cases named
  | cons first others =>
    obtain ⟨start, parts⟩ := Bool.and_eq_true_iff.1 named
    exact Bool.and_eq_true_iff.2 ⟨isNamePart_of_start start, parts⟩

theorem isName_start {name : List Char} (named : isName name = true) :
    ∃ first others, name = first :: others ∧ isNameStart first = true := by
  cases name with
  | nil => cases named
  | cons first others => exact ⟨first, others, rfl, (Bool.and_eq_true_iff.1 named).1⟩

private theorem dotted_start {name : List Char} (dotted : DottedName name) :
    ∃ first others, name = first :: others ∧ isNameStart first = true := by
  cases dotted with
  | one named => exact isName_start named
  | more named _ =>
    obtain ⟨first, others, rfl, start⟩ := isName_start named
    exact ⟨first, _, rfl, start⟩

private theorem dottedTail_apart {rest : List Char} (apart : Apart rest) : dottedTail rest = [] := by
  cases rest with
  | nil => rfl
  | cons char rest =>
    obtain ⟨part, dot⟩ := apart char rfl
    simp [dottedTail, part, dot]

/-- A dotted name is taken as a whole, and then what goes on behind it. -/
private theorem dottedTail_dotted {name : List Char} (dotted : DottedName name)
    (rest : List Char) : dottedTail (name ++ rest) = name ++ dottedTail rest := by
  induction dotted with
  | one named => exact dottedTail_parts (isName_parts named) rest
  | @more name others named dotted ih =>
    obtain ⟨first, parts, rfl, start⟩ := dotted_start dotted
    rw [List.append_assoc, dottedTail_parts (isName_parts named), List.cons_append, dottedTail, ih]
    simp [start, show isNamePart '.' = false by decide]

/-- A marker at the front of a text is taken together with what goes on behind it. -/
theorem lexeme?_markerName {name : List Char} (marked : MarkerName name) (rest : List Char) :
    lexeme? (name ++ rest) = some (.attributeName, name ++ dottedTail rest) := by
  obtain ⟨dotted⟩ := marked
  have taken := dottedTail_dotted dotted rest
  obtain ⟨first, others, rfl, start⟩ := dotted_start dotted
  rw [List.cons_append, dottedTail, if_pos (isNamePart_of_start start)] at taken
  simp only [List.cons_append, lexeme?, start, if_true]
  rw [taken, List.cons_append]

theorem lexeme?_marker {name rest : List Char} (marked : MarkerName name) (apart : Apart rest) :
    lexeme? (name ++ rest) = some (.attributeName, name) := by
  rw [lexeme?_markerName marked, dottedTail_apart apart, List.append_nil]

private theorem quotedTail?_body {body : List Char} (fits : Literal.isBody body = true)
    (rest : List Char) : quotedTail? (body ++ '"' :: rest) = some (body ++ ['"']) := by
  fun_induction Literal.isBody body with
  | case1 => rfl
  | case2 | case3 | case4 | case5 => cases fits
  | case6 char others line ih =>
    rw [List.cons_append, List.cons_append, quotedTail?_escaped line, ih fits]
    rfl
  | case7 char others quote line alone _ paired ih =>
    rw [List.cons_append, quotedTail?_cons quote line (ne_backslash alone paired), ih fits]
    rfl

theorem lexeme?_quoted {text rest : List Char} (quoted : QuotedText text) :
    lexeme? (text ++ rest) = some (.string, text) := by
  obtain ⟨fits⟩ := quoted
  simp only [List.cons_append, List.append_assoc, List.nil_append, lexeme?]
  rw [quotedTail?_body fits]
  rfl

private theorem punctuation_plain {char : Char} {kind : TokenKind}
    (known : punctuation? char = some kind) : kind ∉ [.identifier, .attributeName, .string] := by
  unfold punctuation? at known
  split at known <;> cases known <;> simp

theorem lexeme?_punctuation {char : Char} {kind : TokenKind} (known : punctuation? char = some kind)
    (rest : List Char) : lexeme? (char :: rest) = some (kind, [char]) := by
  unfold punctuation? at known
  split at known <;> cases known <;> rfl

/-! ## Scanned terminals -/

private theorem isName_snoc {name : List Char} {char : Char} (named : isName name = true)
    (part : isNamePart char = true) : isName (name ++ [char]) = true := by
  obtain ⟨first, others, rfl, start⟩ := isName_start named
  have parts := (Bool.and_eq_true_iff.1 named).2
  simp only [List.cons_append, isName, List.all_append, parts, start]
  simp [part]

private theorem dotted_dottedTail (rest : List Char) :
    (∀ name, isName name = true → DottedName (name ++ dottedTail rest)) ∧
      (rest.head?.any isNameStart = true → DottedName (dottedTail rest)) := by
  induction rest with
  | nil =>
    refine ⟨fun name named => ?_, by simp⟩
    simpa [dottedTail] using .one named
  | cons char rest ih =>
    refine ⟨fun name named => ?_, fun start => ?_⟩
    · rw [dottedTail]
      split
      · rename_i part
        rw [List.append_cons]
        exact ih.1 _ (isName_snoc named part)
      · split
        · rename_i dot
          obtain ⟨dot, start⟩ := Bool.and_eq_true_iff.1 dot
          rw [beq_iff_eq.1 dot]
          exact .more named (ih.2 start)
        · rw [List.append_nil]
          exact .one named
    · rw [dottedTail, if_pos (isNamePart_of_start start)]
      exact ih.1 [char] (by simpa [isName] using start)

theorem isBody_cons {char : Char} (quote : char ≠ '"') (line : char ≠ '\n')
    (escape : char ≠ '\\') (rest : List Char) :
    Literal.isBody (char :: rest) = Literal.isBody rest := by
  rw [Literal.isBody]
  · exact quote
  · exact line
  · exact fun same => absurd same escape
  · exact fun _ same => absurd same escape
  · exact fun _ _ same => absurd same escape

theorem isBody_escaped {char : Char} (line : char ≠ '\n') (rest : List Char) :
    Literal.isBody ('\\' :: char :: rest) = Literal.isBody rest := by
  rw [Literal.isBody]
  exact line

private theorem isBody_quotedTail {rest tail : List Char} (found : quotedTail? rest = some tail) :
    ∃ body, tail = body ++ ['"'] ∧ Literal.isBody body = true := by
  fun_induction quotedTail? rest generalizing tail with
  | case1 | case3 | case4 | case5 => cases found
  | case2 =>
    cases found
    exact ⟨[], rfl, rfl⟩
  | case6 char rest line ih =>
    obtain ⟨inner, read, rfl⟩ := Option.map_eq_some_iff.1 found
    obtain ⟨body, rfl, fits⟩ := ih read
    exact ⟨'\\' :: char :: body, rfl, by rw [isBody_escaped line, fits]⟩
  | case7 char rest quote line alone _ paired ih =>
    obtain ⟨inner, read, rfl⟩ := Option.map_eq_some_iff.1 found
    obtain ⟨body, rfl, fits⟩ := ih read
    have escape : char ≠ '\\' := ne_backslash alone paired
    exact ⟨char :: body, rfl, by rw [isBody_cons quote line escape, fits]⟩

/-- Every lexeme can be written. -/
theorem spelled_lexeme {text spelling : List Char} {kind : TokenKind} (start stop : Position)
    (found : lexeme? text = some (kind, spelling)) :
    (Token.terminal ⟨kind, String.ofList spelling, start, stop⟩).Spelled := by
  unfold lexeme? at found
  split at found
  · cases found
  · split at found <;> cases found
    rename_i char rest first
    show MarkerName (String.ofList _).toList
    rw [String.toList_ofList]
    exact .mk ((dotted_dottedTail rest).1 [char] (by simpa [isName] using first))
  · cases found
    trivial
  · obtain ⟨tail, read, same⟩ := Option.map_eq_some_iff.1 found
    cases same
    obtain ⟨body, rfl, fits⟩ := isBody_quotedTail read
    show QuotedText (String.ofList _).toList
    rw [String.toList_ofList]
    exact .mk fits
  · split at found
    · cases found
      rename_i char rest _ _ _ first
      show isName (String.ofList _).toList = true
      rw [String.toList_ofList]
      exact Bool.and_eq_true_iff.2 ⟨first, List.all_takeWhile⟩
    · obtain ⟨kind, known, same⟩ := Option.map_eq_some_iff.1 found
      cases same
      unfold punctuation? at known
      split at known <;> cases known <;> trivial

private theorem spelled_next {scanner after : Scanner} {token : Token}
    (read : scanner.next = .ok (token, after)) : token.terminal.Spelled := by
  unfold Scanner.next at read
  simp only at read
  split at read
  · cases read
    trivial
  · split at read
    · cases read
    · rename_i found
      cases read
      exact spelled_lexeme _ _ found

/-- Every terminal of a text can be written. -/
theorem spelled_stream (scanner : Scanner) :
    ∀ token ∈ (TokenStream.ofScanner scanner).tokens, token.terminal.Spelled := by
  fun_induction TokenStream.ofScanner scanner with
  | case1 scanner failure read => exact List.forall_mem_nil _
  | case2 scanner token after read ended => exact List.forall_mem_singleton.2 (spelled_next read)
  | case3 scanner token after read more others ih =>
    exact List.forall_mem_cons.2 ⟨spelled_next read, ih⟩

/-! ## Written texts -/

/-- A text is scanned to its end as some terminals, wherever it stands. -/
def Yields (text : List Char) (terminals : List Terminal) : Prop :=
  ∀ position, (TokenStream.ofScanner ⟨position, text⟩).failure = none ∧
    (TokenStream.ofScanner ⟨position, text⟩).tokens.map Token.terminal = terminals

theorem yields_nil : Yields [] [.endOfInput] := by
  intro position
  have read : Scanner.next ⟨position, []⟩ = .ok (.endAt position, ⟨position, []⟩) := rfl
  rw [← Feed.stream_ofScanner, Feed.ofScanner_ok read]
  exact ⟨rfl, rfl⟩

theorem Yields.blank {text : List Char} {terminals : List Terminal}
    (yields : Yields text terminals) (char : Char) (blank : isBlank char = true) :
    Yields (char :: text) terminals := by
  intro position
  have skipped : Scanner.skipBlanks ⟨position, char :: text⟩ =
      Scanner.skipBlanks ⟨position.step char, text⟩ := by
    simp [Scanner.skipBlanks, blank, Position.advance]
  have read : Scanner.next ⟨position, char :: text⟩ = Scanner.next ⟨position.step char, text⟩ := by
    unfold Scanner.next
    rw [skipped]
  rw [← Feed.stream_ofScanner, Feed.ofScanner_congr read, Feed.stream_ofScanner]
  exact yields (position.step char)

/-- No lexeme begins with a blank. -/
theorem lexeme?_blank {char : Char} (blank : isBlank char = true) (rest : List Char) :
    lexeme? (char :: rest) = none := by
  simp only [isBlank, Bool.or_eq_true, beq_iff_eq] at blank
  rcases blank with (((rfl | rfl) | rfl) | rfl) | rfl <;> rfl

theorem Yields.lexeme {kind : TokenKind} {spelling rest : List Char} {terminals : List Terminal}
    {terminal : Terminal} (yields : Yields rest terminals)
    (found : lexeme? (spelling ++ rest) = some (kind, spelling))
    (same : ∀ start stop, Token.terminal ⟨kind, .ofList spelling, start, stop⟩ = terminal) :
    Yields (spelling ++ rest) (terminal :: terminals) := by
  intro position
  obtain ⟨first, others, spelled⟩ := List.exists_cons_of_ne_nil (lexeme?_ne_nil found)
  have visible : isBlank first = false := by
    cases blank : isBlank first with
    | false => rfl
    | true =>
      rw [spelled, List.cons_append, lexeme?_blank blank] at found
      cases found
  have skipped : Scanner.skipBlanks ⟨position, spelling ++ rest⟩ = ⟨position, spelling ++ rest⟩ := by
    simp [Scanner.skipBlanks, spelled, visible, Position.advance]
  have read : Scanner.next ⟨position, spelling ++ rest⟩ =
      .ok (⟨kind, .ofList spelling, position, position.advance spelling⟩,
        ⟨position.advance spelling, rest⟩) := by
    unfold Scanner.next
    simp only [skipped, found]
    rw [spelled]
    simp
  obtain ⟨scanned, listed⟩ := yields (position.advance spelling)
  rw [← Feed.stream_ofScanner] at scanned listed ⊢
  rw [Feed.ofScanner_ok read, dif_neg (lexeme?_kind found)]
  refine ⟨scanned, ?_⟩
  rw [Feed.stream, List.map_cons, same, listed]

theorem apart_cons {char : Char} (part : isNamePart char = false) (dot : char ≠ '.')
    (rest : List Char) : Apart (char :: rest) := by
  rintro _ ⟨⟩
  exact ⟨part, dot⟩

theorem apart_blank {char : Char} (blank : isBlank char = true) (rest : List Char) :
    Apart (char :: rest) := by
  simp only [isBlank, Bool.or_eq_true, beq_iff_eq] at blank
  rcases blank with (((rfl | rfl) | rfl) | rfl) | rfl <;> exact apart_cons (by decide) (by decide) _

theorem apart_punctuation {char : Char} {kind : TokenKind} (known : punctuation? char = some kind)
    (rest : List Char) : Apart (char :: rest) := by
  unfold punctuation? at known
  split at known <;> cases known <;> exact apart_cons (by decide) (by decide) _

theorem apart_brackets (rest : List Char) : Apart ('[' :: rest) :=
  apart_cons (by decide) (by decide) rest

section

variable {rest : List Char} {terminals : List Terminal}

theorem Yields.name (yields : Yields rest terminals) (apart : Apart rest) {name : String}
    (named : isName name.toList = true) :
    Yields (name.toList ++ rest) (.identifier name :: terminals) :=
  yields.lexeme (lexeme?_name named apart) fun _ _ => by rw [String.ofList_toList]; rfl

theorem Yields.marker (yields : Yields rest terminals) (apart : Apart rest) {name : String}
    (marked : MarkerName name.toList) :
    Yields (name.toList ++ rest) (.marker name :: terminals) :=
  yields.lexeme (lexeme?_marker marked apart) fun _ _ => by rw [String.ofList_toList]; rfl

theorem Yields.literal (yields : Yields rest terminals) {value : List Char}
    (printable : Literal.isPrintable value = true) :
    Yields (Literal.write value ++ rest) (.string (.ofList (Literal.write value)) :: terminals) :=
  yields.lexeme (lexeme?_quoted (.mk printable)) fun _ _ => rfl

theorem Yields.punctuation (yields : Yields rest terminals) (char : Char) (terminal : Terminal)
    (known : punctuation? char = some terminal.kind) :
    Yields (char :: rest) (terminal :: terminals) := by
  have found : lexeme? ([char] ++ rest) = some (terminal.kind, [char]) :=
    lexeme?_punctuation known rest
  exact yields.lexeme found fun _ _ =>
    Terminal.eq_of_kind (Token.kind_terminal _) (punctuation_plain known)

theorem Yields.brackets (yields : Yields rest terminals) :
    Yields ('[' :: ']' :: rest) (.brackets :: terminals) := by
  have found : lexeme? (['[', ']'] ++ rest) = some (.brackets, ['[', ']']) := rfl
  exact yields.lexeme found fun _ _ => rfl

theorem Yields.spaces (yields : Yields rest terminals) (count : Nat) :
    Yields (List.replicate count ' ' ++ rest) terminals := by
  induction count with
  | zero => exact yields
  | succ count ih => exact ih.blank ' ' rfl

end

end SchemaLang
