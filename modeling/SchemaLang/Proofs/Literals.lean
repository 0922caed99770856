import SchemaLang.Document.Layout
import SchemaLang.Proofs.Lexing
import SchemaLang.Proofs.Rollback
import SchemaLang.Proofs.Values

/-! Literals and values. A value can be printed exactly if what is written for it is scanned
as one literal, and that literal is parsed as the value again. The other way round a literal
that is found in a text is what its own value is written as, so literals that differ have
values that differ. Escaping looks at quotes alone and scanning at every backslash, yet the
two agree on all runs of both. -/
namespace SchemaLang

namespace Literal

/-! ## Literals of texts -/

/-- A literal as it stands in some text. -/
structure Found (token : Token) : Prop where
  kind : token.kind = .string
  listed : ∃ text, token ∈ (TokenStream.ofText text).tokens

/-- A literal has a body between its quotes. -/
theorem Found.exists_body {token : Token} (found : Found token) :
    ∃ body, token.text.toList = '"' :: body ++ ['"'] ∧ isBody body = true := by
  obtain ⟨text, listed⟩ := found.listed
  have spelled := spelled_stream (.ofText text) token listed
  rw [Token.terminal_string.2 ⟨found.kind, rfl⟩, Terminal.Spelled] at spelled
  generalize token.text.toList = literal at spelled
  obtain ⟨fits⟩ := spelled
  exact ⟨_, rfl, fits⟩

theorem read_quoted (body : List Char) : read ('"' :: body ++ ['"']) = unescape body := by
  simp [read]

/-- A literal is what its value is written as. -/
theorem Found.write_read {token : Token} (found : Found token) :
    write (read token.text.toList) = token.text.toList := by
  obtain ⟨body, same, fits⟩ := found.exists_body
  rw [same, read_quoted, write, escape_unescape fits]

/-- What a printable value is written as is one literal, which takes up the whole text. -/
theorem ofText_write {value : List Char} (printable : isPrintable value = true) :
    TokenStream.ofText (write value) =
      ⟨[⟨.string, .ofList (write value), .start, .advance .start (write value)⟩,
        .endAt (.advance .start (write value))], none⟩ := by
  have whole : lexeme? (write value ++ []) = some (.string, write value) :=
    lexeme?_quoted (.mk printable)
  have skips : Skips (write value) [] (write value ++ []) := by
    refine ⟨(List.append_nil _).symm, List.forall_mem_nil _, ?_⟩
    rintro _ ⟨⟩
    simp [Blank]
  have ended : Lexed ([] ++ [] ++ write value) [] _ := .finish (skips_blanks (List.forall_mem_nil _))
  have lexed := Lexed.token skips (lexeme?_eq_some_iff.1 whole) ended
  simp only [List.nil_append, List.append_nil] at lexed
  exact lexed.eq_ofScanner

/-- A value is printable if it is written as a literal that some text has. -/
theorem isPrintable_of_found {value : List Char} {token : Token} (found : Found token)
    (same : token.text.toList = write value) : isPrintable value = true := by
  obtain ⟨body, spelled, fits⟩ := found.exists_body
  rw [same, write] at spelled
  have bodies : escape value = body := List.append_cancel_right (List.cons.inj spelled).2
  rw [isPrintable, bodies, fits]

end Literal

/-! ## Literals as values -/

/-- A literal that comes next is parsed as an expression, and only the literal is taken. -/
theorem Schema.parse_literal {text : List Char} {state : ParserState}
    (reachable : state.Reachable text) {token : Token} (next : state.cursor.peek.1 = .ok token)
    (kind : token.kind = .string) (budget : Nat) :
    ∃ after, Schema.expression.parse Schema.grammar (budget + 9) state =
        .ok (.string (.ofList (Literal.read token.text.toList)) token.span) after ∧
      after.cursor.pointer = state.cursor.pointer + 1 := by
  have shown := reachable.shows
  generalize Feed.next^[state.cursor.pointer] (.ofText text) = feed at shown
  obtain ⟨_, looked, -⟩ := Cursor.peek_shows shown
  rw [looked] at next
  cases feed with
  | fault failure => cases next
  | finish place => cases next; cases kind
  | token first proper rest =>
    cases next
    have tracked := (Schema.expression.parse_rewinds Schema.grammar (budget + 9)).follows
      state _ shown
    rw [show Schema.expression.reader Schema.grammar (budget + 9) state.depth
      (.token token proper rest) = _ from
        Schema.expression_string kind proper rest budget state.depth] at tracked
    cases ran : Schema.expression.parse Schema.grammar (budget + 9) state with
    | ok value after =>
      rw [ran] at tracked
      obtain ⟨_, ⟨⟩, reaches⟩ := tracked
      refine ⟨after, rfl, ?_⟩
      have moved := reaches.moved
      simp only [Feed.size] at moved
      omega
    | error halt after =>
      rw [ran] at tracked
      cases halt with
      | failed error => cases tracked.1
      | exhausted => cases tracked
      | misplaced fault => exact tracked.elim

namespace Literal

/-- What becomes of a value that is written as a literal. -/
structure Encodes (value : List Char) : Prop where
  /-- It is printable exactly if the literal is scanned as one, from the first character of
  the text to the last. -/
  scanned : isPrintable value = true ↔
    TokenStream.ofText ('"' :: escape value ++ ['"']) =
      ⟨[⟨.string, .ofList (write value), .start, .advance .start (write value)⟩,
        .endAt (.advance .start (write value))], none⟩
  /-- Then the literal is parsed as an expression of this value. -/
  parsed : isPrintable value = true → ∀ budget, ∃ after,
    Schema.expression.parse Schema.grammar (budget + 9) (.ofText (write value)) =
      .ok (.string (.ofList value) ⟨.start, .advance .start (write value)⟩) after
  unescaped : unescape (escape value) = value

/-- What becomes of a literal that is read as a value. -/
structure Decodes (token : Token) : Prop where
  /-- What stands between its quotes is what the value is written as. -/
  escaped : ∃ body, token.text.toList = '"' :: body ++ ['"'] ∧
    read token.text.toList = unescape body ∧ escape (unescape body) = body
  /-- Wherever the literal comes next, it alone is parsed as an expression of this value. -/
  parsed : ∀ text (state : ParserState), state.Reachable text → state.cursor.peek.1 = .ok token →
    ∀ budget, ∃ after, Schema.expression.parse Schema.grammar (budget + 9) state =
        .ok (.string (.ofList (read token.text.toList)) token.span) after ∧
      after.cursor.pointer = state.cursor.pointer + 1
  /-- The value is printed as the literal it was read from. -/
  printed : Layout.literal (.ofList (read token.text.toList)) = .ok token.text.toList
  /-- Another literal has another value. -/
  distinct : ∀ other, Found other → read other.text.toList = read token.text.toList →
    other.text = token.text

theorem encodes (value : List Char) : Encodes value where
  scanned := by
    refine ⟨ofText_write, fun scanned => ?_⟩
    have listed : Found ⟨.string, .ofList (write value), .start, .advance .start (write value)⟩ :=
      ⟨rfl, _, by rw [scanned]; exact List.mem_cons_self⟩
    exact isPrintable_of_found listed String.toList_ofList
  parsed printable budget := by
    have next : (Cursor.ofText (write value)).peek.1 =
        .ok ⟨.string, .ofList (write value), .start, .advance .start (write value)⟩ := by
      have first := Cursor.lasting?_answer (write value) 0
      rw [ofText_write printable, Cursor.answer, Cursor.advance_eq] at first
      exact (Option.some.inj first).symm
    have reachable : (ParserState.ofText (write value)).Reachable (write value) := ⟨[], rfl⟩
    obtain ⟨after, ran, -⟩ := Schema.parse_literal reachable next rfl budget
    rw [String.toList_ofList, read_write] at ran
    exact ⟨after, ran⟩
  unescaped := unescape_escape value

theorem Found.decodes {token : Token} (found : Found token) : Decodes token where
  escaped := by
    obtain ⟨body, same, fits⟩ := found.exists_body
    exact ⟨body, same, by rw [same, read_quoted], escape_unescape fits⟩
  parsed _ _ reachable next := Schema.parse_literal reachable next found.kind
  printed := by
    have printable := isPrintable_of_found found found.write_read.symm
    rw [Layout.literal, String.toList_ofList, if_pos printable, found.write_read]
  distinct other listed same := by
    rw [← String.toList_inj, ← listed.write_read, same, found.write_read]

/-- **Literals encode values.** Every printable value is scanned and parsed from what is written
for it, no other value is, and every literal of a text is what its own value is written as. -/
theorem encodes_decodes :
    (∀ value, Encodes value) ∧ ∀ token, Found token → Decodes token :=
  ⟨encodes, fun _ found => found.decodes⟩

theorem encodes_decodes_backslash :
    isPrintable ['"', '\\', 'a'] = true ∧
      (∀ budget, ∃ after,
        Schema.expression.parse Schema.grammar (budget + 9) (.ofText "\"\\\"\\a\"".toList) =
          .ok (.string "\"\\a" ⟨⟨0, 1, 1⟩, ⟨6, 1, 7⟩⟩) after) ∧
      Found ⟨.string, "\"\\\"\\a\"", ⟨0, 1, 1⟩, ⟨6, 1, 7⟩⟩ ∧
      Layout.literal "\"\\a" = .ok "\"\\\"\\a\"".toList := by
  have printable : isPrintable ['"', '\\', 'a'] = true := by decide
  have scanned := (encodes_decodes.1 ['"', '\\', 'a']).scanned.1 printable
  have found : Found ⟨.string, "\"\\\"\\a\"", ⟨0, 1, 1⟩, ⟨6, 1, 7⟩⟩ :=
    ⟨rfl, _, by rw [scanned]; exact List.mem_cons_self⟩
  exact ⟨printable, (encodes_decodes.1 ['"', '\\', 'a']).parsed printable, found,
    (encodes_decodes.2 _ found).printed⟩

end Literal

end SchemaLang
