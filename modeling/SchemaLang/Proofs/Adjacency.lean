import Mathlib.Data.List.Chain
import SchemaLang.Proofs.Lexing

/-! Lexemes side by side. A text that is put together from lexemes and blanks is lexed as
those lexemes again. Two of them need blanks between them only where a name stands behind
a name or a marker, which would otherwise be taken as one longer lexeme; everywhere else the
longest match ends at the border by itself. -/
namespace SchemaLang

/-- A lexeme of a kind with what stands in front of it. -/
structure Piece where
  blanks : List Char
  kind : TokenKind
  spelling : List Char

namespace Piece

/-- What a piece adds to a text. -/
def text (piece : Piece) : List Char := piece.blanks ++ piece.spelling

/-- A whole lexeme of its kind behind blanks, or behind nothing. -/
structure Written (piece : Piece) : Prop where
  blank : ∀ char ∈ piece.blanks, Blank char
  complete : piece.spelling ∈ piece.kind.pattern

/-- Whether a piece may stand in front of another one: a name behind a name or a marker is
kept apart from it. -/
def Before (piece next : Piece) : Prop :=
  piece.kind = .identifier ∨ piece.kind = .attributeName → next.kind = .identifier →
    next.blanks ≠ []

end Piece

/-! ## Borders -/

/-- A lexeme is read as it is if nothing behind it could go on with a name or a marker. -/
theorem lexeme?_complete {kind : TokenKind} {spelling rest : List Char}
    (complete : spelling ∈ kind.pattern)
    (apart : kind = .identifier ∨ kind = .attributeName → Apart rest) :
    lexeme? (spelling ++ rest) = some (kind, spelling) := by
  cases kind with
  | identifier => exact lexeme?_name (Lexical.mem_name_iff.1 complete) (apart (.inl rfl))
  | attributeName => exact lexeme?_marker (Lexical.mem_marker_iff.1 complete) (apart (.inr rfl))
  | string => exact lexeme?_quoted (Lexical.mem_literal_iff.1 complete)
  | endOfInput => exact absurd complete (Language.notMem_zero spelling)
  | _ => cases complete; rfl

/-- No lexeme but a name goes on with the name or the marker in front of it. -/
theorem apart_complete {kind : TokenKind} {spelling : List Char}
    (complete : spelling ∈ kind.pattern) (other : kind ≠ .identifier) (rest : List Char) :
    Apart (spelling ++ rest) := by
  cases kind with
  | identifier => exact absurd rfl other
  | attributeName =>
    obtain ⟨_⟩ := Lexical.mem_marker_iff.1 complete
    exact apart_cons (by decide) (by decide) _
  | string =>
    obtain ⟨_⟩ := Lexical.mem_literal_iff.1 complete
    exact apart_cons (by decide) (by decide) _
  | endOfInput => exact absurd complete (Language.notMem_zero spelling)
  | _ => cases complete; exact apart_cons (by decide) (by decide) _

theorem apart_blanks {blanks rest : List Char} (blank : ∀ char ∈ blanks, Blank char)
    (apart : blanks = [] → Apart rest) : Apart (blanks ++ rest) := by
  cases blanks with
  | nil => exact apart rfl
  | cons char blanks => exact apart_blank (isBlank_iff.2 (blank char List.mem_cons_self)) _

/-- No match begins with a blank. -/
theorem LongestMatch.visible {text spelling : List Char} {kind : TokenKind}
    (longest : LongestMatch text kind spelling) {char : Char} (front : text.head? = some char) :
    ¬ Blank char := by
  intro blank
  obtain ⟨rest, rfl⟩ := List.head?_eq_some_iff.1 front
  have read := lexeme?_eq_some_iff.2 longest
  rw [lexeme?_blank (isBlank_iff.2 blank)] at read
  cases read

/-! ## Pieces in a row -/

/-- Behind a name or a marker, neither the next piece nor the end of the text goes on with
it. -/
theorem apart_pieces {piece : Piece} {pieces : List Piece} {last : List Char}
    (written : ∀ next ∈ pieces, next.Written) (blank : ∀ char ∈ last, Blank char)
    (apart : ∀ next ∈ pieces.head?, piece.Before next)
    (named : piece.kind = .identifier ∨ piece.kind = .attributeName) :
    Apart (pieces.flatMap Piece.text ++ last) := by
  cases pieces with
  | nil =>
    rw [List.flatMap_nil, List.nil_append, ← List.append_nil last]
    exact apart_blanks blank fun _ _ => nofun
  | cons next pieces =>
    obtain ⟨here, -⟩ := List.forall_mem_cons.1 written
    rw [List.flatMap_cons, Piece.text, List.append_assoc, List.append_assoc]
    refine apart_blanks here.blank fun together => apart_complete here.complete ?_ _
    exact fun name => apart next rfl named name together

/-- From any place on, pieces in a row are lexed as those pieces. -/
theorem exists_lexed_pieces {pieces : List Piece} {last : List Char}
    (written : ∀ piece ∈ pieces, piece.Written) (blank : ∀ char ∈ last, Blank char)
    (apart : pieces.IsChain Piece.Before) (front : List Char) :
    ∃ stream, Lexed front (pieces.flatMap Piece.text ++ last) stream ∧ stream.failure = none ∧
      stream.tokens.map (fun token => (token.kind, token.text)) =
        pieces.map (fun piece => (piece.kind, .ofList piece.spelling)) ++ [(.endOfInput, "")] := by
  induction pieces generalizing front with
  | nil => exact ⟨_, .finish (skips_blanks blank), rfl, rfl⟩
  | cons piece pieces ih =>
    obtain ⟨here, others⟩ := List.forall_mem_cons.1 written
    obtain ⟨next, further⟩ := List.isChain_cons.1 apart
    have longest := lexeme?_eq_some_iff.1
      (lexeme?_complete here.complete (apart_pieces others blank next))
    obtain ⟨stream, lexed, scanned, same⟩ :=
      ih others further (front ++ piece.blanks ++ piece.spelling)
    have skips : Skips ((piece :: pieces).flatMap Piece.text ++ last) piece.blanks
        (piece.spelling ++ (pieces.flatMap Piece.text ++ last)) :=
      ⟨by simp only [List.flatMap_cons, Piece.text, List.append_assoc], here.blank,
        fun _ => longest.visible⟩
    exact ⟨_, .token skips longest lexed, scanned, congrArg _ same⟩

/-- **Lexing undoes spelling.** Lexemes in a row, with any blanks in front of each and behind
the last, are lexed as those lexemes and then the end of input, if there are blanks wherever
a name follows a name or a marker. -/
theorem TokenStream.ofText_pieces (pieces : List Piece) (last : List Char)
    (written : ∀ piece ∈ pieces, piece.Written) (blank : ∀ char ∈ last, Blank char)
    (apart : pieces.IsChain Piece.Before) :
    (TokenStream.ofText (pieces.flatMap Piece.text ++ last)).failure = none ∧
      (TokenStream.ofText (pieces.flatMap Piece.text ++ last)).tokens.map
          (fun token => (token.kind, token.text)) =
        pieces.map (fun piece => (piece.kind, .ofList piece.spelling)) ++ [(.endOfInput, "")] := by
  obtain ⟨stream, lexed, scanned, same⟩ := exists_lexed_pieces written blank apart []
  rw [show TokenStream.ofText _ = stream from lexed.eq_ofScanner]
  exact ⟨scanned, same⟩

/-- A name, a marker, a second name, a literal and brackets. Only the second name has a
blank in front of it. -/
def Piece.joined : List Piece :=
  [⟨[], .identifier, ['a']⟩, ⟨[], .attributeName, ['@', 'b']⟩, ⟨[' '], .identifier, ['c']⟩,
    ⟨[], .string, ['"', '\\', '"', '"']⟩, ⟨[], .brackets, ['[', ']']⟩]

theorem TokenStream.ofText_pieces_joined :
    (∀ piece ∈ Piece.joined, piece.Written) ∧ (∀ char ∈ ['\n'], Blank char) ∧
      Piece.joined.IsChain Piece.Before ∧
      (TokenStream.ofText (Piece.joined.flatMap Piece.text ++ ['\n'])).failure = none ∧
      (TokenStream.ofText (Piece.joined.flatMap Piece.text ++ ['\n'])).tokens.map
          (fun token => (token.kind, token.text)) =
        [(.identifier, "a"), (.attributeName, "@b"), (.identifier, "c"), (.string, "\"\\\"\""),
          (.brackets, "[]"), (.endOfInput, "")] := by
  have line : ∀ char ∈ ['\n'], Blank char := by simp [Blank]
  have written : ∀ piece ∈ Piece.joined, piece.Written := by
    simp only [Piece.joined, List.forall_mem_cons, List.not_mem_nil, false_implies, implies_true,
      and_true]
    refine ⟨⟨by simp, ?_⟩, ⟨by simp, ?_⟩, ⟨by simp [Blank], ?_⟩, ⟨by simp, ?_⟩, ⟨by simp, rfl⟩⟩
    · exact Lexical.mem_name_iff.2 (by decide)
    · exact Lexical.mem_marker_iff.2 (.mk (.one (by decide)))
    · exact Lexical.mem_name_iff.2 (by decide)
    · exact Lexical.mem_literal_iff.2 (.mk (show Literal.isBody ['\\', '"'] = true by decide))
  have apart : Piece.joined.IsChain Piece.Before := by
    simp [Piece.joined, List.isChain_cons_cons, Piece.Before]
  exact ⟨written, line, apart, ofText_pieces Piece.joined ['\n'] written line apart⟩

end SchemaLang
