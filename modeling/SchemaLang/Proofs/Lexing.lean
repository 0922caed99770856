import SchemaLang.Proofs.Patterns
import SchemaLang.Proofs.Session

/-! Lexing by longest match, said without a scanner. A text is cut up from its front: a run
of blanks that cannot be longer, then the longest prefix that any pattern has, and so on
until nothing but blanks is left or no pattern has any of it. This relation gives every
text one stream, and a cursor that is only asked to go on answers with its elements. -/
namespace SchemaLang

/-- The characters that stand between lexemes. -/
def Blank (char : Char) : Prop := char ∈ [' ', '\t', '\r', '\n', '\x0c']

theorem isBlank_iff {char : Char} : isBlank char = true ↔ Blank char := by
  simp [isBlank, Blank, or_assoc]

/-- All the blanks at the front of a text, and the rest of it. -/
structure Skips (text blanks visible : List Char) : Prop where
  split : text = blanks ++ visible
  blank : ∀ char ∈ blanks, Blank char
  maximal : ∀ char, visible.head? = some char → ¬ Blank char

/-- `Lexed front rest stream` says what is lexed of the rest of a text behind its front. -/
inductive Lexed : List Char → List Char → TokenStream → Prop where
  /-- Only blanks are left. -/
  | finish {front rest blanks : List Char} (skips : Skips rest blanks []) :
      Lexed front rest ⟨[.endAt (.advance .start (front ++ blanks))], none⟩
  /-- There is no match at the first visible character. -/
  | fault {front rest blanks others : List Char} {found : Char}
      (skips : Skips rest blanks (found :: others)) (nothing : NoMatch (found :: others)) :
      Lexed front rest ⟨[], some ⟨.advance .start (front ++ blanks), found⟩⟩
  /-- The longest match is the first token, and lexing goes on behind it. -/
  | token {front rest blanks spelling behind : List Char} {kind : TokenKind} {stream : TokenStream}
      (skips : Skips rest blanks (spelling ++ behind))
      (longest : LongestMatch (spelling ++ behind) kind spelling)
      (others : Lexed (front ++ blanks ++ spelling) behind stream) :
      Lexed front rest
        ⟨⟨kind, .ofList spelling, .advance .start (front ++ blanks),
            .advance .start (front ++ blanks ++ spelling)⟩ :: stream.tokens, stream.failure⟩

/-! ## Steps -/

theorem skips_takeWhile (text : List Char) :
    Skips text (text.takeWhile isBlank) (text.dropWhile isBlank) where
  split := List.takeWhile_append_dropWhile.symm
  blank _ found := isBlank_iff.1 (List.mem_takeWhile_imp found)
  maximal char front blank := by
    have visible := List.head?_dropWhile_not isBlank text
    simp [front, isBlank_iff.2 blank] at visible

theorem skips_blanks {blanks : List Char} (blank : ∀ char ∈ blanks, Blank char) :
    Skips blanks blanks [] where
  split := (List.append_nil blanks).symm
  blank := blank
  maximal _ front := by cases front

namespace Skips

variable {text blanks visible : List Char}

theorem skipBlanks (skips : Skips text blanks visible) (place : Position) :
    Scanner.skipBlanks ⟨place, text⟩ = ⟨place.advance blanks, visible⟩ := by
  obtain ⟨rfl, blank, maximal⟩ := skips
  rw [Scanner.skipBlanks_blanks place fun char found => isBlank_iff.2 (blank char found)]
  cases visible with
  | nil => rfl
  | cons first others =>
    have shown : isBlank first = false := by
      rw [Bool.eq_false_iff, ne_eq, isBlank_iff]
      exact maximal first rfl
    simp [Scanner.skipBlanks, shown, Position.advance]

theorem next_finish (skips : Skips text blanks []) (place : Position) :
    Scanner.next ⟨place, text⟩ =
      .ok (.endAt (place.advance blanks), ⟨place.advance blanks, []⟩) := by
  simp only [Scanner.next, skips.skipBlanks]

theorem next_fault {others : List Char} {found : Char} (skips : Skips text blanks (found :: others))
    (nothing : NoMatch (found :: others)) (place : Position) :
    Scanner.next ⟨place, text⟩ = .error ⟨place.advance blanks, found⟩ := by
  simp only [Scanner.next, skips.skipBlanks, lexeme?_eq_none_iff.2 nothing]

theorem next_token {spelling behind : List Char} {kind : TokenKind}
    (skips : Skips text blanks (spelling ++ behind))
    (longest : LongestMatch (spelling ++ behind) kind spelling) (place : Position) :
    Scanner.next ⟨place, text⟩ =
      .ok (⟨kind, .ofList spelling, place.advance blanks, (place.advance blanks).advance spelling⟩,
        ⟨(place.advance blanks).advance spelling, behind⟩) := by
  obtain ⟨first, others, begun⟩ := List.exists_cons_of_ne_nil longest.nonempty
  have read := lexeme?_eq_some_iff.2 longest
  simp only [Scanner.next, skips.skipBlanks]
  split
  · rename_i ended
    simp [begun] at ended
  · rw [read]
    simp only [List.drop_left]

end Skips

/-! ## Streams -/

/-- Whatever is lexed is what a scanner reads that has the front behind it. -/
theorem Lexed.eq_ofScanner {front rest : List Char} {stream : TokenStream}
    (lexed : Lexed front rest stream) :
    TokenStream.ofScanner ⟨.advance .start front, rest⟩ = stream := by
  induction lexed with
  | finish skips =>
    rw [← Feed.stream_ofScanner, Feed.ofScanner_ok (skips.next_finish _), Position.advance_append]
    rfl
  | fault skips nothing =>
    rw [← Feed.stream_ofScanner, Feed.ofScanner_error (skips.next_fault nothing _),
      Position.advance_append]
    rfl
  | token skips longest others ih =>
    have proper := lexeme?_kind (lexeme?_eq_some_iff.2 longest)
    rw [← ih, ← Feed.stream_ofScanner, Feed.ofScanner_ok (skips.next_token longest _),
      dif_neg proper, Feed.stream, Feed.stream_ofScanner]
    simp only [Position.advance_append]

/-- Something is lexed of every text. -/
theorem exists_lexed (front rest : List Char) : ∃ stream, Lexed front rest stream := by
  have skips := skips_takeWhile rest
  generalize rest.takeWhile isBlank = blanks at skips
  generalize rest.dropWhile isBlank = visible at skips
  cases visible with
  | nil => exact ⟨_, .finish skips⟩
  | cons found others =>
    cases read : lexeme? (found :: others) with
    | none => exact ⟨_, .fault skips (lexeme?_eq_none_iff.1 read)⟩
    | some lexeme =>
      obtain ⟨kind, spelling⟩ := lexeme
      have longest := lexeme?_eq_some_iff.1 read
      obtain ⟨behind, begun⟩ := longest.begins
      rw [← begun] at longest skips
      have shorter : behind.length < rest.length := by
        have progress := List.length_pos_iff.2 longest.nonempty
        have whole := congrArg List.length skips.split
        simp only [List.length_append] at whole
        omega
      obtain ⟨stream, lexed⟩ := exists_lexed (front ++ blanks ++ spelling) behind
      exact ⟨_, .token skips longest lexed⟩
termination_by rest.length

theorem lexed_iff {front rest : List Char} {stream : TokenStream} :
    Lexed front rest stream ↔ TokenStream.ofScanner ⟨.advance .start front, rest⟩ = stream := by
  refine ⟨Lexed.eq_ofScanner, ?_⟩
  rintro rfl
  obtain ⟨stream, lexed⟩ := exists_lexed front rest
  rw [lexed.eq_ofScanner]
  exact lexed

theorem lexed_ofText (text : List Char) : Lexed [] text (.ofText text) := lexed_iff.2 rfl

/-- Nothing is lexed but the end of input exactly where only blanks are left. -/
theorem lexed_finish_iff {front rest : List Char} :
    (∃ place, Lexed front rest ⟨[.endAt place], none⟩) ↔ ∀ char ∈ rest, Blank char := by
  constructor
  · rintro ⟨place, lexed⟩
    generalize shape : (⟨[.endAt place], none⟩ : TokenStream) = stream at lexed
    cases lexed with
    | finish skips => rw [skips.split, List.append_nil]; exact skips.blank
    | fault => cases shape
    | token skips longest =>
      have kinds := congrArg (fun stream => stream.tokens.head?.map Token.kind) shape
      exact absurd (Option.some.inj kinds).symm (lexeme?_kind (lexeme?_eq_some_iff.2 longest))
  · intro blank
    exact ⟨_, .finish (skips_blanks blank)⟩

/-- Lexing fails at once exactly where there is no match behind the blanks. -/
theorem lexed_fault_iff {front rest : List Char} {failure : LexError} :
    Lexed front rest ⟨[], some failure⟩ ↔
      ∃ blanks found others, Skips rest blanks (found :: others) ∧ NoMatch (found :: others) ∧
        failure = ⟨.advance .start (front ++ blanks), found⟩ := by
  constructor
  · intro lexed
    cases lexed with
    | fault skips nothing => exact ⟨_, _, _, skips, nothing, rfl⟩
  · rintro ⟨blanks, found, others, skips, nothing, rfl⟩
    exact .fault skips nothing

/-! ## Answers -/

/-- A feed moves on by as many elements as taking its front moves a cursor. -/
theorem Feed.next_iterate_stride (feed : Feed) :
    Feed.next^[Cursor.stride feed.look] feed = feed.next := by
  cases feed with
  | token first proper rest => simp [Feed.look, Cursor.stride, proper]
  | finish place => rfl
  | fault failure => rfl

namespace Cursor

/-- How a cursor answers when it is asked for one more token, after it has been asked for
so many from the start of a text. -/
def answer (text : List Char) (count : Nat) : Except LexError Token :=
  ((Cursor.ofText text).after (List.replicate count .advance)).advance.1

/-- After so many requests to go on, the cursor has in front of it what is left of the feed
behind so many elements. -/
theorem next_iterate_advances (text : List Char) (count : Nat) :
    Feed.next^[((Cursor.ofText text).after (List.replicate count .advance)).pointer]
      (.ofText text) = Feed.next^[count] (.ofText text) := by
  induction count with
  | zero => rfl
  | succ count ih =>
    have reads := reads_session text (List.replicate count .advance)
    rw [List.replicate_succ', after_append]
    generalize (Cursor.ofText text).after (List.replicate count .advance) = cursor at ih reads
    obtain ⟨answered, -, stays, -⟩ := reads.peek
    -- Where the feed is closed the pointer stays behind the count, but so does the feed.
    have moved : (cursor.after [.advance]).pointer =
        stride (Feed.next^[cursor.pointer] (.ofText text)).look + cursor.pointer := by
      show cursor.advance.2.pointer = _
      rw [advance_eq, stays, answered, Nat.add_comm]
    rw [moved, Function.iterate_add_apply, Feed.next_iterate_stride, ih,
      Function.iterate_succ_apply']

theorem lasting?_answer (text : List Char) (count : Nat) :
    (TokenStream.ofText text).lasting? count = some (answer text count) := by
  have reads := reads_session text (List.replicate count .advance)
  rw [← Feed.stream_ofText, Feed.lasting?_stream, ← next_iterate_advances, answer, advance_eq,
    reads.peek.1]

/-- **Lexing is longest match.** There is one stream that is lexed of a text, by skipping
blanks and taking the longest match again and again, and a cursor that is asked for one
token after the other answers with its elements, the last of them for ever. Wherever lexing
has come to, it ends there with the end of input exactly if only blanks are left, and with a
failure at the first visible character exactly if no pattern has any part of the text that
begins there. -/
theorem answer_longest_match (text : List Char) :
    (∃ stream, (∀ other, Lexed [] text other ↔ other = stream) ∧
      ∀ count, stream.lasting? count = some (answer text count)) ∧
    ∀ front rest,
      ((∃ place, TokenStream.ofScanner ⟨.advance .start front, rest⟩ = ⟨[.endAt place], none⟩) ↔
        ∀ char ∈ rest, Blank char) ∧
      ∀ failure, TokenStream.ofScanner ⟨.advance .start front, rest⟩ = ⟨[], some failure⟩ ↔
        ∃ blanks found others, Skips rest blanks (found :: others) ∧ NoMatch (found :: others) ∧
          failure = ⟨.advance .start (front ++ blanks), found⟩ := by
  refine ⟨⟨.ofText text, fun other => lexed_iff.trans eq_comm, lasting?_answer text⟩, ?_⟩
  simp only [← lexed_iff]
  exact fun front rest => ⟨lexed_finish_iff, fun failure => lexed_fault_iff⟩

/-- A dot that no name follows is not taken with the marker, and fails by itself. -/
example : answer "@a. ".toList 0 = .ok ⟨.attributeName, "@a", ⟨0, 1, 1⟩, ⟨2, 1, 3⟩⟩ ∧
    answer "@a. ".toList 1 = .error ⟨⟨2, 1, 3⟩, '.'⟩ := by cbv

end Cursor

end SchemaLang
