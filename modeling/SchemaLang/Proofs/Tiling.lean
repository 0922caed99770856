import Mathlib.Data.List.DropRight
import SchemaLang.Proofs.Lexing
import SchemaLang.Proofs.Placement

/-! Tokens tile a text. Each one covers the part of the text between its two ends, blanks
alone lie between one element and the next, and every end is counted from the start of the
text, although a scanner never looks back there. All of it is read off the way in which a
text is cut up by longest match. -/
namespace SchemaLang

namespace Position

/-- A place in a text, by all that lies in front of it: its bytes, one line more than its
line feeds, and one column more than its characters behind the last of them. -/
structure Counts (front : List Char) (place : Position) : Prop where
  reached : place = .advance .start front
  offset : place.offset = byteLength front
  line : place.line = 1 + front.count lineFeed
  column : place.column = 1 + (front.rtakeWhile (· != lineFeed)).length

theorem column_advance_start (front : List Char) :
    (start.advance front).column = 1 + (front.rtakeWhile (· != lineFeed)).length := by
  induction front using List.reverseRecOn with
  | nil => rfl
  | append_singleton front char ih =>
    rw [advance_append]
    show ((start.advance front).step char).column = _
    by_cases feed : char = lineFeed
    · rw [List.rtakeWhile_concat_neg _ _ _ (by simp [feed]), step, if_pos feed]
      rfl
    · rw [List.rtakeWhile_concat_pos _ _ _ (by simp [feed]), step, if_neg feed, ih,
        List.length_append]
      rfl

theorem counts_advance_start (front : List Char) : Counts front (.advance .start front) where
  reached := rfl
  offset := offset_advance_start front
  line := line_advance start front
  column := column_advance_start front

/-- A place behind some of the beginning of a text. -/
def Counted (text : List Char) (place : Position) : Prop :=
  ∃ front, front <+: text ∧ place.Counts front

theorem counted_of_append (front back : List Char) :
    Counted (front ++ back) (.advance .start front) :=
  ⟨front, List.prefix_append .., counts_advance_start front⟩

end Position

namespace TokenStream

/-- Where the elements of a stream begin, the failure included. -/
def starts (stream : TokenStream) : List Position :=
  stream.tokens.map Token.start ++ stream.failure.toList.map LexError.position

/-- Where its tokens end. -/
def stops (stream : TokenStream) : List Position := stream.tokens.map Token.stop

/-- The elements of a stream cover a text from a place on. -/
structure Tiles (text : List Char) (origin : Position) (stream : TokenStream) : Prop where
  /-- A token is the part of the text between its two ends. -/
  covers : ∀ token ∈ stream.tokens,
    Position.slice? text token.start.offset token.stop.offset = some token.text.toList
  /-- No token but the end of input is empty. -/
  filled : ∀ token ∈ stream.tokens, token.kind ≠ .endOfInput → token.text ≠ ""
  /-- From the place on, and from the end of each token on, there are blanks alone up to the
  start of the next element. -/
  gaps : ∀ gap ∈ (origin :: stream.stops).zip stream.starts, ∃ blanks,
    Position.slice? text gap.1.offset gap.2.offset = some blanks ∧ ∀ char ∈ blanks, Blank char
  /-- Each element starts behind the one in front of it. -/
  rising : stream.starts.Pairwise fun first second => first.offset < second.offset
  /-- No element starts in front of the place. -/
  onward : ∀ place ∈ stream.starts, origin.offset ≤ place.offset
  /-- All starts, ends and failures are counted from the start of the text. -/
  counted : ∀ place ∈ stream.starts ++ stream.stops, place.Counted text
  /-- The last element is the end of input, at the end of the text, or else a failure. -/
  closed : (∃ tokens, stream = ⟨tokens ++ [.endAt (.advance .start text)], none⟩ ∧
      ∀ token ∈ tokens, token.kind ≠ .endOfInput) ∨
    ∃ failure, stream.failure = some failure ∧ ∀ token ∈ stream.tokens, token.kind ≠ .endOfInput

/-! ## One element -/

section

variable (front blanks : List Char)

theorem slice?_advance (part behind : List Char) :
    Position.slice? (front ++ part ++ behind) (Position.start.advance front).offset
      (Position.start.advance (front ++ part)).offset = some part := by
  rw [Position.offset_advance_start, Position.offset_advance_start]
  exact Position.slice?_append front part behind

theorem offset_advance_le (part : List Char) :
    (Position.start.advance front).offset ≤ (Position.start.advance (front ++ part)).offset := by
  simp only [Position.offset_advance, Position.byteLength_append]
  omega

/-- Behind the last token there are blanks alone. -/
theorem tiles_finish (blank : ∀ char ∈ blanks, Blank char) :
    Tiles (front ++ blanks) (.advance .start front)
      ⟨[.endAt (.advance .start (front ++ blanks))], none⟩ where
  covers := by
    have cut := slice?_advance (front ++ blanks) [] []
    simp only [List.append_nil] at cut
    exact List.forall_mem_singleton.2 cut
  filled := List.forall_mem_singleton.2 fun proper => absurd rfl proper
  gaps := by
    have cut := slice?_advance front blanks []
    rw [List.append_nil] at cut
    exact List.forall_mem_singleton.2 ⟨blanks, cut, blank⟩
  rising := List.pairwise_singleton ..
  onward := List.forall_mem_singleton.2 (offset_advance_le front blanks)
  counted := by
    have counted := Position.counted_of_append (front ++ blanks) []
    rw [List.append_nil] at counted
    simp [starts, stops, Token.endAt, counted]
  closed := .inl ⟨[], rfl, List.forall_mem_nil _⟩

/-- In front of the character that begins no lexeme there are blanks alone. -/
theorem tiles_fault (blank : ∀ char ∈ blanks, Blank char) (found : Char) (others : List Char) :
    Tiles (front ++ (blanks ++ found :: others)) (.advance .start front)
      ⟨[], some ⟨.advance .start (front ++ blanks), found⟩⟩ where
  covers := List.forall_mem_nil _
  filled := List.forall_mem_nil _
  gaps := by
    rw [← List.append_assoc]
    exact List.forall_mem_singleton.2 ⟨blanks, slice?_advance front blanks _, blank⟩
  rising := List.pairwise_singleton ..
  onward := List.forall_mem_singleton.2 (offset_advance_le front blanks)
  counted := by
    rw [← List.append_assoc]
    exact List.forall_mem_singleton.2 (Position.counted_of_append (front ++ blanks) _)
  closed := .inr ⟨_, rfl, List.forall_mem_nil _⟩

/-- What is tiled behind a token is tiled from in front of the blanks before it on. -/
theorem Tiles.token {spelling behind : List Char} {kind : TokenKind} {stream : TokenStream}
    (blank : ∀ char ∈ blanks, Blank char) (nonempty : spelling ≠ []) (proper : kind ≠ .endOfInput)
    (others : Tiles (front ++ (blanks ++ (spelling ++ behind)))
      (.advance .start (front ++ blanks ++ spelling)) stream) :
    Tiles (front ++ (blanks ++ (spelling ++ behind))) (.advance .start front)
      ⟨⟨kind, .ofList spelling, .advance .start (front ++ blanks),
        .advance .start (front ++ blanks ++ spelling)⟩ :: stream.tokens, stream.failure⟩ := by
  have whole : front ++ (blanks ++ (spelling ++ behind)) =
      front ++ blanks ++ spelling ++ behind := by simp only [List.append_assoc]
  have progress : (Position.start.advance (front ++ blanks)).offset <
      (Position.start.advance (front ++ blanks ++ spelling)).offset := by
    have wide := Position.byteLength_pos nonempty
    simp only [Position.offset_advance, Position.byteLength_append]
    omega
  constructor
  case covers =>
    refine List.forall_mem_cons.2 ⟨?_, others.covers⟩
    rw [whole, String.toList_ofList]
    exact slice?_advance (front ++ blanks) spelling behind
  case filled =>
    exact List.forall_mem_cons.2 ⟨fun _ empty => nonempty (String.ofList_eq_empty_iff.1 empty),
      others.filled⟩
  case gaps =>
    refine List.forall_mem_cons.2 ⟨⟨blanks, ?_, blank⟩, others.gaps⟩
    rw [whole, List.append_assoc _ spelling]
    exact slice?_advance front blanks _
  case rising =>
    refine List.pairwise_cons.2 ⟨fun place later => ?_, others.rising⟩
    exact Nat.lt_of_lt_of_le progress (others.onward place later)
  case onward =>
    have start := offset_advance_le front blanks
    refine List.forall_mem_cons.2 ⟨start, fun place later => ?_⟩
    have further := others.onward place later
    omega
  case counted =>
    obtain ⟨starts, stops⟩ := List.forall_mem_append.1 others.counted
    refine List.forall_mem_append.2
      ⟨List.forall_mem_cons.2 ⟨?_, starts⟩, List.forall_mem_cons.2 ⟨?_, stops⟩⟩
    · rw [whole, List.append_assoc _ spelling]
      exact Position.counted_of_append (front ++ blanks) _
    · rw [whole]
      exact Position.counted_of_append (front ++ blanks ++ spelling) behind
  case closed =>
    refine others.closed.imp ?_ ?_
    · rintro ⟨tokens, rfl, each⟩
      exact ⟨_ :: tokens, rfl, List.forall_mem_cons.2 ⟨proper, each⟩⟩
    · rintro ⟨failure, failed, each⟩
      exact ⟨failure, failed, List.forall_mem_cons.2 ⟨proper, each⟩⟩

end

end TokenStream

/-! ## Whole texts -/

/-- What is lexed of the rest of a text tiles the text from there on. -/
theorem Lexed.tiles {front rest : List Char} {stream : TokenStream}
    (lexed : Lexed front rest stream) :
    stream.Tiles (front ++ rest) (.advance .start front) := by
  induction lexed with
  | @finish front _ blanks skips =>
    rw [skips.split, List.append_nil]
    exact TokenStream.tiles_finish front blanks skips.blank
  | @fault front _ blanks others found skips nothing =>
    rw [skips.split]
    exact TokenStream.tiles_fault front blanks skips.blank found others
  | @token front _ blanks spelling behind kind stream skips longest others ih =>
    have proper := lexeme?_kind (lexeme?_eq_some_iff.2 longest)
    have same : front ++ blanks ++ spelling ++ behind =
        front ++ (blanks ++ (spelling ++ behind)) := by simp only [List.append_assoc]
    rw [same] at ih
    rw [skips.split]
    exact ih.token front blanks skips.blank longest.nonempty proper

/-- The tokens of a text tile it from its start to its end, or to a failure. -/
theorem TokenStream.tiles_ofText (text : List Char) :
    (TokenStream.ofText text).Tiles text .start :=
  (lexed_ofText text).tiles

/-- The literal takes four bytes and three columns. -/
example : TokenStream.ofText ['"', 'é', '"', '\n', 'x'] =
    ⟨[⟨.string, "\"é\"", ⟨0, 1, 1⟩, ⟨4, 1, 4⟩⟩, ⟨.identifier, "x", ⟨5, 2, 1⟩, ⟨6, 2, 2⟩⟩,
      .endAt ⟨6, 2, 2⟩], none⟩ := by cbv

end SchemaLang
