import SchemaLang.Parser

/-! A feed is what a cursor has in front of it: further tokens, and behind them
the end of the text or a character that begins no lexeme. Feeds are values, so
reading from one needs neither a cache nor a way back. The cursor operations
are compared with them here: what was read before never changes what is shown. -/
namespace SchemaLang

/-- What is left to be read. The end of input is no token among others: it
closes a feed, and so does the first character that cannot be scanned. -/
inductive Feed where
  | token (token : Token) (proper : token.kind ≠ .endOfInput) (rest : Feed)
  | finish (place : Position)
  | fault (failure : LexError)

namespace Feed

/-- Everything in front of a scanner. -/
def ofScanner (scanner : Scanner) : Feed :=
  match _read : scanner.next with
  | .error failure => .fault failure
  | .ok (first, after) =>
    if proper : first.kind = .endOfInput then .finish first.start
    else .token first proper (ofScanner after)
termination_by scanner.rest.length
decreasing_by exact Scanner.next_shortens _read proper

/-- Everything a text has to offer. -/
def ofText (text : List Char) : Feed := .ofScanner (.ofText text)

/-- What a look at the front of a feed answers. -/
def look : Feed → Except LexError Token
  | token first _ _ => .ok first
  | finish place => .ok (.endAt place)
  | fault failure => .error failure

/-- The feed behind its first token. A closed feed stays as it is. -/
def next : Feed → Feed
  | token _ _ rest => rest
  | finish place => finish place
  | fault failure => fault failure

/-- How many tokens there are before a feed closes. -/
def size : Feed → Nat
  | token _ _ rest => rest.size + 1
  | finish _ => 0
  | fault _ => 0

/-- The same as a list of tokens with the failure behind them, if any. -/
def stream : Feed → TokenStream
  | token first _ rest => ⟨first :: rest.stream.tokens, rest.stream.failure⟩
  | finish place => ⟨[.endAt place], none⟩
  | fault failure => ⟨[], some failure⟩

end Feed

/-! ## Scanning -/

/-- A backslash would be the last character or have another one behind it. -/
theorem ne_backslash {char : Char} {rest : List Char} (alone : char = '\\' → rest = [] → False)
    (paired : ∀ next others, char = '\\' → rest = next :: others → False) : char ≠ '\\' := by
  rintro rfl
  cases rest with
  | nil => exact alone rfl rfl
  | cons next others => exact paired next others rfl rfl

theorem quotedTail?_cons {char : Char} (quote : char ≠ '"') (line : char ≠ '\n')
    (escape : char ≠ '\\') (rest : List Char) :
    quotedTail? (char :: rest) = (quotedTail? rest).map (char :: ·) := by
  rw [quotedTail?]
  · exact quote
  · exact line
  · exact fun same => absurd same escape
  · exact fun _ same => absurd same escape
  · exact fun _ _ same => absurd same escape

theorem quotedTail?_escaped {char : Char} (line : char ≠ '\n') (rest : List Char) :
    quotedTail? ('\\' :: char :: rest) =
      (quotedTail? rest).map fun tail => '\\' :: char :: tail := by
  rw [quotedTail?]
  exact line

private theorem punctuation_kind {char : Char} {kind : TokenKind}
    (found : punctuation? char = some kind) : kind ≠ .endOfInput := by
  unfold punctuation? at found
  split at found <;> simp at found <;> simp [← found]

/-- No spelling stands for the end of input. -/
theorem lexeme?_kind {text spelling : List Char} {kind : TokenKind}
    (found : lexeme? text = some (kind, spelling)) : kind ≠ .endOfInput := by
  unfold lexeme? at found
  split at found
  · cases found
  · split at found <;> simp at found
    simp [← found.1]
  · simp at found
    simp [← found.1]
  · simp only [Option.map_eq_some_iff, Prod.mk.injEq] at found
    obtain ⟨_, _, rfl, _⟩ := found
    simp
  · split at found
    · simp at found
      simp [← found.1]
    · simp only [Option.map_eq_some_iff, Prod.mk.injEq] at found
      obtain ⟨_, known, rfl, _⟩ := found
      exact punctuation_kind known

/-- The end of input is always answered with the one token made for it. -/
theorem Scanner.next_end {scanner after : Scanner} {token : Token}
    (read : scanner.next = .ok (token, after)) (ended : token.kind = .endOfInput) :
    token = .endAt token.start := by
  unfold Scanner.next at read
  simp only at read
  split at read
  · cases read
    rfl
  · split at read
    · cases read
    · rename_i spelled
      cases read
      exact absurd ended (lexeme?_kind spelled)

namespace Feed

theorem ofScanner_error {scanner : Scanner} {failure : LexError}
    (read : scanner.next = .error failure) : ofScanner scanner = .fault failure := by
  rw [ofScanner]
  split
  · rename_i other
    cases read.symm.trans other
    rfl
  · rename_i other
    cases read.symm.trans other

theorem ofScanner_ok {scanner after : Scanner} {token : Token}
    (read : scanner.next = .ok (token, after)) :
    ofScanner scanner = if proper : token.kind = .endOfInput then .finish token.start
      else .token token proper (ofScanner after) := by
  rw [ofScanner]
  split
  · rename_i other
    cases read.symm.trans other
  · rename_i other
    cases read.symm.trans other
    rfl

/-- Scanners whose next step is the same have the same in front of them. -/
theorem ofScanner_congr {scanner other : Scanner} (same : scanner.next = other.next) :
    ofScanner scanner = ofScanner other := by
  cases read : other.next with
  | error failure => rw [ofScanner_error read, ofScanner_error (same.trans read)]
  | ok result => rw [ofScanner_ok read, ofScanner_ok (same.trans read)]

theorem look_ofScanner {scanner after : Scanner} {token : Token}
    (read : scanner.next = .ok (token, after)) : (ofScanner scanner).look = .ok token := by
  rw [ofScanner_ok read]
  split
  · rename_i ended
    rw [Scanner.next_end read ended]
    rfl
  · rfl

/-- A feed lists the same tokens as the scan that reads a text once. -/
theorem stream_ofScanner (scanner : Scanner) :
    (ofScanner scanner).stream = TokenStream.ofScanner scanner := by
  fun_induction ofScanner scanner with
  | case1 scanner failure read =>
    rw [TokenStream.ofScanner]
    split
    · rename_i other
      cases read.symm.trans other
      rfl
    · rename_i other
      cases read.symm.trans other
  | case2 scanner token after read ended =>
    rw [TokenStream.ofScanner]
    split
    · rename_i other
      cases read.symm.trans other
    · rename_i other
      cases read.symm.trans other
      rw [dif_pos ended, Scanner.next_end read ended]
      rfl
  | case3 scanner token after read proper ih =>
    rw [TokenStream.ofScanner]
    split
    · rename_i other
      cases read.symm.trans other
    · rename_i other
      cases read.symm.trans other
      rw [dif_neg proper, ← ih]
      rfl

/-- A text has no more tokens than characters. -/
theorem size_ofScanner_le (scanner : Scanner) : (ofScanner scanner).size ≤ scanner.rest.length := by
  fun_induction ofScanner scanner with
  | case1 scanner failure read => exact Nat.zero_le _
  | case2 scanner token after read ended => exact Nat.zero_le _
  | case3 scanner token after read proper ih =>
    have shorter := Scanner.next_shortens read proper
    simp only [size]
    omega

theorem stream_ofText (text : List Char) : (ofText text).stream = TokenStream.ofText text :=
  stream_ofScanner _

end Feed

/-! ## Cursors -/

namespace Cursor

/-- Whether tokens that were read ahead, and the scanner behind them, make up a
feed. Nothing is asked of what may lie behind the end of input. -/
def Ahead : List Token → Scanner → Feed → Prop
  | [], scanner, feed => feed = .ofScanner scanner
  | read :: others, scanner, .token first _ rest => read = first ∧ Ahead others scanner rest
  | read :: _, _, .finish place => read = .endAt place
  | _ :: _, _, .fault _ => False

/-- The feed in front of a cursor. -/
def Shows (cursor : Cursor) (feed : Feed) : Prop :=
  cursor.pointer ≤ cursor.tokens.size ∧
    Ahead (cursor.tokens.toList.drop cursor.pointer) cursor.scanner feed

/-- What the first cursor shows at any ordinal, the second one shows there too.
Reading further tokens keeps this, so a way back is never lost. -/
def Keeps (before after : Cursor) : Prop :=
  ∀ pointer feed, Shows { before with pointer } feed → Shows { after with pointer } feed

theorem Keeps.refl (cursor : Cursor) : Keeps cursor cursor := fun _ _ shown => shown

theorem Keeps.trans {first second third : Cursor} (one : Keeps first second)
    (two : Keeps second third) : Keeps first third :=
  fun pointer feed shown => two pointer feed (one pointer feed shown)

theorem shows_ofText (text : List Char) : Shows (.ofText text) (.ofText text) :=
  ⟨Nat.le_refl _, rfl⟩

private theorem ahead_scanned {scanner after : Scanner} {token : Token}
    (read : scanner.next = .ok (token, after)) (cached : List Token) (feed : Feed)
    (shown : Ahead cached scanner feed) : Ahead (cached ++ [token]) after feed := by
  induction cached generalizing feed with
  | nil =>
    cases shown
    rw [Feed.ofScanner_ok read]
    split
    · rename_i ended
      exact Scanner.next_end read ended
    · exact ⟨rfl, rfl⟩
  | cons first cached ih =>
    cases feed with
    | token token proper rest => exact ⟨shown.1, ih rest shown.2⟩
    | finish place => exact shown
    | fault failure => exact shown

/-- Caching one more token changes nothing that can be seen from any ordinal. -/
theorem keeps_scanned {cursor : Cursor} {after : Scanner} {token : Token}
    (read : cursor.scanner.next = .ok (token, after)) :
    Keeps cursor { cursor with tokens := cursor.tokens.push token, scanner := after } := by
  rintro pointer feed ⟨bound, shown⟩
  refine ⟨by simp only [Array.size_push] at bound ⊢; omega, ?_⟩
  simp only [Array.toList_push]
  rw [List.drop_append_of_le_length (by simpa using bound)]
  exact ahead_scanned read _ feed shown

private theorem drop_cached {cursor : Cursor} {token : Token}
    (cached : cursor.tokens[cursor.pointer]? = some token) :
    cursor.tokens.toList.drop cursor.pointer =
      token :: cursor.tokens.toList.drop (cursor.pointer + 1) := by
  rw [List.drop_eq_getElem?_toList_append, Array.getElem?_toList, cached]
  rfl

private theorem ahead_look {read : Token} {others : List Token} {scanner : Scanner} {feed : Feed}
    (shown : Ahead (read :: others) scanner feed) : feed.look = .ok read := by
  cases feed with
  | token first proper rest => rw [shown.1]; rfl
  | finish place => rw [show read = .endAt place from shown]; rfl
  | fault failure => exact shown.elim

/-- A look answers with the front of the feed and changes nothing else. -/
theorem peek_shows {cursor : Cursor} {feed : Feed} (shown : cursor.Shows feed) :
    ∃ after, cursor.peek = (feed.look, after) ∧ after.pointer = cursor.pointer ∧
      after.Shows feed ∧ Keeps cursor after ∧
      (∀ token, feed.look = .ok token → after.tokens[after.pointer]? = some token) := by
  have ⟨bound, ahead⟩ := shown
  unfold peek
  split
  · rename_i token cached
    rw [drop_cached cached] at ahead
    rw [ahead_look ahead]
    refine ⟨cursor, rfl, rfl, shown, .refl cursor, ?_⟩
    rintro _ ⟨⟩
    exact cached
  · rename_i missing
    have ended : cursor.pointer = cursor.tokens.size := by
      have := Array.getElem?_eq_none_iff.1 missing
      omega
    have nothing : cursor.tokens.toList.drop cursor.pointer = [] := by simp [ended]
    rw [nothing] at ahead
    cases ahead
    split
    · rename_i failure read
      refine ⟨cursor, ?_, rfl, shown, .refl cursor, ?_⟩
      all_goals rw [Feed.ofScanner_error read]
      · rfl
      · rintro _ ⟨⟩
    · rename_i token scanner read
      have kept := keeps_scanned read
      rw [Feed.look_ofScanner read]
      refine ⟨{ cursor with tokens := cursor.tokens.push token, scanner }, rfl, rfl,
        kept cursor.pointer _ shown, kept, ?_⟩
      rintro _ ⟨⟩
      simp [ended]

/-- Taking a token moves the cursor to the rest of the feed, by one ordinal for
each token that is not the end of input. -/
theorem advance_shows {cursor : Cursor} {feed : Feed} (shown : cursor.Shows feed) :
    ∃ after, cursor.advance = (feed.look, after) ∧ after.Shows feed.next ∧ Keeps cursor after ∧
      after.pointer + feed.next.size = cursor.pointer + feed.size := by
  obtain ⟨after, looked, same, shownAfter, kept, cached⟩ := peek_shows shown
  unfold advance
  rw [looked]
  cases feed with
  | fault failure => exact ⟨after, rfl, shownAfter, kept, by rw [same]; rfl⟩
  | finish place => exact ⟨after, rfl, shownAfter, kept, by rw [same]; rfl⟩
  | token first proper rest =>
    refine ⟨{ after with pointer := after.pointer + 1 }, ?_, ?_, kept, ?_⟩
    · simp only [Feed.look, proper, if_false]
    · have here := cached first rfl
      obtain ⟨bound, ahead⟩ := shownAfter
      rw [drop_cached here] at ahead
      exact ⟨(Array.getElem?_eq_some_iff.1 here).1, ahead.2⟩
    · simp only [Feed.next, Feed.size, same]
      omega

end Cursor

end SchemaLang
