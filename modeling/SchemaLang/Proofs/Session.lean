import Mathlib.Logic.Function.Iterate
import SchemaLang.Proofs.Offsets

/-! Sessions with a cursor. Looking ahead, taking tokens and going back share one
scanner that only moves forward, yet no request can tell what was asked before: the
cursor answers as if the text had been read once, from its start, and its last element
were repeated for ever. What it has read so far shows in one number only, the highest
ordinal that it has answered with a token. -/
namespace SchemaLang

namespace TokenStream

/-- The tokens of a stream, and the failure behind them if there is one. -/
def elements (stream : TokenStream) : List (Except LexError Token) :=
  stream.tokens.map .ok ++ stream.failure.toList.map .error

/-- The element at an ordinal, the last element standing for all that follow it. -/
def lasting? (stream : TokenStream) (ordinal : Nat) : Option (Except LexError Token) :=
  stream.elements[min ordinal (stream.elements.length - 1)]?

/-- How many tokens a stream has in front of the end of input, or of the failure that
stands in its place. If there is an end of input, this is its ordinal. -/
def proper (stream : TokenStream) : Nat :=
  stream.tokens.countP fun token => token.kind ≠ .endOfInput

end TokenStream

namespace Cursor

/-- What can be asked of a cursor. -/
inductive Request where
  | peek
  | advance
  | pointer
  | restore (ordinal : Nat)
deriving DecidableEq

/-- What a cursor replies. A request to go back has no answer but that it was granted
or refused. -/
inductive Reply where
  | element (answer : Except LexError Token)
  | ordinal (pointer : Nat)
  | restored
  | refused (fault : RestoreFault)

/-- One request, its reply, and the cursor before and after it. -/
structure Exchange where
  before : Cursor
  request : Request
  reply : Reply
  after : Cursor

/-- Asks a cursor. A refused request leaves it as it was. -/
def exchange (cursor : Cursor) (request : Request) : Exchange :=
  match request with
  | .peek => ⟨cursor, request, .element cursor.peek.1, cursor.peek.2⟩
  | .advance => ⟨cursor, request, .element cursor.advance.1, cursor.advance.2⟩
  | .pointer => ⟨cursor, request, .ordinal cursor.pointer, cursor⟩
  | .restore ordinal =>
    match cursor.restore ordinal with
    | .ok after => ⟨cursor, request, .restored, after⟩
    | .error fault => ⟨cursor, request, .refused fault, cursor⟩

@[simp] theorem exchange_before (cursor : Cursor) (request : Request) :
    (cursor.exchange request).before = cursor := by
  cases request with
  | restore ordinal => unfold exchange; dsimp only; split <;> rfl
  | _ => rfl

@[simp] theorem exchange_request (cursor : Cursor) (request : Request) :
    (cursor.exchange request).request = request := by
  cases request with
  | restore ordinal => unfold exchange; dsimp only; split <;> rfl
  | _ => rfl

/-- All exchanges of a session, in order. -/
def session (cursor : Cursor) : List Request → List Exchange
  | [] => []
  | request :: others =>
    cursor.exchange request :: (cursor.exchange request).after.session others

/-- The cursor that a session leaves behind. -/
def after (cursor : Cursor) (requests : List Request) : Cursor :=
  requests.foldl (fun cursor request => (cursor.exchange request).after) cursor

theorem session_append (cursor : Cursor) (requests others : List Request) :
    cursor.session (requests ++ others) =
      cursor.session requests ++ (cursor.after requests).session others := by
  induction requests generalizing cursor with
  | nil => rfl
  | cons request requests ih => rw [List.cons_append, session, session, ih]; rfl

theorem after_append (cursor : Cursor) (requests others : List Request) :
    cursor.after (requests ++ others) = (cursor.after requests).after others :=
  List.foldl_append

/-- One more than the ordinal that an exchange answered with a token. -/
def Exchange.reach (exchange : Exchange) : Nat :=
  match exchange.reply with
  | .element (.ok _) => exchange.before.pointer + 1
  | _ => 0

/-- One more than the highest ordinal that was answered with a token, or nothing if
there was none. -/
def reached (exchanges : List Exchange) : Nat :=
  exchanges.foldl (fun highest exchange => max highest exchange.reach) 0

/-- By how many ordinals taking an element moves a cursor. -/
def stride : Except LexError Token → Nat
  | .ok token => if token.kind = .endOfInput then 0 else 1
  | .error _ => 0

/-- What the exchanges so far say of a cursor: how many tokens it holds, and that it
stands among them or right behind them. -/
structure Settled (exchanges : List Exchange) (cursor : Cursor) : Prop where
  cached : cursor.tokens.size = reached exchanges
  bounded : cursor.pointer ≤ cursor.tokens.size

/-- An exchange that agrees with a stream, given the exchanges before it. -/
structure Exchange.Faithful (stream : TokenStream) (earlier : List Exchange)
    (exchange : Exchange) : Prop where
  before : Settled earlier exchange.before
  after : Settled (earlier ++ [exchange]) exchange.after
  answered : match exchange.request with
    | .peek => ∃ answer, exchange.reply = .element answer ∧
        stream.lasting? exchange.before.pointer = some answer ∧
        exchange.after.pointer = exchange.before.pointer
    | .advance => ∃ answer, exchange.reply = .element answer ∧
        stream.lasting? exchange.before.pointer = some answer ∧
        exchange.after.pointer = exchange.before.pointer + stride answer
    | .pointer => exchange.reply = .ordinal exchange.before.pointer ∧
        exchange.after = exchange.before
    | .restore ordinal =>
      if ordinal ≤ reached earlier then
        exchange.reply = .restored ∧ exchange.after = { exchange.before with pointer := ordinal }
      else
        exchange.reply = .refused ⟨ordinal, reached earlier⟩ ∧ exchange.after = exchange.before

end Cursor

/-! ## Feeds by ordinal -/

/-- The end of input is found again by a scanner that has found it. -/
theorem Scanner.next_ended {scanner after : Scanner} {token : Token}
    (read : scanner.next = .ok (token, after)) (ended : token.kind = .endOfInput) :
    after.next = .ok (token, after) := by
  rcases scanner.next_cases with ⟨rest, next⟩ | ⟨_, _, -, -, next⟩ | ⟨kind, text, found, next⟩
  · cases read.symm.trans next
    generalize scanner.skipBlanks = here at rest
    obtain ⟨place, text⟩ := here
    cases rest
    rfl
  · cases read.symm.trans next
  · cases read.symm.trans next
    exact absurd ended (lexeme?_kind found)

namespace Feed

/-- A scanner that has read a token has the rest of the feed in front of it. -/
theorem next_ofScanner {scanner after : Scanner} {token : Token}
    (read : scanner.next = .ok (token, after)) : (ofScanner scanner).next = ofScanner after := by
  rw [ofScanner_ok read]
  split
  · rename_i ended
    rw [ofScanner_ok (Scanner.next_ended read ended), dif_pos ended]
    rfl
  · rfl

theorem next_iterate_finish (place : Position) (count : Nat) :
    Feed.next^[count] (finish place) = finish place :=
  Function.iterate_fixed rfl count

theorem next_iterate_fault (failure : LexError) (count : Nat) :
    Feed.next^[count] (fault failure) = fault failure :=
  Function.iterate_fixed rfl count

theorem size_next_iterate (feed : Feed) (count : Nat) :
    (Feed.next^[count] feed).size = feed.size - count := by
  induction count generalizing feed with
  | zero => rfl
  | succ count ih =>
    rw [Function.iterate_succ_apply, ih]
    cases feed with
    | token first proper rest => exact (Nat.add_sub_add_right ..).symm
    | finish | fault => exact (Nat.zero_sub _).trans (Nat.zero_sub _).symm

/-- What a feed counts as its tokens are the proper ones of its stream. -/
theorem proper_stream (feed : Feed) : feed.stream.proper = feed.size := by
  induction feed with
  | token first proper rest ih =>
    have counted : (token first proper rest).stream.proper = rest.stream.proper + 1 :=
      List.countP_cons_of_pos (decide_eq_true proper)
    rw [counted, ih]
    rfl
  | finish | fault => rfl

theorem size_ofText (text : List Char) : (ofText text).size = (TokenStream.ofText text).proper := by
  rw [← proper_stream, stream_ofText]

/-- The front of a feed behind some of its tokens is the element of its stream there. -/
theorem lasting?_stream (feed : Feed) (ordinal : Nat) :
    feed.stream.lasting? ordinal = some (Feed.next^[ordinal] feed).look := by
  induction feed generalizing ordinal with
  | finish place =>
    rw [next_iterate_finish]
    exact congrArg ([Except.ok (Token.endAt place)][·]?) (Nat.min_zero ordinal)
  | fault failure =>
    rw [next_iterate_fault]
    exact congrArg ([Except.error failure][·]?) (Nat.min_zero ordinal)
  | token first proper rest ih =>
    have listed : (token first proper rest).stream.elements =
        .ok first :: rest.stream.elements := rfl
    have more : 0 < rest.stream.elements.length := by
      have found := ih 0
      rw [TokenStream.lasting?, List.getElem?_eq_some_iff] at found
      exact Nat.lt_of_le_of_lt (Nat.zero_le _) found.1
    cases ordinal with
    | zero => rfl
    | succ ordinal =>
      have place : min (ordinal + 1) (rest.stream.elements.length + 1 - 1) =
          min ordinal (rest.stream.elements.length - 1) + 1 := by omega
      rw [TokenStream.lasting?, listed, List.length_cons, place, List.getElem?_cons_succ]
      exact ih ordinal

end Feed

/-! ## One request -/

namespace Cursor

/-- All that a look can do: find a token that was read before, fail to read one more,
or read one more and keep it. -/
theorem peek_cases (cursor : Cursor) :
    (∃ token, cursor.tokens[cursor.pointer]? = some token ∧ cursor.peek = (.ok token, cursor)) ∨
    (cursor.tokens.size ≤ cursor.pointer ∧
      ∃ failure, cursor.scanner.next = .error failure ∧ cursor.peek = (.error failure, cursor)) ∨
    (cursor.tokens.size ≤ cursor.pointer ∧
      ∃ token scanner, cursor.scanner.next = .ok (token, scanner) ∧
        cursor.peek =
          (.ok token, { cursor with tokens := cursor.tokens.push token, scanner })) := by
  cases cached : cursor.tokens[cursor.pointer]? with
  | some token => exact .inl ⟨token, rfl, by simp only [peek, cached]⟩
  | none =>
    have behind := Array.getElem?_eq_none_iff.1 cached
    cases read : cursor.scanner.next with
    | error failure => exact .inr (.inl ⟨behind, failure, rfl, by simp only [peek, cached, read]⟩)
    | ok result => exact .inr (.inr ⟨behind, _, _, rfl, by simp only [peek, cached, read]⟩)

/-- A cursor over a feed: from every ordinal up to which it has read, it shows what the
feed has there. -/
structure Reads (feed : Feed) (cursor : Cursor) : Prop where
  bounded : cursor.pointer ≤ cursor.tokens.size
  shown : ∀ pointer ≤ cursor.tokens.size,
    Shows { cursor with pointer } (Feed.next^[pointer] feed)

variable {feed : Feed} {cursor : Cursor}

theorem Reads.here (reads : cursor.Reads feed) :
    cursor.Shows (Feed.next^[cursor.pointer] feed) :=
  reads.shown cursor.pointer reads.bounded

theorem reads_ofText (text : List Char) : Reads (.ofText text) (.ofText text) where
  bounded := Nat.le_refl _
  shown := by
    intro pointer bound
    obtain rfl : pointer = 0 := Nat.le_zero.1 bound
    exact shows_ofText text

/-- Where a cursor stands among the ordinals it has read makes no difference. -/
theorem Reads.move (reads : cursor.Reads feed) {pointer : Nat}
    (bound : pointer ≤ cursor.tokens.size) : Reads feed { cursor with pointer } :=
  ⟨bound, reads.shown⟩

/-- Keeping one more token changes nothing at the ordinals before it, and behind it the
scanner goes on with the rest of the feed. -/
private theorem Reads.scan (reads : cursor.Reads feed) {token : Token} {scanner : Scanner}
    (read : cursor.scanner.next = .ok (token, scanner)) :
    Reads feed { cursor with tokens := cursor.tokens.push token, scanner } where
  bounded := by
    have := reads.bounded
    simp only [Array.size_push]
    omega
  shown := by
    intro pointer bound
    rw [Array.size_push] at bound
    rcases Nat.lt_or_eq_of_le bound with earlier | rfl
    · exact keeps_scanned read pointer _ (reads.shown pointer (Nat.le_of_lt_succ earlier))
    · have last := (reads.shown cursor.tokens.size (Nat.le_refl _)).2
      have nothing : cursor.tokens.toList.drop cursor.tokens.size = [] := by simp
      rw [nothing] at last
      refine ⟨by simp, ?_⟩
      have ended : (cursor.tokens.push token).toList.drop (cursor.tokens.size + 1) = [] := by simp
      rw [ended, Function.iterate_succ_apply',
        show Feed.next^[cursor.tokens.size] feed = _ from last, Feed.next_ofScanner read]
      rfl

/-- A look answers with what the feed has at the pointer, and afterwards the cursor has
read that far. -/
theorem Reads.peek (reads : cursor.Reads feed) :
    cursor.peek.1 = (Feed.next^[cursor.pointer] feed).look ∧ cursor.peek.2.Reads feed ∧
      cursor.peek.2.pointer = cursor.pointer ∧
      cursor.peek.2.tokens.size =
        max cursor.tokens.size (Exchange.reach (cursor.exchange .peek)) := by
  obtain ⟨after, looked, -⟩ := peek_shows reads.here
  refine ⟨by rw [looked], ?_⟩
  have within := reads.bounded
  unfold Exchange.reach exchange
  rcases cursor.peek_cases with ⟨token, cached, next⟩ | ⟨behind, failure, read, next⟩ |
    ⟨behind, token, scanner, read, next⟩
  · have known := (Array.getElem?_eq_some_iff.1 cached).1
    rw [next]
    exact ⟨reads, rfl, (Nat.max_eq_left known).symm⟩
  · rw [next]
    exact ⟨reads, rfl, (Nat.max_eq_left (Nat.zero_le _)).symm⟩
  · rw [next]
    refine ⟨reads.scan read, rfl, ?_⟩
    simp only [Array.size_push]
    omega

/-- Taking an element is a look, and a step unless the element closes the feed. -/
theorem advance_eq (cursor : Cursor) :
    cursor.advance = (cursor.peek.1,
      { cursor.peek.2 with pointer := cursor.peek.2.pointer + stride cursor.peek.1 }) := by
  unfold advance
  cases looked : cursor.peek with
  | mk answer after =>
    cases answer with
    | error failure => rfl
    | ok token =>
      simp only [stride]
      split <;> rfl

/-- After a look that answered with a token, the token is kept at the pointer. -/
theorem peek_keeps {token : Token} (answered : cursor.peek.1 = .ok token)
    (bounded : cursor.pointer ≤ cursor.tokens.size) :
    cursor.peek.2.tokens[cursor.pointer]? = some token := by
  rcases cursor.peek_cases with ⟨first, cached, next⟩ | ⟨behind, failure, read, next⟩ |
    ⟨behind, first, scanner, read, next⟩
  · rw [next] at answered ⊢
    cases answered
    exact cached
  · rw [next] at answered
    cases answered
  · rw [next] at answered ⊢
    cases answered
    have here : cursor.pointer = cursor.tokens.size := by omega
    simp [here]

theorem Reads.advance (reads : cursor.Reads feed) : cursor.advance.2.Reads feed := by
  obtain ⟨-, kept, -⟩ := reads.peek
  rw [advance_eq]
  refine kept.move ?_
  cases answered : cursor.peek.1 with
  | error failure => exact kept.bounded
  | ok token =>
    have known := peek_keeps answered reads.bounded
    have below := (Array.getElem?_eq_some_iff.1 known).1
    have same := reads.peek.2.2.1
    have short : stride (.ok token) ≤ 1 := by
      rw [stride]
      split
      · exact Nat.zero_le _
      · exact Nat.le_refl _
    omega

/-- One request keeps a cursor on its feed, and makes it hold as many tokens as the
exchange has reached. -/
theorem Reads.exchange (reads : cursor.Reads feed) (request : Request) :
    (cursor.exchange request).after.Reads feed ∧
      (cursor.exchange request).after.tokens.size =
        max cursor.tokens.size (cursor.exchange request).reach := by
  cases request with
  | peek => exact ⟨reads.peek.2.1, reads.peek.2.2.2⟩
  | advance =>
    refine ⟨reads.advance, ?_⟩
    have looked := reads.peek.2.2.2
    simp only [Cursor.exchange, Exchange.reach, advance_eq] at looked ⊢
    exact looked
  | pointer => exact ⟨reads, (Nat.max_eq_left (Nat.zero_le _)).symm⟩
  | restore ordinal =>
    simp only [Cursor.exchange, restore]
    by_cases known : ordinal ≤ cursor.tokens.size
    · simp only [if_pos known]
      exact ⟨reads.move known, (Nat.max_eq_left (Nat.zero_le _)).symm⟩
    · simp only [if_neg known]
      exact ⟨reads, (Nat.max_eq_left (Nat.zero_le _)).symm⟩

/-! ## Whole sessions -/

/-- A session keeps a cursor on its feed. The tokens held are counted along. -/
theorem Reads.session (reads : cursor.Reads feed) (requests : List Request) :
    (cursor.after requests).Reads feed ∧ (cursor.after requests).tokens.size =
      (cursor.session requests).foldl (fun highest exchange => max highest exchange.reach)
        cursor.tokens.size := by
  induction requests generalizing cursor with
  | nil => exact ⟨reads, rfl⟩
  | cons request requests ih =>
    obtain ⟨kept, size⟩ := reads.exchange request
    rw [Cursor.session, List.foldl_cons, ← size]
    exact ih kept

theorem reads_session (text : List Char) (requests : List Request) :
    Reads (.ofText text) ((Cursor.ofText text).after requests) :=
  ((reads_ofText text).session requests).1

/-- Whatever was asked before, a cursor answers the next request as a stream that was
read once does, and it holds the tokens up to the highest ordinal it has answered. -/
theorem session_refines_stream (text : List Char) (requests : List Request)
    (request : Request) :
    (((Cursor.ofText text).after requests).exchange request).Faithful (.ofText text)
      ((Cursor.ofText text).session requests) := by
  obtain ⟨reads, cached⟩ := (reads_ofText text).session requests
  generalize (Cursor.ofText text).after requests = cursor at reads cached
  generalize (Cursor.ofText text).session requests = earlier at cached
  have answer : (TokenStream.ofText text).lasting? cursor.pointer = some cursor.peek.1 := by
    rw [← Feed.stream_ofText, Feed.lasting?_stream, reads.peek.1]
  obtain ⟨kept, size⟩ := reads.exchange request
  refine ⟨?_, ⟨?_, kept.bounded⟩, ?_⟩
  · rw [exchange_before]
    exact ⟨cached, reads.bounded⟩
  · rw [size, cached]
    simp only [reached, List.foldl_append, List.foldl_cons, List.foldl_nil]
    rfl
  · rw [exchange_before, exchange_request]
    cases request with
    | peek => exact ⟨_, rfl, answer, reads.peek.2.2.1⟩
    | advance =>
      refine ⟨cursor.peek.1, by rw [Cursor.exchange, advance_eq], answer, ?_⟩
      simp only [Cursor.exchange, advance_eq, reads.peek.2.2.1]
    | pointer => exact ⟨rfl, rfl⟩
    | restore ordinal =>
      have same : reached earlier = cursor.tokens.size := cached.symm
      by_cases known : ordinal ≤ cursor.tokens.size
      · simp only [Cursor.exchange, restore, same, if_pos known, and_self]
      · simp only [Cursor.exchange, restore, same, if_neg known, and_self]

-- Going to the ordinal behind the end of input is granted, and the end is read once more there.
example : ((Cursor.ofText []).after [.peek, .restore 1, .peek]).tokens =
    #[.endAt .start, .endAt .start] := by decide

end Cursor

end SchemaLang
