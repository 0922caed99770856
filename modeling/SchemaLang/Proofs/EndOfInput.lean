import Mathlib.Data.List.Induction
import SchemaLang.Proofs.Session

/-! Where a cursor stands once it has seen the end of input. Taking tokens never leads
past the end, and looking finds it only once, but going back is granted up to the number of
tokens held, and this is one more than the ordinal of the end. A cursor that goes there
stands behind the end of input, and a further look keeps a second one. So the end of input
closes what a cursor holds exactly if no request to go back leads behind it. No request does
that leads to where the cursor has been. -/
namespace SchemaLang.Cursor

/-- The end of input, once a cursor has read it, stands last among its tokens, so that it
holds only one, and the cursor has not gone past it. -/
structure EndsOnce (cursor : Cursor) : Prop where
  last : ∀ ordinal token, cursor.tokens[ordinal]? = some token → token.kind = .endOfInput →
    cursor.tokens.size = ordinal + 1
  behind : ∀ ordinal token, cursor.tokens[ordinal]? = some token → token.kind = .endOfInput →
    cursor.pointer ≤ ordinal

/-- A cursor that has not left a feed: neither it nor what it has read goes beyond the one
element that closes the feed. -/
structure Stays (feed : Feed) (cursor : Cursor) : Prop where
  reads : cursor.Reads feed
  within : cursor.pointer ≤ feed.size
  cached : cursor.tokens.size ≤ feed.size + 1

variable {feed : Feed} {cursor after : Cursor} {ordinal : Nat} {token : Token}

/-- A token that is held is what the feed has at its ordinal. -/
theorem Reads.held (reads : cursor.Reads feed) (held : cursor.tokens[ordinal]? = some token) :
    (Feed.next^[ordinal] feed).look = .ok token := by
  have below := (Array.getElem?_eq_some_iff.1 held).1
  have looked := (reads.move (Nat.le_of_lt below)).peek.1
  simpa only [Cursor.peek, held] using looked.symm

/-- The end of input is found where the tokens of a feed are used up. -/
theorem Reads.held_iff (reads : cursor.Reads feed) (held : cursor.tokens[ordinal]? = some token) :
    token.kind = .endOfInput ↔ feed.size ≤ ordinal := by
  have looked := reads.held held
  have left := feed.size_next_iterate ordinal
  generalize Feed.next^[ordinal] feed = rest at looked left
  cases rest with
  | token first proper others =>
    cases looked
    refine ⟨fun ended => absurd ended proper, fun behind => ?_⟩
    rw [Feed.size] at left
    omega
  | finish place =>
    cases looked
    exact ⟨fun _ => Nat.le_of_sub_eq_zero left.symm, fun _ => rfl⟩
  | fault failure => cases looked

theorem Stays.endsOnce (stays : cursor.Stays feed) : cursor.EndsOnce := by
  have there : ∀ ordinal token, cursor.tokens[ordinal]? = some token → token.kind = .endOfInput →
      feed.size = ordinal ∧ cursor.tokens.size = ordinal + 1 := by
    intro ordinal token held ended
    have used := (stays.reads.held_iff held).1 ended
    have below := (Array.getElem?_eq_some_iff.1 held).1
    have cached := stays.cached
    omega
  exact ⟨fun ordinal token held ended => (there ordinal token held ended).2,
    fun ordinal token held ended => (there ordinal token held ended).1 ▸ stays.within⟩

/-! ## One request -/

/-- Taking a token from a feed is no step beyond its end. -/
theorem stride_look (feed : Feed) (ordinal : Nat) (within : ordinal ≤ feed.size) :
    ordinal + stride (Feed.next^[ordinal] feed).look ≤ feed.size := by
  have left := feed.size_next_iterate ordinal
  generalize Feed.next^[ordinal] feed = rest at left
  cases rest with
  | token first proper others =>
    rw [Feed.size] at left
    simp only [Feed.look, stride, if_neg proper]
    omega
  | finish | fault => exact within

/-- No request leads a cursor off its feed but one to go behind the end. -/
theorem Stays.exchange (stays : cursor.Stays feed) (request : Request)
    (bounded : ∀ ordinal after, request = .restore ordinal → cursor.restore ordinal = .ok after →
      ordinal ≤ feed.size) :
    (cursor.exchange request).after.Stays feed := by
  obtain ⟨reads, within, cached⟩ := stays
  obtain ⟨kept, size⟩ := reads.exchange request
  have reach : (cursor.exchange request).reach ≤ feed.size + 1 := by
    unfold Exchange.reach
    split
    · rw [exchange_before]
      exact Nat.succ_le_succ within
    · exact Nat.zero_le _
  refine ⟨kept, ?_, by omega⟩
  cases request with
  | peek => exact reads.peek.2.2.1 ▸ within
  | advance =>
    show cursor.advance.2.pointer ≤ feed.size
    rw [advance_eq, reads.peek.1, reads.peek.2.2.1]
    exact stride_look feed cursor.pointer within
  | pointer => exact within
  | restore ordinal =>
    cases granted : cursor.restore ordinal with
    | error fault => simpa only [Cursor.exchange, granted] using within
    | ok after =>
      have short := bounded ordinal after rfl granted
      unfold restore at granted
      split at granted
      · cases granted
        simpa only [Cursor.exchange, restore, if_pos ‹_›] using short
      · cases granted

/-- A cursor that is granted to go behind the end of input has read it, and passes it. -/
theorem not_endsOnce_of_restore (reads : cursor.Reads feed)
    (granted : cursor.restore ordinal = .ok after) (beyond : feed.size < ordinal) :
    ¬ after.EndsOnce := by
  unfold restore at granted
  split at granted
  · rename_i known
    cases granted
    intro once
    have held := Array.getElem?_eq_getElem (Nat.lt_of_lt_of_le beyond known)
    have ended := (reads.held_iff held).2 (Nat.le_refl _)
    exact absurd (once.behind _ _ held ended) (Nat.not_le.2 beyond)
  · cases granted

/-! ## Whole sessions -/

/-- A session stays on the text as long as no request to go back leads behind its end. -/
theorem stays_session {text : List Char} {requests : List Request}
    (bounded : ∀ earlier ordinal after, earlier ++ [.restore ordinal] <+: requests →
      ((ofText text).after earlier).restore ordinal = .ok after →
      ordinal ≤ (Feed.ofText text).size) :
    ((ofText text).after requests).Stays (.ofText text) := by
  induction requests using List.reverseRecOn with
  | nil => exact ⟨reads_ofText text, Nat.zero_le _, Nat.zero_le _⟩
  | append_singleton requests request ih =>
    have stays := ih fun earlier ordinal after asked =>
      bounded earlier ordinal after (asked.trans (List.prefix_append ..))
    rw [after_append]
    refine stays.exchange request fun ordinal after same granted => ?_
    subst same
    exact bounded requests ordinal after (List.prefix_refl _) granted

/-- The end of input closes what a cursor holds, and holds the cursor, all through a
session, exactly if no request to go back is granted that leads behind the end. -/
theorem endsOnce_iff (text : List Char) (requests : List Request) :
    (∀ earlier, earlier <+: requests → ((ofText text).after earlier).EndsOnce) ↔
      ∀ earlier ordinal after, earlier ++ [.restore ordinal] <+: requests →
        ((ofText text).after earlier).restore ordinal = .ok after →
        ordinal ≤ (TokenStream.ofText text).proper := by
  rw [← Feed.size_ofText]
  constructor
  · intro once earlier ordinal after asked granted
    by_contra beyond
    have passed := not_endsOnce_of_restore (reads_session text earlier) granted (Nat.not_le.1 beyond)
    have there : (ofText text).after (earlier ++ [.restore ordinal]) = after := by
      rw [after_append]
      show (Cursor.exchange _ _).after = after
      rw [Cursor.exchange, granted]
    exact passed (there ▸ once _ asked)
  · intro bounded earlier asked
    refine (stays_session fun before ordinal after within => ?_).endsOnce
    exact bounded before ordinal after (within.trans asked)

/-- A text without tokens, of which the end is looked at. Going to the ordinal behind the end,
where the cursor has never been, is not refused, and a further look keeps a second end. -/
theorem not_endsOnce_restored :
    let requests : List Request := [.peek, .restore 1, .peek]
    (∀ exchange ∈ (ofText []).session requests, ∀ fault, exchange.reply ≠ .refused fault) ∧
      ¬ ((ofText []).after [.peek, .restore 1]).EndsOnce ∧
      ¬ ((ofText []).after requests).EndsOnce := by
  intro requests
  refine ⟨?_, fun once => ?_, fun once => ?_⟩
  · intro exchange asked fault
    have replies : (ofText []).session requests = [
      ⟨⟨#[], 0, .ofText []⟩, .peek, .element (.ok (.endAt .start)),
        ⟨#[.endAt .start], 0, .ofText []⟩⟩,
      ⟨⟨#[.endAt .start], 0, .ofText []⟩, .restore 1, .restored,
        ⟨#[.endAt .start], 1, .ofText []⟩⟩,
      ⟨⟨#[.endAt .start], 1, .ofText []⟩, .peek, .element (.ok (.endAt .start)),
        ⟨#[.endAt .start, .endAt .start], 1, .ofText []⟩⟩] := rfl
    rw [replies] at asked
    simp only [List.mem_cons, List.not_mem_nil, or_false] at asked
    rcases asked with rfl | rfl | rfl <;> rintro ⟨⟩
  · exact absurd (once.behind 0 (.endAt .start) rfl rfl) (by decide)
  · exact absurd (once.last 0 (.endAt .start) rfl rfl) (by decide)

/-- A session that only goes back to where the cursor has been stays on its text. -/
theorem endsOnce_of_visited {text : List Char} {requests : List Request}
    (visited : ∀ earlier ordinal, earlier ++ [.restore ordinal] <+: requests →
      ∃ before, before <+: earlier ∧ ((ofText text).after before).pointer = ordinal) :
    ((ofText text).after requests).EndsOnce := by
  have all : ∀ earlier, earlier <+: requests →
      ((ofText text).after earlier).Stays (.ofText text) := by
    induction requests using List.reverseRecOn with
    | nil =>
      intro earlier asked
      obtain rfl := List.prefix_nil.1 asked
      exact ⟨reads_ofText text, Nat.zero_le _, Nat.zero_le _⟩
    | append_singleton requests request ih =>
      have stays := ih fun earlier ordinal asked =>
        visited earlier ordinal (asked.trans (List.prefix_append ..))
      intro earlier asked
      rcases List.prefix_concat_iff.1 asked with rfl | sooner
      · rw [after_append]
        refine (stays requests (List.prefix_refl _)).exchange request ?_
        rintro ordinal after rfl -
        obtain ⟨before, passed, rfl⟩ := visited requests ordinal (List.prefix_refl _)
        exact (stays before passed).within
      · exact stays earlier sooner
  exact (all requests (List.prefix_refl _)).endsOnce

end SchemaLang.Cursor
