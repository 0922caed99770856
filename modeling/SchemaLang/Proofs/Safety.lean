import SchemaLang.Proofs.Failures
import SchemaLang.Proofs.Placement
import SchemaLang.Proofs.Rollback

/-! A parse is safe. Every text is read to a tree or to a failure: what the grammar
repeats takes a token each time, and calls are not followed past their limit. On the way
nothing is asked for that is not there. Going back is always granted, a token that is
looked up has been read, every part that is cut out of the text begins and ends between
two of its characters, and no counter leaves its word, as long as the text has fewer
than half as many bytes as a word can count. -/
namespace SchemaLang

variable {κ : Type} {Γ : κ → Type} {α : Type}

/-! ## Cursors -/

namespace Cursor

/-- A cursor that works on a text: the tokens it holds stand inside the text, and so does
its scanner. -/
structure Placed (text : List Char) (cursor : Cursor) : Prop where
  scanner : cursor.scanner.At text
  tokens : ∀ token ∈ cursor.tokens, token.Within text

/-- An exchange in which nothing is out of range. -/
structure Exchange.Safe (text : List Char) (exchange : Exchange) : Prop where
  /-- Going back is granted. -/
  granted : ∀ fault, exchange.reply ≠ .refused fault
  /-- The pointer is the index of a token that was read, or of the next one to read. -/
  bounded : exchange.before.pointer ≤ exchange.before.tokens.size
  /-- A token that is answered is found at the pointer. -/
  found : ∀ token, exchange.reply = .element (.ok token) →
    exchange.after.tokens[exchange.before.pointer]? = some token
  /-- Where taking a token moves the pointer, there is room for it in a word. -/
  counted : exchange.request = .advance → exchange.after.pointer = exchange.before.pointer ∨
    Position.add? exchange.before.pointer 1 = some exchange.after.pointer
  /-- Reading one more token is safe. -/
  scanned : exchange.before.scanner.Safe text
  /-- All tokens that are held stand inside the text. -/
  tokens : ∀ token ∈ exchange.after.tokens, token.Within text
  /-- A character that begins no lexeme stands inside the text. -/
  failure : ∀ failure, exchange.reply = .element (.error failure) → failure.position.Within text

variable {text : List Char} {cursor : Cursor}

theorem placed_ofText (text : List Char) : (ofText text).Placed text :=
  ⟨Scanner.at_ofText text, nofun⟩

theorem Placed.peek (placed : cursor.Placed text) :
    cursor.peek.2.Placed text ∧
      ∀ failure, cursor.peek.1 = .error failure → failure.position.Within text := by
  rcases cursor.peek_cases with ⟨token, -, next⟩ | ⟨-, failure, read, next⟩ |
    ⟨-, token, scanner, read, next⟩
  · rw [next]
    exact ⟨placed, nofun⟩
  · rw [next]
    refine ⟨placed, ?_⟩
    rintro _ ⟨⟩
    exact placed.scanner.next.2 failure read
  · rw [next]
    obtain ⟨behind, within⟩ := placed.scanner.next.1 token scanner read
    refine ⟨⟨behind, fun other found => ?_⟩, nofun⟩
    rcases Array.mem_push.1 found with held | rfl
    · exact placed.tokens other held
    · exact within

theorem Placed.exchange (placed : cursor.Placed text) (request : Request) :
    (cursor.exchange request).after.Placed text := by
  cases request with
  | peek => exact placed.peek.1
  | advance =>
    show cursor.advance.2.Placed text
    rw [advance_eq]
    exact ⟨placed.peek.1.scanner, placed.peek.1.tokens⟩
  | pointer => exact placed
  | restore ordinal =>
    simp only [Cursor.exchange, restore]
    by_cases known : ordinal ≤ cursor.tokens.size
    · simp only [if_pos known]
      exact ⟨placed.scanner, placed.tokens⟩
    · simp only [if_neg known]
      exact placed

theorem Placed.after (placed : cursor.Placed text) (requests : List Request) :
    (cursor.after requests).Placed text := by
  induction requests generalizing cursor with
  | nil => exact placed
  | cons request requests ih => exact ih (placed.exchange request)

/-- Every exchange of a session is the answer of a cursor that an earlier session leads
to. -/
theorem exists_of_mem_session {exchange : Exchange} {requests : List Request}
    (found : exchange ∈ cursor.session requests) :
    ∃ earlier request, exchange = (cursor.after earlier).exchange request := by
  induction requests generalizing cursor with
  | nil => cases found
  | cons request requests ih =>
    rcases List.mem_cons.1 found with rfl | later
    · exact ⟨[], request, rfl⟩
    · obtain ⟨earlier, request', same⟩ := ih later
      exact ⟨request :: earlier, request', same⟩

/-- A pointer moves past tokens only, and a text has no more of them than bytes. -/
theorem Reads.advance_pointer (reads : cursor.Reads (.ofText text))
    (small : Position.byteLength text + 1 < Position.wordLimit) :
    cursor.advance.2.pointer = cursor.pointer ∨
      Position.add? cursor.pointer 1 = some cursor.advance.2.pointer := by
  obtain ⟨answered, -, stays, -⟩ := reads.peek
  rw [advance_eq, stays]
  cases looked : cursor.peek.1 with
  | error failure => exact .inl rfl
  | ok token =>
    rw [looked] at answered
    simp only [stride]
    split
    · exact .inl rfl
    · rename_i more
      have left := Feed.size_next answered.symm more
      rw [Feed.size_next_iterate] at left
      have tokens : (Feed.ofText text).size ≤ text.length := Feed.size_ofScanner_le (.ofText text)
      have bytes := Position.length_le_byteLength text
      exact .inr (if_pos (by omega))

/-- An element is answered by a look, and the tokens that it read are kept. -/
theorem peek_of_element {request : Request} {answer : Except LexError Token}
    (replied : (cursor.exchange request).reply = .element answer) :
    cursor.peek.1 = answer ∧ (cursor.exchange request).after.tokens = cursor.peek.2.tokens := by
  cases request with
  | peek => exact ⟨Reply.element.inj replied, rfl⟩
  | advance =>
    rw [Cursor.exchange, advance_eq] at replied ⊢
    exact ⟨Reply.element.inj replied, rfl⟩
  | pointer => cases replied
  | restore ordinal =>
    simp only [Cursor.exchange] at replied
    split at replied <;> cases replied

/-- Whatever was asked before, a request that is not refused is safe. -/
theorem exchange_safe (small : Position.byteLength text + 1 < Position.wordLimit)
    (requests : List Request) (request : Request)
    (granted : ∀ fault, (((ofText text).after requests).exchange request).reply ≠ .refused fault) :
    (((ofText text).after requests).exchange request).Safe text := by
  have reads := reads_session text requests
  have placed := (placed_ofText text).after requests
  generalize (ofText text).after requests = cursor at granted reads placed
  refine ⟨granted, ?_, ?_, ?_, ?_, (placed.exchange request).tokens, ?_⟩
  · rw [exchange_before]
    exact reads.bounded
  · intro token replied
    obtain ⟨answered, kept⟩ := peek_of_element replied
    rw [exchange_before, kept]
    exact peek_keeps answered reads.bounded
  · intro taken
    rw [exchange_request] at taken
    rw [taken, exchange_before]
    exact reads.advance_pointer small
  · rw [exchange_before]
    exact placed.scanner.safe small
  · intro failure replied
    exact placed.peek.2 failure (peek_of_element replied).1

end Cursor

/-! ## Rules -/

namespace Rule

/-- Every request in a run of a rule is safe. -/
theorem trace_safe (grammar : Grammar Γ) (rule : Rule Γ α) {text : List Char}
    (small : Position.byteLength text + 1 < Position.wordLimit) {state : ParserState}
    (reachable : state.Reachable text) (budget : Nat) {exchange : Cursor.Exchange}
    (asked : .exchange exchange ∈ (rule.trace grammar budget state).1) : exchange.Safe text := by
  have orderly := rule.trace_orderly grammar (fun _ => True) (fun _ _ _ _ _ => trivial)
    (fun _ _ _ _ => trivial) budget state
  obtain ⟨earlier, here⟩ := reachable
  obtain ⟨requests, listed, -⟩ := orderly.asked
  have granted : ∀ fault, exchange.reply ≠ .refused fault := by
    intro fault refused
    obtain ⟨after, ended⟩ := orderly.refused exchange fault asked refused
    rw [rule.trace_mirrors grammar budget state] at ended
    exact rule.parse_placed grammar ⟨earlier, here⟩ budget fault after ended
  rw [← Traced.mem_exchanges, listed, here] at asked
  obtain ⟨further, request, rfl⟩ := Cursor.exists_of_mem_session asked
  rw [← Cursor.after_append] at granted ⊢
  exact Cursor.exchange_safe small _ request granted

/-- A rule that matches moves the cursor by the least number of tokens it takes, or
further. -/
theorem parse_takes (grammar : Grammar Γ) (names : κ → Nat)
    (kept : ∀ name, names name ≤ (grammar name).least names) (rule : Rule Γ α)
    {text : List Char} {state after : ParserState} (reachable : state.Reachable text)
    {budget : Nat} {value : α} (ran : rule.parse grammar budget state = .ok value after) :
    state.cursor.pointer + rule.least names ≤ after.cursor.pointer := by
  have tracked := (rule.parse_rewinds grammar budget).follows state _ reachable.shows
  rw [ran] at tracked
  obtain ⟨rest, read, reached⟩ := tracked
  have spends := rule.reader_spends grammar names kept budget state.depth
    (Feed.next^[state.cursor.pointer] (.ofText text))
  rw [read] at spends
  have taken : rest.size + rule.least names ≤ _ := spends
  have moved := reached.moved
  omega

end Rule

/-! ## Parses -/

namespace Schema

/-- Every rule that the grammar repeats takes a token at least, values included. -/
theorem one_le_least_repeated :
    ∀ part ∈ document.repeated ++ (grammar ()).repeated, 1 ≤ part.2.least fun _ => 1 := by
  have all : (document.repeated ++ (grammar ()).repeated).all
      (fun part => decide (1 ≤ part.2.least fun _ => 1)) = true := rfl
  intro part found
  exact of_decide_eq_true (List.all_eq_true.1 all part found)

/-- Levels are opened for argument lists only, up to their limit. -/
theorem limits_eq : document.limits = [maxCallDepth] ∧ (grammar ()).limits = [maxCallDepth] :=
  ⟨rfl, rfl⟩

end Schema

namespace Document

/-- The run of the grammar on a text, on record. -/
def trace (source : String) (budget : Nat) :
    List Event × EStateM.Result Halt ParserState Document :=
  Schema.document.trace Schema.grammar budget (.ofText source.toList)

/-- A run on a text that ends, and in which nothing is out of range. -/
structure Safe (source : String) (budget : Nat) : Prop where
  /-- What is on record is what the grammar does. -/
  recorded : (trace source budget).2 =
    Schema.document.parse Schema.grammar budget (.ofText source.toList)
  /-- The run comes to a tree or to a failure, which stands inside the text, and the
  parse answers with it. -/
  ended :
    (∃ document after, (trace source budget).2 = .ok document after ∧
      parse source = .ok document ∧ ∀ span ∈ document.spans, span.Within source.toList) ∨
    ∃ error after, (trace source budget).2 = .error (.failed error) after ∧
      parse source = .error error ∧ error.position.Within source.toList
  /-- What the grammar repeats takes a token at least, wherever it matches. -/
  progress : ∀ part ∈ Schema.document.repeated ++ (Schema.grammar ()).repeated,
    ∀ state steps value after, ParserState.Reachable source.toList state →
      part.2.parse Schema.grammar steps state = .ok value after →
      state.cursor.pointer < after.cursor.pointer
  /-- No more argument lists are open at once than are allowed. -/
  levels : ∀ state, .enter state ∈ (trace source budget).1 → state.depth ≤ Schema.maxCallDepth
  /-- Every request to the cursor is safe. -/
  exchanges : ∀ exchange, .exchange exchange ∈ (trace source budget).1 →
    exchange.Safe source.toList

/-- With steps enough, a run comes to what the parse answers. -/
private theorem ended_of_budget (source : String) {budget : Nat}
    (enough : parseBudget source.toList ≤ budget) :
    (∃ document after,
      Schema.document.parse Schema.grammar budget (.ofText source.toList) = .ok document after ∧
        parse source = .ok document ∧ ∀ span ∈ document.spans, span.Within source.toList) ∨
    ∃ error after,
      Schema.document.parse Schema.grammar budget (.ofText source.toList) =
          .error (.failed error) after ∧
        parse source = .error error ∧ error.position.Within source.toList := by
  have parsed := parse_of_budget source enough
  have within := Schema.document_within source.toList budget
  have ran := Rule.parse_ofText Schema.grammar budget Schema.document source.toList
  unfold Schema.reads at parsed
  cases read : Schema.document.reader Schema.grammar budget 0 (.ofText source.toList) with
  | value document rest =>
    rw [read] at parsed within ran
    obtain ⟨after, ran⟩ := ran
    exact .inl ⟨document, after, ran, parsed, within⟩
  | failure error =>
    rw [read] at parsed within ran
    obtain ⟨after, ran⟩ := ran
    exact .inr ⟨error, after, ran, parsed, within⟩
  | exhausted =>
    rw [read] at parsed
    exact parsed.elim

/-- Parsing is total and safe for every text that is not too long: with the steps that a
parse is given, or any more, the run ends and nothing in it is out of range. -/
theorem parse_safe (source : String)
    (small : Position.byteLength source.toList ≤ Nat.pow 2 63 - 1) {budget : Nat}
    (enough : parseBudget source.toList ≤ budget) : Safe source budget := by
  have half : Position.wordLimit = 2 * Nat.pow 2 63 := rfl
  have room : Position.byteLength source.toList + 1 < Position.wordLimit := by
    have positive : 0 < Nat.pow 2 63 := by decide
    omega
  have mirrors := Schema.document.trace_mirrors Schema.grammar budget (.ofText source.toList)
  have orderly := Schema.document.trace_orderly Schema.grammar (· ≤ Schema.maxCallDepth)
    (by
      rintro ⟨⟩ limit found depth below
      rw [Schema.limits_eq.2] at found
      cases List.mem_singleton.1 found
      exact below)
    (by
      intro limit found depth below
      rw [Schema.limits_eq.1] at found
      cases List.mem_singleton.1 found
      exact below)
    budget (.ofText source.toList)
  refine ⟨mirrors, ?_, ?_, orderly.levels (Nat.zero_le _), ?_⟩
  · rw [trace, mirrors]
    exact ended_of_budget source enough
  · intro part found state steps value after reachable ran
    have least := Schema.one_le_least_repeated part found
    have taken := Rule.parse_takes Schema.grammar (fun _ => 1) (fun _ => Nat.le_refl _) part.2
      reachable ran
    omega
  · intro exchange asked
    exact Schema.document.trace_safe Schema.grammar room ⟨[], rfl⟩ budget asked

/-- A text with nested calls and with characters of several bytes. -/
theorem parse_safe_call :
    Position.byteLength "generator g \x7b\n  a = f(\"é\", g())\n\x7d".toList ≤ Nat.pow 2 63 - 1 ∧
      Safe "generator g \x7b\n  a = f(\"é\", g())\n\x7d"
        (parseBudget "generator g \x7b\n  a = f(\"é\", g())\n\x7d".toList) := by
  have small : Position.byteLength "generator g \x7b\n  a = f(\"é\", g())\n\x7d".toList ≤
      Nat.pow 2 63 - 1 := by decide +kernel
  exact ⟨small, parse_safe _ small (Nat.le_refl _)⟩

end Document

end SchemaLang
