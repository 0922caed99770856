import SchemaLang.Proofs.Verdict

/-! Readings of values. A call is tried before anything else, its arguments are a
list that may stop anywhere, and a name that begins no call may still be a truth
value. None of these attempts reads a sentence differently from the way the
language has it: every reading of a value fits the verdict on its feed. -/
namespace SchemaLang.Schema

open Expectation Phrase

/-- Reads a rule of the schema grammar. -/
abbrev reads {α : Type} (budget : Nat) (rule : SchemaRule α) : Reader α :=
  rule.reader grammar budget

/-- A value as a phrase. -/
def ValuePhrase (before : List Terminal) (value : Expression) (after : List Terminal) : Prop :=
  Value before (value.mapSpans unplaced) after

/-- An argument list as a phrase, its last token left aside. -/
def ArgumentsPhrase (before : List Terminal) (result : List Expression × Token)
    (after : List Terminal) : Prop :=
  Arguments before (Expression.mapSpansList unplaced result.1) after

/-- The rest of an argument list, behind one of its values. -/
def TailPhrase (before : List Terminal) (result : List Expression × Token)
    (after : List Terminal) : Prop :=
  before = .rightParen :: after ∧ result.1 = [] ∨
    ∃ rest, before = .comma :: rest ∧
      Values rest (Expression.mapSpansList unplaced result.1) (.rightParen :: after)

theorem ValuePhrase.values {before rest after : List Terminal} {value : Expression}
    {result : List Expression × Token} (first : ValuePhrase before value rest)
    (tail : TailPhrase rest result after) :
    Values before (Expression.mapSpansList unplaced (value :: result.1)) (.rightParen :: after) := by
  obtain ⟨values, close⟩ := result
  rcases tail with ⟨rfl, rfl⟩ | ⟨others, rfl, listed⟩
  · exact .one first
  · exact .more first listed

/-- Values up to the closing parenthesis. -/
def closed (listed : Reader (List Expression)) : Reader (List Expression × Token) :=
  fun depth feed => (listed depth feed).andThen fun values rest =>
    (Reader.token .rightParen depth rest).map fun close => (values, close)

private theorem unclosed {depth : Nat} {feed : Feed} {terminal : Terminal}
    (front : feed.head? = some terminal) (other : terminal ≠ .rightParen)
    (values : List Expression) :
    ((Reader.token .rightParen depth feed).map fun close => (values, close)).Missed := by
  have different : terminal.kind ≠ .rightParen := fun same =>
    other (Terminal.eq_of_kind same (by simp))
  exact (Reader.token_missed front different depth).map _

private theorem closed_nothing {listed : Reader (List Expression)} {depth : Nat} {feed : Feed}
    {terminal : Terminal} (read : listed depth feed = .value [] feed)
    (front : feed.head? = some terminal) (other : terminal ≠ .rightParen) :
    (closed listed depth feed).Missed := by
  rw [closed, read]
  exact unclosed front other []

private theorem closed_empty {listed : Reader (List Expression)} {depth : Nat} {first : Token}
    {proper : first.kind ≠ .endOfInput} {rest : Feed}
    (read : listed depth (.token first proper rest) = .value [] (.token first proper rest))
    (closing : first.terminal = .rightParen) :
    closed listed depth (.token first proper rest) = .value ([], first) rest := by
  have kind : first.kind = .rightParen := Token.kind_of_terminal closing
  simp [closed, read, Reading.andThen, Reader.token_taken kind, Reading.map]

/-- The first value may be put in front of a closed list as well as of an open one. -/
private theorem closed_cons (listed : Reader (List Expression)) (value : Expression) (depth : Nat)
    (feed : Feed) :
    (((listed depth feed).map (value :: ·)).andThen fun values rest =>
      (Reader.token .rightParen depth rest).map fun close => (values, close)) =
      (closed listed depth feed).map fun (values, close) => (value :: values, close) := by
  unfold closed
  cases listed depth feed with
  | value values rest =>
    simp only [Reading.map, Reading.andThen]
    cases Reader.token .rightParen depth rest <;> rfl
  | failure error => rfl
  | exhausted => rfl

section

variable {element : Reader Expression} {host : Host} {opened limit : Nat}

theorem separatedTail_none {depth : Nat} {feed : Feed} {terminal : Terminal}
    (front : feed.head? = some terminal) (other : terminal ≠ .comma) (rounds : Nat) :
    Reader.separatedTail element (Reader.token .comma) (rounds + 1) depth feed =
      .value [] feed := by
  have different : terminal.kind ≠ .comma := fun same =>
    other (Terminal.eq_of_kind same (by simp))
  obtain ⟨error, refused, soft⟩ := Reader.token_missed front different depth
  simp [Reader.separatedTail, refused, Reading.andThen, Reading.resolve, soft]

private theorem separatedTail_strayed {depth rounds : Nat} {feed : Feed}
    (paren : feed.head? = some .leftParen) (enough : 0 < rounds) :
    (closed (Reader.separatedTail element (Reader.token .comma) rounds) depth feed).Missed := by
  obtain ⟨rounds, rfl⟩ := Nat.exists_eq_add_one.2 enough
  exact closed_nothing (separatedTail_none paren (by simp) rounds) paren (by simp)

/-- Behind a value of a list, the readings of all that is left of the list fit. -/
theorem separatedTail_fits (room : opened < maxCallDepth)
    (fits : ∀ feed : Feed, feed.size ≤ limit → (element (opened + 1) feed).Fits feed
      ((Expectation.value host (opened + 1)).verdict feed) (argumentEnd host opened) ValuePhrase)
    (rounds : Nat) (feed : Feed) (short : feed.size ≤ limit) (enough : feed.size < rounds) :
    (closed (Reader.separatedTail element (Reader.token .comma) rounds) (opened + 1) feed).Fits feed
      ((argumentEnd host opened).verdict feed) (resume host opened) TailPhrase := by
  induction rounds generalizing feed with
  | zero => omega
  | succ rounds ih =>
    cases feed with
    | fault failure => exact Reading.fits_fault
    | finish place =>
      have front : (Feed.finish place).head? = some .endOfInput := rfl
      rw [verdict_stuck front rfl]
      exact (closed_nothing (separatedTail_none front (by simp) rounds) front (by simp)).fits
    | token first proper rest =>
      have front : (Feed.token first proper rest).head? = some first.terminal := rfl
      simp only [Feed.size] at short enough
      by_cases comma : first.terminal = .comma
      · have kind : first.kind = .comma := Token.kind_of_terminal comma
        have stepped : (argumentEnd host opened).step first.terminal =
            some (.value host (opened + 1)) := by rw [comma]; rfl
        rw [verdict_step stepped room]
        unfold closed
        rw [Reader.separatedTail, Reader.token_taken kind, Reading.andThen, Reading.resolve_andThen]
        refine (fits rest (by omega)).resolve ?_ ?_ ?_
        · intro value after shorter said same
          rw [closed_cons, same]
          refine (ih after (by omega) (by omega)).map (by simp only [Feed.size]; omega) ?_
          intro result behind tail
          exact .inr ⟨rest.terminals, by rw [Feed.terminals, comma], said.values tail⟩
        · intro value after shorter paren _
          rw [closed_cons]
          exact ((separatedTail_strayed paren (by omega)).map _).fits
        · intro _ _ _ _
          exact (unclosed front (by simp [comma]) []).fits
      · have read : Reader.separatedTail element (Reader.token .comma) (rounds + 1) (opened + 1)
            (.token first proper rest) = .value [] (.token first proper rest) :=
          separatedTail_none front comma rounds
        by_cases closing : first.terminal = .rightParen
        · have stepped : (argumentEnd host opened).step first.terminal =
            some (resume host opened) := by rw [closing]; rfl
          rw [closed_empty read closing, verdict_step stepped (by rw [opened_resume]; omega)]
          exact ⟨Nat.lt_succ_self _, .inl ⟨.inl ⟨by rw [Feed.terminals, closing], rfl⟩, rfl⟩⟩
        · have blocked : (argumentEnd host opened).step first.terminal = none := by
            cases h : first.terminal <;> simp_all [step, stepArgumentEnd]
          rw [verdict_stuck front blocked]
          exact (closed_nothing read front closing).fits

/-- Behind an opening parenthesis, the readings of the whole list fit. -/
theorem separated_fits (room : opened < maxCallDepth)
    (fits : ∀ feed : Feed, feed.size ≤ limit → (element (opened + 1) feed).Fits feed
      ((Expectation.value host (opened + 1)).verdict feed) (argumentEnd host opened) ValuePhrase)
    (misses : ∀ feed : Feed, feed.head? = some .rightParen → (element (opened + 1) feed).Missed)
    (rounds : Nat) (feed : Feed) (short : feed.size ≤ limit) (enough : feed.size < rounds) :
    (closed (Reader.separated element (Reader.token .comma) rounds) (opened + 1) feed).Fits feed
      ((firstArgument host opened).verdict feed) (resume host opened)
      fun before => ArgumentsPhrase (.leftParen :: before) := by
  by_cases closing : feed.head? = some .rightParen
  · obtain ⟨error, soft, read⟩ := (misses feed closing).resolve
      (fun first rest => (Reader.separatedTail element (Reader.token .comma) rounds (opened + 1)
        rest).map (first :: ·)) fun _ => .value [] feed
    cases feed with
    | token first proper rest =>
      have ended : first.terminal = .rightParen := Option.some.inj closing
      have stepped : (firstArgument host opened).step first.terminal =
          some (resume host opened) := by rw [ended]; rfl
      rw [closed_empty read ended, verdict_step stepped (by rw [opened_resume]; omega)]
      refine ⟨Nat.lt_succ_self _, .inl ⟨?_, rfl⟩⟩
      rw [Feed.terminals, ended]
      exact .none
    | finish place => cases closing
    | fault failure => cases closing
  · have same : (firstArgument host opened).verdict feed =
        (Expectation.value host (opened + 1)).verdict feed :=
      verdict_congr fun terminal front =>
        stepFirstArgument_eq host opened fun ended => closing (by rw [front, ended])
    rw [same]
    unfold closed Reader.separated
    rw [Reading.resolve_andThen]
    refine (fits feed short).resolve ?_ ?_ ?_
    · intro value rest shorter said same
      rw [closed_cons, same]
      refine (separatedTail_fits room fits rounds rest (by omega) (by omega)).map (by omega) ?_
      exact fun result after tail => .some (said.values tail)
    · intro value rest shorter paren _
      rw [closed_cons]
      exact ((separatedTail_strayed paren (by omega)).map _).fits
    · intro _ _ _ stuck
      obtain ⟨terminal, front⟩ := head?_of_stuck stuck
      exact (unclosed front (fun ended => closing (by rw [front, ended])) []).fits

end

/-! ## Rules -/

/-- The readings of values at some level fit, on feeds up to a size. -/
structure ValuesFit (budget depth limit : Nat) : Prop where
  enough : limit + 9 ≤ budget
  fits : ∀ (host : Host) (feed : Feed), feed.size ≤ limit →
    (reads budget expression depth feed).Fits feed
      ((Expectation.value host depth).verdict feed) (resume host depth) ValuePhrase

theorem ValuesFit.smaller {budget depth limit size : Nat} (fit : ValuesFit budget depth limit)
    (small : size ≤ limit) : ValuesFit budget depth size :=
  ⟨Nat.le_trans (Nat.add_le_add_right small 9) fit.enough,
    fun host feed short => fit.fits host feed (Nat.le_trans short small)⟩

theorem arguments_eq (budget depth : Nat) (feed : Feed) :
    reads (budget + 6) arguments depth feed =
      ((Reader.token .leftParen depth feed).andThen fun first rest =>
        (Reader.nested maxCallDepth
          (closed (Reader.separated (reads budget expression) (Reader.token .comma) (budget + 1)))
          depth rest).map fun result => (first, result)).map Prod.snd := rfl

theorem arguments_missed {feed : Feed} {terminal : Terminal}
    (front : feed.head? = some terminal) (other : terminal ≠ .leftParen) (budget depth : Nat) :
    (reads (budget + 6) arguments depth feed).Missed := by
  have different : terminal.kind ≠ .leftParen := fun same =>
    other (Terminal.eq_of_kind same (by simp))
  rw [arguments_eq]
  exact ((Reader.token_missed front different depth).andThen _).map _

theorem string_takes (budget : Nat) :
    (reads (budget + 2) string).Takes .string fun first =>
      .string (.ofList (Literal.read first.text.toList)) first.span :=
  (Reader.token_takes .string).map _

theorem identifier_takes (budget : Nat) :
    (reads (budget + 2) identifier).Takes .identifier fun first => ⟨first.text, first.span⟩ :=
  (Reader.token_takes .identifier).map _

theorem boolean_eq (budget depth : Nat) (feed : Feed) :
    reads (budget + 3) boolean depth feed =
      (Reader.choice "Expected boolean value" [Reader.keyword "true", Reader.keyword "false"]
        depth feed).map fun token => .boolean (token.text == "true") token.span := rfl

theorem boolean_missed {feed : Feed} {terminal : Terminal}
    (front : feed.head? = some terminal)
    (other : ∀ name, terminal = .identifier name → isTruth name = false) (budget depth : Nat) :
    (reads (budget + 3) boolean depth feed).Missed := by
  have yes : terminal ≠ .identifier "true" := fun same => nomatch other _ same
  have no : terminal ≠ .identifier "false" := fun same => nomatch other _ same
  rw [boolean_eq]
  refine (Reader.choice_missed front ?_ _).map _
  simp only [List.forall_mem_cons, List.not_mem_nil, false_implies, implies_true, and_true]
  exact ⟨Reader.keyword_missed front yes depth, Reader.keyword_missed front no depth⟩

/-- A truth value alone takes one token. -/
theorem boolean_taken {first : Token} {name : String} (same : first.terminal = .identifier name)
    (truth : isTruth name = true) (proper : first.kind ≠ .endOfInput) (rest : Feed)
    (budget depth : Nat) :
    reads (budget + 3) boolean depth (.token first proper rest) =
      .value (.boolean (name == "true") first.span) rest := by
  have front : (Feed.token first proper rest).head? = some (.identifier name) := congrArg some same
  have read := Reader.keyword_taken same depth proper rest
  have text : first.text = name := (Token.terminal_identifier.1 same).2
  have chosen : Reader.choice "Expected boolean value"
      [Reader.keyword "true", Reader.keyword "false"] depth (.token first proper rest) =
      .value first rest := by
    rcases isTruth_iff.1 truth with rfl | rfl
    · exact Reader.choice_value [] front (List.forall_mem_nil _) read _ _
    · have different : Terminal.identifier "false" ≠ .identifier "true" := by simp
      exact Reader.choice_value [Reader.keyword "true"] front
        (List.forall_mem_singleton.2 (Reader.keyword_missed front different depth)) read _ _
  rw [boolean_eq, chosen, Reading.map, text]

theorem call_eq (budget depth : Nat) (feed : Feed) :
    reads (budget + 8) call depth feed =
      ((reads (budget + 6) identifier depth feed).andThen fun name rest =>
        (reads (budget + 6) arguments depth rest).map fun result => (name, result)).map
          fun (name, values, close) => .call name values ⟨name.span.start, close.stop⟩ := rfl

theorem call_missed {feed : Feed} {terminal : Terminal} (front : feed.head? = some terminal)
    (other : terminal.kind ≠ .identifier) (budget depth : Nat) :
    (reads (budget + 8) call depth feed).Missed := by
  rw [call_eq]
  exact (((identifier_takes _).missed depth front other).andThen _).map _

theorem expression_eq (budget depth : Nat) (feed : Feed) :
    reads (budget + 9) expression depth feed =
      Reader.choice "Expected expression"
        [reads (budget + 8) call, reads (budget + 8) string, reads (budget + 8) boolean]
        depth feed := rfl

/-- A literal is a value, whatever stands behind it. -/
theorem expression_string {first : Token} (quoted : first.kind = .string)
    (proper : first.kind ≠ .endOfInput) (rest : Feed) (budget depth : Nat) :
    reads (budget + 9) expression depth (.token first proper rest) =
      .value (.string (.ofList (Literal.read first.text.toList)) first.span) rest := by
  have front : (Feed.token first proper rest).head? = some first.terminal := rfl
  have missed := call_missed front (by rw [Token.kind_terminal, quoted]; simp) budget depth
  have chosen := Reader.choice_value [reads (budget + 8) call] front
    (List.forall_mem_singleton.2 missed)
    ((string_takes (budget + 6)).taken depth proper rest quoted)
    "Expected expression" [reads (budget + 8) boolean]
  rw [List.singleton_append] at chosen
  rw [expression_eq, chosen]

theorem expression_missed {feed : Feed} {terminal : Terminal}
    (front : feed.head? = some terminal) (name : terminal.kind ≠ .identifier)
    (text : terminal.kind ≠ .string) (budget depth : Nat) :
    (reads (budget + 9) expression depth feed).Missed := by
  rw [expression_eq]
  refine Reader.choice_missed front ?_ _
  simp only [List.forall_mem_cons, List.not_mem_nil, false_implies, implies_true, and_true]
  refine ⟨call_missed front name budget depth, (string_takes _).missed depth front text,
    boolean_missed front ?_ _ depth⟩
  rintro _ rfl
  exact absurd rfl name

/-- Where an argument list may begin and no other terminal stands, its readings fit. -/
theorem arguments_fits {expectation : Expectation} {host : Host} {depth budget : Nat} {feed : Feed}
    (stepped : expectation.step .leftParen = some (firstArgument host depth))
    (front : ∀ terminal, feed.head? = some terminal → terminal = .leftParen)
    (inner : depth < maxCallDepth → ValuesFit budget (depth + 1) feed.size) :
    (reads (budget + 6) arguments depth feed).Fits feed (expectation.verdict feed)
      (resume host depth) ArgumentsPhrase := by
  rw [arguments_eq]
  cases feed with
  | fault failure => exact Reading.fits_fault
  | finish place => cases front _ rfl
  | token first proper rest =>
    have paren : first.terminal = .leftParen := front _ rfl
    have kind : first.kind = .leftParen := Token.kind_of_terminal paren
    rw [← paren] at stepped
    rw [Reader.token_taken kind, Reading.andThen, Reading.map_map, Reader.nested]
    by_cases room : depth < maxCallDepth
    · obtain ⟨enough, fits⟩ := inner room
      obtain ⟨spare, rfl⟩ := Nat.exists_eq_add_of_le (Nat.le_trans (Nat.le_add_left 9 _) enough)
      simp only [Feed.size] at enough fits
      rw [if_neg (Nat.not_le.2 room), verdict_step stepped room]
      refine (separated_fits room (fits host) ?_ _ rest (by omega) (by omega)).map
        (Nat.le_succ _) ?_
      · intro feed closing
        rw [Nat.add_comm 9]
        exact expression_missed closing (by simp) (by simp) _ _
      · intro result after listed
        rw [Feed.terminals, paren]
        exact listed
    · rw [if_pos (Nat.not_lt.1 room), verdict_overflow stepped (Nat.lt_succ_of_le (Nat.not_lt.1 room)),
        Feed.overflow]
      cases rest.look <;> rfl

section

variable {host : Host} {depth budget : Nat} {first : Token} {name : String}
  {proper : first.kind ≠ .endOfInput} {rest : Feed}

theorem call_taken (same : first.terminal = .identifier name) :
    reads (budget + 8) call depth (.token first proper rest) =
      (reads (budget + 6) arguments depth rest).map fun (values, close) =>
        .call ⟨name, first.span⟩ values ⟨first.start, close.stop⟩ := by
  obtain ⟨kind, text⟩ := Token.terminal_identifier.1 same
  rw [call_eq, (identifier_takes _).taken depth proper rest kind, text, Reading.andThen,
    Reading.map_map]
  rfl

/-- What is left to try when a name begins no call. -/
private theorem name_alone (same : first.terminal = .identifier name) {error : ParseError}
    (soft : error.isFatal = false) :
    ∃ last : ParseError, last.isFatal = false ∧
      Reader.firstOf error [reads (budget + 8) string, reads (budget + 8) boolean] depth
        (.token first proper rest) =
      if isTruth name then .value (.boolean (name == "true") first.span) rest
      else .failure last := by
  have front : (Feed.token first proper rest).head? = some (.identifier name) := congrArg some same
  have missed := (string_takes (budget + 6)).missed depth front (by simp)
  cases truth : isTruth name with
  | true =>
    obtain ⟨last, soft, skipped⟩ := Reader.firstOf_skip [reads (budget + 8) string]
      (List.forall_mem_singleton.2 missed) soft [reads (budget + 8) boolean]
    refine ⟨last, soft, ?_⟩
    rw [if_pos rfl, ← List.singleton_append, skipped, Reader.firstOf,
      boolean_taken same truth proper rest (budget + 5)]
    rfl
  | false =>
    have neither := boolean_missed front (by rintro _ ⟨⟩; exact truth) (budget + 5) depth
    obtain ⟨last, soft, skipped⟩ := Reader.firstOf_skip
      [reads (budget + 8) string, reads (budget + 8) boolean]
      (List.forall_mem_cons.2 ⟨missed, List.forall_mem_singleton.2 neither⟩) soft []
    exact ⟨last, soft, skipped⟩

/-- A name, whether or not it begins a call, is read as the language has it. -/
private theorem name_fits (same : first.terminal = .identifier name)
    (inner : depth < maxCallDepth → ValuesFit budget (depth + 1) rest.size) :
    (reads (budget + 9) expression depth (.token first proper rest)).Fits (.token first proper rest)
      ((calleeEnd (isTruth name) host depth).verdict rest) (resume host depth) ValuePhrase := by
  have front : (Feed.token first proper rest).head? = some (.identifier name) := congrArg some same
  have terminals : (Feed.token first proper rest).terminals = .identifier name :: rest.terminals := by
    rw [Feed.terminals, same]
  rw [expression_eq]
  by_cases opening : ∀ terminal, rest.head? = some terminal → terminal = .leftParen
  · refine Reader.choice_fits front ?_ (fun error soft stuck => ?_) _
    · rw [call_taken same]
      refine (arguments_fits rfl opening inner).map (Nat.le_succ _) fun result after said => ?_
      rw [terminals]
      exact .call said
    · -- A truth value may be left over in front of the parenthesis, which is of no use to it.
      obtain ⟨last, softer, alone⟩ := name_alone same soft
      obtain ⟨terminal, paren⟩ := head?_of_stuck stuck
      cases opening terminal paren
      rw [alone]
      split
      · exact ⟨Nat.lt_succ_self _, .inr ⟨rfl, paren⟩⟩
      · exact Reading.Missed.fits ⟨last, rfl, softer⟩
  · simp only [Classical.not_forall] at opening
    obtain ⟨terminal, behind, other⟩ := opening
    have missed : (reads (budget + 8) call depth (.token first proper rest)).Missed := by
      rw [call_taken same]
      exact (arguments_missed behind other budget depth).map _
    obtain ⟨error, soft, chosen⟩ := Reader.choice_skip [reads (budget + 8) call] front
      (List.forall_mem_singleton.2 missed) "Expected expression"
      [reads (budget + 8) string, reads (budget + 8) boolean]
    obtain ⟨last, softer, alone⟩ := name_alone same soft
    rw [List.singleton_append] at chosen
    rw [chosen, alone]
    cases truth : isTruth name with
    | true =>
      have resumed : (calleeEnd true host depth).verdict rest = (resume host depth).verdict rest := by
        refine verdict_alike behind ?_
        rw [step_resume]
        exact stepCalleeEnd_eq true host depth other
      rw [if_pos rfl, resumed]
      refine ⟨Nat.lt_succ_self _, .inl ⟨?_, rfl⟩⟩
      rw [terminals]
      rcases isTruth_iff.1 truth with rfl | rfl
      · exact .yes
      · exact .no
    | false =>
      have blocked : (calleeEnd false host depth).step terminal = none :=
        stepCalleeEnd_eq false host depth other
      rw [verdict_stuck behind blocked]
      exact Reading.Missed.fits ⟨last, rfl, softer⟩

end

/-- One level of values. The level below it matters only where there may be one. -/
theorem expression_step {depth budget limit : Nat} (shallow : depth ≤ maxCallDepth)
    (enough : limit ≤ budget)
    (inner : depth < maxCallDepth → ValuesFit budget (depth + 1) limit) :
    ValuesFit (budget + 9) depth limit := by
  refine ⟨by omega, fun host feed short => ?_⟩
  cases feed with
  | fault failure => exact Reading.fits_fault
  | finish place =>
    have front : (Feed.finish place).head? = some .endOfInput := rfl
    rw [verdict_stuck front rfl]
    exact (expression_missed front (by simp) (by simp) budget depth).fits
  | token first proper rest =>
    have front : (Feed.token first proper rest).head? = some first.terminal := rfl
    simp only [Feed.size] at short
    cases same : first.terminal with
    | identifier name =>
      have stepped : (Expectation.value host depth).step first.terminal =
          some (calleeEnd (isTruth name) host depth) := by rw [same]; rfl
      rw [verdict_step stepped shallow]
      exact name_fits same fun room => (inner room).smaller (by omega)
    | string text =>
      have stepped : (Expectation.value host depth).step first.terminal =
          some (resume host depth) := by rw [same]; rfl
      obtain ⟨kind, spelled⟩ := Token.terminal_string.1 same
      rw [expression_string kind, spelled,
        verdict_step stepped (by rw [opened_resume]; exact shallow)]
      refine ⟨Nat.lt_succ_self _, .inl ⟨?_, rfl⟩⟩
      rw [Feed.terminals, same]
      exact .string
    | _ =>
      rw [same] at front
      rw [verdict_stuck front rfl]
      exact (expression_missed front (by simp) (by simp) budget depth).fits

/-- The readings of values fit at every level, with a budget for the levels below. -/
theorem valuesFit (levels : Nat) {depth budget limit : Nat} (left : depth + levels = maxCallDepth)
    (enough : limit + 9 * (levels + 1) ≤ budget) : ValuesFit budget depth limit := by
  induction levels generalizing depth budget with
  | zero =>
    obtain ⟨spare, rfl⟩ := Nat.exists_eq_add_of_le (show 9 ≤ budget by omega)
    rw [Nat.add_comm]
    exact expression_step (by omega) (by omega) fun room => by omega
  | succ levels ih =>
    obtain ⟨spare, rfl⟩ := Nat.exists_eq_add_of_le (show 9 ≤ budget by omega)
    rw [Nat.add_comm]
    exact expression_step (by omega) (by omega) fun _ => ih (by omega) (by omega)

end SchemaLang.Schema
