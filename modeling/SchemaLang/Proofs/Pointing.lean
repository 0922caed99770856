import SchemaLang.Diagnostic
import SchemaLang.Proofs.Blame
import SchemaLang.Proofs.Tiling

/-! Where diagnostics point. A failure stands on an element of the token stream, and every
element begins between two characters of the text, with no blank behind that place. So the
text can be cut there, and a diagnostic covers the one character behind the cut, or nothing
at the end of the text. -/
namespace SchemaLang

open Expectation

namespace Position

theorem byteLength_cons (char : Char) (text : List Char) :
    byteLength (char :: text) = char.utf8Size + byteLength text := rfl

/-- A place cuts a text in two: it is counted from the start of the text over the part in
front of it, and the part behind it does not begin with a blank. -/
structure Cuts (place : Position) (text before behind : List Char) : Prop where
  whole : text = before ++ behind
  reached : place = .advance .start before
  visible : ∀ char, behind.head? = some char → ¬ Blank char

namespace Cuts

variable {place : Position} {text before behind : List Char}

theorem offset_eq (cuts : place.Cuts text before behind) : place.offset = byteLength before := by
  rw [cuts.reached, offset_advance_start]

theorem byteLength_eq (cuts : place.Cuts text before behind) :
    byteLength text = place.offset + byteLength behind := by
  rw [cuts.whole, byteLength_append, cuts.offset_eq]

/-- Only the end of a text has nothing behind it. -/
theorem behind_eq_nil_iff (cuts : place.Cuts text before behind) :
    behind = [] ↔ place.offset = byteLength text := by
  have total := cuts.byteLength_eq
  constructor
  · rintro rfl
    exact total.symm
  · intro last
    by_contra further
    have wide := byteLength_pos further
    omega

/-- Any beginning of the part behind a place can be cut out from there. -/
theorem slice? (cuts : place.Cuts text before behind) {part others : List Char}
    (begins : behind = part ++ others) :
    Position.slice? text place.offset (place.offset + byteLength part) = some part := by
  rw [cuts.whole, begins, cuts.offset_eq, ← byteLength_append, ← List.append_assoc]
  exact slice?_append before part others

end Cuts

end Position

/-! ## Elements -/

/-- Every token of a text stands at a place that cuts it, the end of input alone with nothing
behind it, and so does a failure, with the character that was found behind it. -/
theorem Lexed.cuts {front rest : List Char} {stream : TokenStream}
    (lexed : Lexed front rest stream) :
    (∀ token ∈ stream.tokens, ∃ before behind,
      token.start.Cuts (front ++ rest) before behind ∧
        (behind = [] ↔ token.kind = .endOfInput)) ∧
    ∀ failure, stream.failure = some failure → ∃ before others,
      failure.position.Cuts (front ++ rest) before (failure.found :: others) := by
  induction lexed with
  | @finish front _ blanks skips =>
    refine ⟨List.forall_mem_singleton.2 ⟨front ++ blanks, [], ⟨?_, rfl, skips.maximal⟩, ?_⟩, nofun⟩
    · rw [skips.split, List.append_assoc]
    · exact ⟨fun _ => rfl, fun _ => rfl⟩
  | @fault front _ blanks others found skips =>
    refine ⟨List.forall_mem_nil _, ?_⟩
    rintro _ ⟨⟩
    exact ⟨front ++ blanks, others, by rw [skips.split, List.append_assoc], rfl, skips.maximal⟩
  | @token front _ blanks spelling behind kind stream skips longest _ ih =>
    have same : front ++ blanks ++ spelling ++ behind =
        front ++ (blanks ++ (spelling ++ behind)) := by simp only [List.append_assoc]
    rw [same, ← skips.split] at ih
    refine ⟨List.forall_mem_cons.2 ⟨?_, ih.1⟩, ih.2⟩
    refine ⟨front ++ blanks, spelling ++ behind, ⟨?_, rfl, skips.maximal⟩, ?_⟩
    · rw [skips.split, List.append_assoc]
    · have proper := lexeme?_kind (lexeme?_eq_some_iff.2 longest)
      simp [longest.nonempty, proper]

theorem TokenStream.cuts_token {text : List Char} {token : Token}
    (held : token ∈ (TokenStream.ofText text).tokens) : ∃ before behind,
      token.start.Cuts text before behind ∧ (behind = [] ↔ token.kind = .endOfInput) :=
  (lexed_ofText text).cuts.1 token held

theorem TokenStream.cuts_failure {text : List Char} {failure : LexError}
    (failed : (TokenStream.ofText text).failure = some failure) : ∃ before others,
      failure.position.Cuts text before (failure.found :: others) :=
  (lexed_ofText text).cuts.2 failure failed

/-! ## Failures -/

/-- What a failure to parse stands on: the failure to scan that it repeats, or a token; and a
mismatch says what it demands. -/
inductive ParseError.StandsOn (error : ParseError) (stream : TokenStream) : Prop
  | fault {failure : LexError} (held : stream.failure = some failure)
      (same : error = .ofLexError failure)
  | token {token : Token} (held : token ∈ stream.tokens) (place : error.position = token.start)
      (scanned : error.kind ≠ .unexpectedToken)
      (worded : error.kind = .syntaxError → ∃ demand : Demand, error.message = demand.message)

namespace Document

open TokenStream

theorem standsOn_of_parse {source : String} {error : ParseError}
    (failed : parse source = .error error) : error.StandsOn (.ofText source.toList) := by
  obtain ⟨ordinal, -, cause, causes, -⟩ := failure_explained failed
  have explains := (causes cause).2 rfl
  cases cause with
  | scan =>
    obtain ⟨failure, found, same⟩ := explains
    exact .fault (element?_eq_error found) same
  | overflow =>
    obtain ⟨-, reports⟩ := explains
    unfold Reports at reports
    split at reports
    · rename_i token found
      subst reports
      exact .token (List.mem_of_getElem? (element?_eq_ok found)) rfl nofun nofun
    · rename_i failure found
      exact .fault (element?_eq_error found) reports
    · exact reports.elim
  | mismatch =>
    obtain ⟨-, -, mismatch⟩ := explains
    obtain ⟨_, demand, demands, -⟩ := mismatch_justified failed mismatch
    obtain ⟨token, found, place, -⟩ := demands.refused
    exact .token (List.mem_of_getElem? (element?_eq_ok found)) place (by simp [mismatch])
      fun _ => ⟨demand, demands.message⟩

/-- Every error stands at a place that cuts its text. -/
theorem cuts_of_parse {source : String} {error : ParseError}
    (failed : parse source = .error error) :
    ∃ before behind, error.position.Cuts source.toList before behind := by
  cases standsOn_of_parse failed with
  | fault held same =>
    obtain ⟨before, others, cuts⟩ := cuts_failure held
    subst same
    exact ⟨before, _, cuts⟩
  | token held place =>
    obtain ⟨before, behind, cuts, -⟩ := cuts_token held
    exact ⟨before, behind, place ▸ cuts⟩

end Document

/-! ## Diagnostics -/

/-- The bytes of a character come off a text together. -/
theorem Frame.dropBytes_append (before behind : List Char) :
    dropBytes (Position.byteLength before) (before ++ behind) = behind := by
  induction before with
  | nil => cases behind <;> rfl
  | cons char before ih =>
    have wide := char.utf8Size_pos
    rw [List.cons_append, dropBytes, Position.byteLength_cons, if_neg (by omega),
      Nat.add_sub_cancel_left, ih]

/-- The text of a demand, with a small letter. -/
theorem Expectation.Demand.lowercaseFirst_message (demand : Demand) :
    ∃ rest, (lowercaseFirst demand.message).toList = 'e' :: rest := by
  have begins : ∃ rest, demand.message.toList = 'E' :: rest := by
    cases demand with
    | only kind => exact ⟨"xpected ".toList ++ kind.description.toList, String.toList_append⟩
    | _ => exact ⟨_, rfl⟩
  obtain ⟨rest, begins⟩ := begins
  have small : lowercase 'E' = ['e'] := by decide
  refine ⟨rest, ?_⟩
  rw [lowercaseFirst, begins]
  show (String.ofList (lowercase 'E' ++ rest)).toList = _
  rw [small, String.toList_ofList]
  rfl

namespace Diagnostic

/-- The checked form of `ofError`: the text behind the place of the error is cut out first,
which fails inside a character. -/
def ofError? (error : ParseError) (source : String) : Option Diagnostic := do
  let total := Position.byteLength source.toList
  let behind ← Position.slice? source.toList (min error.position.offset total) total
  let width := (behind.head?.map Char.utf8Size).getD 0
  let (label, help) := explain error width
  return ⟨error.message, label, error.position.offset, width, help⟩

/-- What a diagnostic covers and says. -/
structure Points (diagnostic : Diagnostic) (error : ParseError) (source : String) : Prop where
  /-- It starts where the error stands. -/
  offset : diagnostic.offset = error.position.offset
  /-- It ends inside the text. -/
  inside : diagnostic.offset + diagnostic.length ≤ Position.byteLength source.toList
  /-- It covers the character there, as a whole and alone. -/
  covers : ∃ before behind, source.toList = before ++ behind ∧
    diagnostic.offset = Position.byteLength before ∧
    Position.slice? source.toList diagnostic.offset (diagnostic.offset + diagnostic.length) =
      some (behind.take 1)
  /-- Nothing is covered at the end of the text, and only there. -/
  empty : diagnostic.length = 0 ↔ diagnostic.offset = Position.byteLength source.toList
  /-- The input is said to have ended just where a mismatch is found at the end of input. -/
  ended : diagnostic.label = "input ended here" ↔ error.kind = .syntaxError ∧
    ∃ token ∈ (TokenStream.ofText source.toList).tokens,
      token.kind = .endOfInput ∧ error.position = token.start
  /-- A character that cannot be scanned is the one that is quoted, and is no blank. -/
  quotes : error.kind = .unexpectedToken → ∃ char,
    Position.slice? source.toList diagnostic.offset (diagnostic.offset + diagnostic.length) =
      some [char] ∧
    diagnostic.message = "Unexpected character '" ++ char.toString ++ "'" ∧ ¬ Blank char

section

variable {error : ParseError} {source : String}

/-- No demand reads like the end of the input. -/
theorem label_explain (width : Nat)
    (worded : error.kind = .syntaxError → ∃ demand : Demand, error.message = demand.message) :
    (explain error width).1 = "input ended here" ↔ error.kind = .syntaxError ∧ width = 0 := by
  unfold explain
  split
  · rename_i kind
    simp [kind]
  · rename_i kind
    obtain ⟨demand, message⟩ := worded kind
    obtain ⟨rest, begins⟩ := demand.lowercaseFirst_message
    have differs : lowercaseFirst error.message ≠ "input ended here" := by
      intro same
      rw [← message, same] at begins
      cases (List.cons.inj begins).1
    split
    · rename_i covers
      exact ⟨fun _ => ⟨kind, covers⟩, fun _ => rfl⟩
    · rename_i wide
      exact ⟨fun same => absurd same differs, fun ended => absurd ended.2 wide⟩
  · rename_i kind
    simp [kind]

variable {before behind : List Char}

/-- The width of what is covered is that of the character behind the place. -/
theorem length_ofError (cuts : error.position.Cuts source.toList before behind) :
    (ofError error source).length = Position.byteLength (behind.take 1) := by
  show widthAt source.toList error.position.offset = _
  rw [widthAt, cuts.whole, cuts.offset_eq, Frame.dropBytes_append]
  cases behind <;> rfl

theorem length_ofError_eq_zero_iff (cuts : error.position.Cuts source.toList before behind) :
    (ofError error source).length = 0 ↔ behind = [] := by
  rw [length_ofError cuts]
  cases behind with
  | nil => exact ⟨fun _ => rfl, fun _ => rfl⟩
  | cons char others =>
    have wide := Position.byteLength_pos (List.cons_ne_nil char [])
    exact ⟨fun narrow => absurd narrow (Nat.ne_of_gt wide), nofun⟩

/-- What is covered ends inside the text. -/
theorem stop_ofError_le (cuts : error.position.Cuts source.toList before behind) :
    error.position.offset + (ofError error source).length ≤ Position.byteLength source.toList := by
  have total := cuts.byteLength_eq
  have first := congrArg Position.byteLength (List.take_append_drop 1 behind)
  rw [Position.byteLength_append] at first
  rw [length_ofError cuts]
  omega

theorem ofError?_eq (cuts : error.position.Cuts source.toList before behind) :
    ofError? error source = some (ofError error source) := by
  have total := cuts.byteLength_eq
  have width : (behind.head?.map Char.utf8Size).getD 0 =
      widthAt source.toList error.position.offset := by
    rw [show widthAt _ _ = _ from length_ofError cuts]
    cases behind <;> rfl
  have rest := cuts.slice? (List.append_nil behind).symm
  rw [← total] at rest
  rw [ofError?, Nat.min_eq_left (by omega), rest, Option.bind_eq_bind, Option.bind_some, width]
  rfl

theorem covers_ofError (cuts : error.position.Cuts source.toList before behind) :
    Position.slice? source.toList error.position.offset
      (error.position.offset + (ofError error source).length) = some (behind.take 1) := by
  rw [length_ofError cuts]
  exact cuts.slice? (List.take_append_drop 1 behind).symm

/-- A diagnostic points where its error stands, once it is known which element that is. -/
theorem points_ofError (cuts : error.position.Cuts source.toList before behind)
    (worded : error.kind = .syntaxError → ∃ demand : Demand, error.message = demand.message)
    (last : behind = [] → ∃ token ∈ (TokenStream.ofText source.toList).tokens,
      token.kind = .endOfInput ∧ error.position = token.start)
    (quoted : error.kind = .unexpectedToken → ∃ failure others,
      behind = failure.found :: others ∧ error = .ofLexError failure) :
    (ofError error source).Points error source where
  offset := rfl
  inside := stop_ofError_le cuts
  covers := ⟨before, behind, cuts.whole, cuts.offset_eq, covers_ofError cuts⟩
  empty := (length_ofError_eq_zero_iff cuts).trans cuts.behind_eq_nil_iff
  ended := by
    rw [show (ofError error source).label = (explain error (ofError error source).length).1 from rfl,
      label_explain _ worded, length_ofError_eq_zero_iff cuts]
    refine and_congr_right fun _ => ⟨last, ?_⟩
    rintro ⟨token, held, ending, place⟩
    obtain ⟨front, back, cut, closes⟩ := TokenStream.cuts_token held
    rw [cuts.behind_eq_nil_iff, place, ← cut.behind_eq_nil_iff]
    exact closes.2 ending
  quotes := by
    intro kind
    obtain ⟨failure, others, rfl, same⟩ := quoted kind
    refine ⟨failure.found, covers_ofError cuts, ?_, cuts.visible _ rfl⟩
    rw [same]
    rfl

end

/-- **Diagnostics point at the right character.** The place of every error lies between two
characters of its text, so what is behind it can be cut out, and the diagnostic covers the
one character there. -/
theorem points_of_parse {source : String} {error : ParseError}
    (failed : Document.parse source = .error error) :
    ofError? error source = some (ofError error source) ∧
      (ofError error source).Points error source := by
  cases Document.standsOn_of_parse failed with
  | @fault failure held same =>
    subst same
    obtain ⟨before, others, cuts⟩ := TokenStream.cuts_failure held
    exact ⟨ofError?_eq cuts, points_ofError cuts nofun nofun fun _ => ⟨failure, others, rfl, rfl⟩⟩
  | @token token held place scanned worded =>
    obtain ⟨before, behind, cuts, closes⟩ := TokenStream.cuts_token held
    rw [← place] at cuts
    exact ⟨ofError?_eq cuts, points_ofError cuts worded
      (fun ended => ⟨token, held, closes.1 ended, place⟩) fun kind => absurd kind scanned⟩

theorem points_of_parse_wide :
    let source := "model Foo \x7b id Int ß \x7d"
    let error : ParseError := ⟨.unexpectedToken, "Unexpected character 'ß'", ⟨19, 1, 20⟩⟩
    Document.parse source = .error error ∧ ofError? error source = some (ofError error source) ∧
      (ofError error source).Points error source := by
  have failed : Document.parse "model Foo \x7b id Int ß \x7d" =
      .error ⟨.unexpectedToken, "Unexpected character 'ß'", ⟨19, 1, 20⟩⟩ := by decide +kernel
  exact ⟨failed, points_of_parse failed⟩

/-- Blanks at the end of a text are in front of the place of the error. -/
example : Document.parse "model A \n" = .error (.mismatch "Expected '\x7b'" ⟨9, 2, 1⟩) ∧
    ofError (.mismatch "Expected '\x7b'" ⟨9, 2, 1⟩) "model A \n" =
      ⟨"Expected '\x7b'", "input ended here", 9, 0,
        some "The file ended before the block was complete; check for a missing '\x7d'."⟩ := by
  decide +kernel

end Diagnostic

end SchemaLang
