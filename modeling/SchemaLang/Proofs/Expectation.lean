import SchemaLang.Proofs.Language

/-! Where a text may stand between two terminals. An expectation says what may come
next, and one terminal leads to at most one other expectation. What may follow an
expectation as a whole is said with the phrases of the language, and a step takes
exactly one terminal off the front of it. A text can therefore be continued to a
sentence as long as steps lead through it, and no longer. -/
namespace SchemaLang

/-- What the outermost argument list in sight belongs to. -/
inductive Host where
  | marker
  | option
deriving DecidableEq

/-- What may come next in a text. The number counts the argument lists that are
open, for `firstArgument` and `argumentEnd` besides the innermost one. -/
inductive Expectation where
  /-- A block or the end. -/
  | block
  | modelName
  | modelBrace
  /-- A field or the closing brace. -/
  | fieldName
  | fieldType
  /-- The sign of a type, or what comes behind it. -/
  | typeEnd
  /-- A marker, or what comes behind the last one. -/
  | markers
  /-- The arguments of a marker, or what comes behind them. -/
  | markerEnd
  | configName
  | configBrace
  /-- An option or the closing brace. -/
  | optionKey
  | optionEquals
  | value (host : Host) (opened : Nat)
  /-- A value or the end of the list just opened. -/
  | firstArgument (host : Host) (opened : Nat)
  /-- The arguments of a name, or what comes behind a truth value. -/
  | calleeEnd (truth : Bool) (host : Host) (opened : Nat)
  /-- A comma or the end of a list. -/
  | argumentEnd (host : Host) (opened : Nat)
  /-- Nothing, behind the end of input. -/
  | finished
deriving DecidableEq

namespace Expectation

/-- What may come behind a whole value, or behind a list that was closed. -/
def resume (host : Host) : Nat → Expectation
  | 0 => match host with
    | .marker => markers
    | .option => optionKey
  | opened + 1 => argumentEnd host opened

/-- Whether a name is also a truth value. -/
def isTruth (name : String) : Bool := name = "true" ∨ name = "false"

/-- Behind one of the words that open a block, or behind the end. -/
def stepBlock : Terminal → Option Expectation
  | .identifier name =>
    if name = "model" then some modelName
    else if name = "datasource" ∨ name = "generator" then some configName
    else none
  | .endOfInput => some finished
  | _ => none

/-- Behind any name. -/
def stepName (next : Expectation) : Terminal → Option Expectation
  | .identifier _ => some next
  | _ => none

/-- Behind one particular terminal. -/
def stepOnly (wanted : Terminal) (next : Expectation) (terminal : Terminal) :
    Option Expectation :=
  if terminal = wanted then some next else none

/-- Behind the name of a line, which leads into it, or behind the closing brace. -/
def stepLine (inside : Expectation) : Terminal → Option Expectation
  | .identifier _ => some inside
  | .rightBrace => some block
  | _ => none

/-- Behind a marker, or else behind what starts or ends a line of a model. -/
def stepMarkers : Terminal → Option Expectation
  | .marker _ => some markerEnd
  | terminal => stepLine fieldType terminal

/-- Behind the sign of a type, or else behind what may follow a type. -/
def stepTypeEnd : Terminal → Option Expectation
  | .question => some markers
  | .brackets => some markers
  | terminal => stepMarkers terminal

/-- Behind the parenthesis that opens the arguments of a marker, or else behind
what may follow a marker. -/
def stepMarkerEnd : Terminal → Option Expectation
  | .leftParen => some (firstArgument .marker 0)
  | terminal => stepMarkers terminal

/-- Behind the first terminal of a value. -/
def stepValue (host : Host) (opened : Nat) : Terminal → Option Expectation
  | .string _ => some (resume host opened)
  | .identifier name => some (calleeEnd (isTruth name) host opened)
  | _ => none

/-- Behind the end of a list without values, or else behind the first terminal of
its first value. -/
def stepFirstArgument (host : Host) (opened : Nat) : Terminal → Option Expectation
  | .rightParen => some (resume host opened)
  | terminal => stepValue host (opened + 1) terminal

/-- Behind a comma or the end of a list. -/
def stepArgumentEnd (host : Host) (opened : Nat) : Terminal → Option Expectation
  | .comma => some (value host (opened + 1))
  | .rightParen => some (resume host opened)
  | _ => none

/-- Behind a terminal that follows a whole value. -/
def stepResume (host : Host) : Nat → Terminal → Option Expectation
  | 0 => match host with
    | .marker => stepMarkers
    | .option => stepLine optionEquals
  | opened + 1 => stepArgumentEnd host opened

/-- Behind the parenthesis of a call, or else, if the name was a truth value,
behind what may follow a value. -/
def stepCalleeEnd (truth : Bool) (host : Host) (opened : Nat) : Terminal → Option Expectation
  | .leftParen => some (firstArgument host opened)
  | terminal => if truth then stepResume host opened terminal else none

/-- What may come behind a terminal, if it may stand there at all. -/
def step : Expectation → Terminal → Option Expectation
  | block => stepBlock
  | modelName => stepName modelBrace
  | modelBrace => stepOnly .leftBrace fieldName
  | fieldName => stepLine fieldType
  | fieldType => stepName typeEnd
  | typeEnd => stepTypeEnd
  | markers => stepMarkers
  | markerEnd => stepMarkerEnd
  | configName => stepName configBrace
  | configBrace => stepOnly .leftBrace optionKey
  | optionKey => stepLine optionEquals
  | optionEquals => stepOnly .equals (value .option 0)
  | value host opened => stepValue host opened
  | firstArgument host opened => stepFirstArgument host opened
  | calleeEnd truth host opened => stepCalleeEnd truth host opened
  | argumentEnd host opened => stepArgumentEnd host opened
  | finished => fun _ => none

/-- How many argument lists are open. -/
def opened : Expectation → Nat
  | value _ opened => opened
  | firstArgument _ opened => opened + 1
  | calleeEnd _ _ opened => opened
  | argumentEnd _ opened => opened + 1
  | _ => 0

/-- Steps through several terminals. -/
def run (expectation : Expectation) : List Terminal → Option Expectation
  | [] => some expectation
  | terminal :: rest => (expectation.step terminal).bind fun next => next.run rest

@[simp] theorem opened_resume (host : Host) (opened : Nat) :
    (resume host opened).opened = opened := by
  cases opened with
  | zero => cases host <;> rfl
  | succ opened => rfl

theorem step_resume (host : Host) (opened : Nat) :
    (resume host opened).step = stepResume host opened := by
  cases opened with
  | zero => cases host <;> rfl
  | succ opened => rfl

private theorem opened_stepMarkers {terminal : Terminal} {next : Expectation}
    (stepped : stepMarkers terminal = some next) :
    next.opened = Phrase.openAfter 0 terminal := by
  cases terminal <;> cases stepped <;> rfl

private theorem opened_stepArgumentEnd {host : Host} {opened : Nat} {terminal : Terminal}
    {next : Expectation} (stepped : stepArgumentEnd host opened terminal = some next) :
    next.opened = Phrase.openAfter (opened + 1) terminal := by
  cases terminal <;> cases stepped
  · exact opened_resume host opened
  · rfl

private theorem opened_stepValue {host : Host} {opened : Nat} {terminal : Terminal}
    {next : Expectation} (stepped : stepValue host opened terminal = some next) :
    next.opened = Phrase.openAfter opened terminal := by
  cases terminal <;> cases stepped
  · rfl
  · exact opened_resume host opened

private theorem opened_stepResume {host : Host} {opened : Nat} {terminal : Terminal}
    {next : Expectation} (stepped : stepResume host opened terminal = some next) :
    next.opened = Phrase.openAfter opened terminal := by
  cases opened with
  | zero =>
    cases host with
    | marker => exact opened_stepMarkers stepped
    | option => cases terminal <;> cases stepped <;> rfl
  | succ opened => exact opened_stepArgumentEnd stepped

/-- Only parentheses change how many lists are open. -/
theorem opened_step {expectation next : Expectation} {terminal : Terminal}
    (stepped : expectation.step terminal = some next) :
    next.opened = Phrase.openAfter expectation.opened terminal := by
  cases expectation with
  | block =>
    simp only [step, stepBlock] at stepped
    split at stepped
    · split at stepped
      · cases stepped; rfl
      · split at stepped <;> cases stepped; rfl
    · cases stepped; rfl
    · cases stepped
  | modelName | fieldType | configName => cases terminal <;> cases stepped; rfl
  | modelBrace | configBrace | optionEquals =>
    simp only [step, stepOnly] at stepped
    split at stepped
    · rename_i same
      cases stepped
      rw [same]
      rfl
    · cases stepped
  | fieldName | optionKey => cases terminal <;> cases stepped <;> rfl
  | typeEnd =>
    cases terminal with
    | question | brackets => cases stepped; rfl
    | _ => exact opened_stepMarkers stepped
  | markers => exact opened_stepMarkers stepped
  | markerEnd =>
    cases terminal with
    | leftParen => cases stepped; rfl
    | _ => exact opened_stepMarkers stepped
  | value host opened => exact opened_stepValue stepped
  | firstArgument host opened =>
    cases terminal <;> cases stepped
    · rfl
    · rfl
    · exact opened_resume host opened
  | calleeEnd truth host opened =>
    cases terminal with
    | leftParen => cases stepped; rfl
    | _ =>
      cases truth with
      | true => exact opened_stepResume stepped
      | false => cases stepped
  | argumentEnd host opened => exact opened_stepArgumentEnd stepped
  | finished => cases stepped

/-! ## What may follow -/

open Phrase

/-- Blocks up to the end. -/
def Blocks (terminals : List Terminal) : Prop :=
  ∃ definitions, Many Block terminals definitions [.endOfInput]

/-- Lines of a block, its closing brace, and what follows the block. -/
def Inside {α : Type} (line : List Terminal → α → List Terminal → Prop)
    (terminals : List Terminal) : Prop :=
  ∃ lines rest, Many line terminals lines (.rightBrace :: rest) ∧ Blocks rest

/-- Markers, and what follows the field they belong to. -/
def Marked (terminals : List Terminal) : Prop :=
  ∃ markers rest, Many Marker terminals markers rest ∧ Inside Line rest

/-- What follows a whole value. Inside a list these are more values or none, the
end of the list, and what follows the list. -/
def Resumed (host : Host) : Nat → List Terminal → Prop
  | 0, terminals => match host with
    | .marker => Marked terminals
    | .option => Inside Setting terminals
  | opened + 1, terminals =>
    (∃ rest, terminals = .rightParen :: rest ∧ Resumed host opened rest) ∨
      ∃ rest values after, terminals = .comma :: rest ∧
        Values rest values (.rightParen :: after) ∧ Resumed host opened after

/-- What follows an expectation up to the end of a sentence. -/
def Rest : Expectation → List Terminal → Prop
  | block, terminals => Blocks terminals
  | modelName, terminals =>
    ∃ name rest, terminals = .identifier name :: .leftBrace :: rest ∧ Inside Line rest
  | modelBrace, terminals => ∃ rest, terminals = .leftBrace :: rest ∧ Inside Line rest
  | fieldName, terminals => Inside Line terminals
  | fieldType, terminals => ∃ type rest, Typed terminals type rest ∧ Marked rest
  | typeEnd, terminals => ∃ modifier rest, Sign terminals modifier rest ∧ Marked rest
  | markers, terminals => Marked terminals
  | markerEnd, terminals =>
    (∃ values rest, Arguments terminals values rest ∧ Marked rest) ∨ Marked terminals
  | configName, terminals =>
    ∃ name rest, terminals = .identifier name :: .leftBrace :: rest ∧ Inside Setting rest
  | configBrace, terminals => ∃ rest, terminals = .leftBrace :: rest ∧ Inside Setting rest
  | optionKey, terminals => Inside Setting terminals
  | optionEquals, terminals =>
    ∃ rest value after, terminals = .equals :: rest ∧ Value rest value after ∧ Inside Setting after
  | value host opened, terminals =>
    ∃ value rest, Value terminals value rest ∧ Resumed host opened rest
  | firstArgument host opened, terminals =>
    ∃ values rest, Arguments (.leftParen :: terminals) values rest ∧ Resumed host opened rest
  | calleeEnd truth host opened, terminals =>
    (∃ values rest, Arguments terminals values rest ∧ Resumed host opened rest) ∨
      truth = true ∧ Resumed host opened terminals
  | argumentEnd host opened, terminals => Resumed host (opened + 1) terminals
  | finished, terminals => terminals = []

theorem rest_resume (host : Host) (opened : Nat) (terminals : List Terminal) :
    (resume host opened).Rest terminals ↔ Resumed host opened terminals := by
  cases opened with
  | zero => cases host <;> rfl
  | succ opened => rfl

/-! ### One terminal at a time -/

private theorem blocks_step (terminal : Terminal) (terminals : List Terminal) :
    Blocks (terminal :: terminals) ↔
      ∃ next, stepBlock terminal = some next ∧ next.Rest terminals := by
  constructor
  · rintro ⟨_, _ | ⟨first, others⟩⟩
    · exact ⟨finished, rfl, rfl⟩
    · cases first with
      | model lines => exact ⟨modelName, rfl, _, _, rfl, _, _, lines, _, others⟩
      | @config kind _ _ _ _ settings =>
        cases kind <;> exact ⟨configName, rfl, _, _, rfl, _, _, settings, _, others⟩
  · rintro ⟨next, stepped, follows⟩
    unfold stepBlock at stepped
    split at stepped
    · split at stepped
      · rename_i word
        cases stepped
        obtain ⟨_, _, rfl, _, _, lines, _, others⟩ := follows
        subst word
        exact ⟨_, .more (.model lines) others⟩
      · split at stepped
        · rename_i word
          cases stepped
          obtain ⟨_, _, rfl, _, _, settings, _, others⟩ := follows
          rcases word with rfl | rfl
          · exact ⟨_, .more (@Block.config .datasource _ _ _ _ settings) others⟩
          · exact ⟨_, .more (@Block.config .generator _ _ _ _ settings) others⟩
        · cases stepped
    · cases stepped
      cases follows
      exact ⟨[], .none⟩
    · cases stepped

private theorem lines_step (terminal : Terminal) (terminals : List Terminal) :
    Inside Line (terminal :: terminals) ↔
      ∃ next, stepLine fieldType terminal = some next ∧ next.Rest terminals := by
  constructor
  · rintro ⟨_, _, _ | ⟨⟨typed, marked⟩, others⟩, blocks⟩
    · exact ⟨block, rfl, blocks⟩
    · exact ⟨fieldType, rfl, _, _, typed, _, _, marked, _, _, others, blocks⟩
  · rintro ⟨next, stepped, follows⟩
    cases terminal <;> cases stepped
    · obtain ⟨_, _, typed, _, _, marked, _, _, others, blocks⟩ := follows
      exact ⟨_, _, .more (.mk typed marked) others, blocks⟩
    · exact ⟨[], _, .none, follows⟩

private theorem settings_step (terminal : Terminal) (terminals : List Terminal) :
    Inside Setting (terminal :: terminals) ↔
      ∃ next, stepLine optionEquals terminal = some next ∧ next.Rest terminals := by
  constructor
  · rintro ⟨_, _, _ | ⟨⟨given⟩, others⟩, blocks⟩
    · exact ⟨block, rfl, blocks⟩
    · exact ⟨optionEquals, rfl, _, _, _, rfl, given, _, _, others, blocks⟩
  · rintro ⟨next, stepped, follows⟩
    cases terminal <;> cases stepped
    · obtain ⟨_, _, _, rfl, given, _, _, others, blocks⟩ := follows
      exact ⟨_, _, .more (.mk given) others, blocks⟩
    · exact ⟨[], _, .none, follows⟩

/-- Where no marker begins, the line of a field goes on as if there were none. -/
theorem stepMarkers_eq {terminal : Terminal} (other : ∀ name, terminal ≠ .marker name) :
    stepMarkers terminal = stepLine fieldType terminal := by
  cases terminal with
  | marker name => exact absurd rfl (other name)
  | _ => rfl

private theorem markers_step (terminal : Terminal) (terminals : List Terminal) :
    Marked (terminal :: terminals) ↔
      ∃ next, stepMarkers terminal = some next ∧ next.Rest terminals := by
  constructor
  · rintro ⟨_, _, _ | ⟨first, others⟩, inside⟩
    · obtain ⟨next, stepped, follows⟩ := (lines_step _ _).1 inside
      refine ⟨next, ?_, follows⟩
      rw [← stepped]
      exact stepMarkers_eq (by rintro _ rfl; cases stepped)
    · cases first with
      | plain => exact ⟨markerEnd, rfl, .inr ⟨_, _, others, inside⟩⟩
      | applied arguments => exact ⟨markerEnd, rfl, .inl ⟨_, _, arguments, _, _, others, inside⟩⟩
  · rintro ⟨next, stepped, follows⟩
    by_cases marker : ∃ name, terminal = .marker name
    · obtain ⟨name, rfl⟩ := marker
      cases stepped
      rcases follows with ⟨_, _, arguments, _, _, others, inside⟩ | ⟨_, _, others, inside⟩
      · exact ⟨_, _, .more (.applied arguments) others, inside⟩
      · exact ⟨_, _, .more .plain others, inside⟩
    · rw [stepMarkers_eq fun name same => marker ⟨name, same⟩] at stepped
      exact ⟨[], _, .none, (lines_step _ _).2 ⟨next, stepped, follows⟩⟩

/-- Where no sign stands, markers may follow a type at once. -/
theorem stepTypeEnd_eq {terminal : Terminal} (question : terminal ≠ .question)
    (brackets : terminal ≠ .brackets) : stepTypeEnd terminal = stepMarkers terminal := by
  cases terminal with
  | question => exact absurd rfl question
  | brackets => exact absurd rfl brackets
  | _ => rfl

private theorem typeEnd_step (terminal : Terminal) (terminals : List Terminal) :
    typeEnd.Rest (terminal :: terminals) ↔
      ∃ next, stepTypeEnd terminal = some next ∧ next.Rest terminals := by
  constructor
  · rintro ⟨_, _, _ | _ | _, marked⟩
    · obtain ⟨next, stepped, follows⟩ := (markers_step _ _).1 marked
      refine ⟨next, ?_, follows⟩
      rw [← stepped]
      exact stepTypeEnd_eq (by rintro rfl; cases stepped) (by rintro rfl; cases stepped)
    · exact ⟨markers, rfl, marked⟩
    · exact ⟨markers, rfl, marked⟩
  · rintro ⟨next, stepped, follows⟩
    by_cases question : terminal = .question
    · subst question
      cases stepped
      exact ⟨_, _, .optional, follows⟩
    · by_cases brackets : terminal = .brackets
      · subst brackets
        cases stepped
        exact ⟨_, _, .array, follows⟩
      · rw [stepTypeEnd_eq question brackets] at stepped
        exact ⟨_, _, .none, (markers_step _ _).2 ⟨next, stepped, follows⟩⟩

private theorem values_iff (host : Host) (opened : Nat) (terminals : List Terminal) :
    (∃ values after, Values terminals values (.rightParen :: after) ∧ Resumed host opened after) ↔
      (value host (opened + 1)).Rest terminals := by
  constructor
  · rintro ⟨_, after, single | ⟨first, others⟩, resumed⟩
    · exact ⟨_, _, single, .inl ⟨after, rfl, resumed⟩⟩
    · exact ⟨_, _, first, .inr ⟨_, _, after, rfl, others, resumed⟩⟩
  · rintro ⟨_, _, single, ⟨after, rfl, resumed⟩ | ⟨_, _, after, rfl, others, resumed⟩⟩
    · exact ⟨_, after, .one single, resumed⟩
    · exact ⟨_, after, .more single others, resumed⟩

theorem isTruth_iff {name : String} : isTruth name = true ↔ name = "true" ∨ name = "false" := by
  simp [isTruth]

private theorem value_step (host : Host) (opened : Nat) (terminal : Terminal)
    (terminals : List Terminal) :
    (value host opened).Rest (terminal :: terminals) ↔
      ∃ next, stepValue host opened terminal = some next ∧ next.Rest terminals := by
  constructor
  · rintro ⟨_, rest, arguments | _ | _ | _, resumed⟩
    · exact ⟨_, rfl, .inl ⟨_, _, arguments, resumed⟩⟩
    · exact ⟨_, rfl, (rest_resume ..).2 resumed⟩
    · exact ⟨_, rfl, .inr ⟨isTruth_iff.2 (.inl rfl), resumed⟩⟩
    · exact ⟨_, rfl, .inr ⟨isTruth_iff.2 (.inr rfl), resumed⟩⟩
  · rintro ⟨next, stepped, follows⟩
    cases terminal <;> cases stepped
    · rcases follows with ⟨_, _, arguments, resumed⟩ | ⟨truth, resumed⟩
      · exact ⟨_, _, .call arguments, resumed⟩
      · rcases isTruth_iff.1 truth with rfl | rfl
        · exact ⟨_, _, .yes, resumed⟩
        · exact ⟨_, _, .no, resumed⟩
    · exact ⟨_, _, .string, (rest_resume ..).1 follows⟩

theorem stepFirstArgument_eq (host : Host) (opened : Nat) {terminal : Terminal}
    (closing : terminal ≠ .rightParen) :
    stepFirstArgument host opened terminal = stepValue host (opened + 1) terminal := by
  cases terminal with
  | rightParen => exact absurd rfl closing
  | _ => rfl

private theorem firstArgument_step (host : Host) (opened : Nat) (terminal : Terminal)
    (terminals : List Terminal) :
    (firstArgument host opened).Rest (terminal :: terminals) ↔
      ∃ next, stepFirstArgument host opened terminal = some next ∧ next.Rest terminals := by
  constructor
  · rintro ⟨_, _, _ | listed, resumed⟩
    · exact ⟨_, rfl, (rest_resume ..).2 resumed⟩
    · obtain ⟨next, stepped, follows⟩ :=
        (value_step ..).1 ((values_iff host opened _).1 ⟨_, _, listed, resumed⟩)
      refine ⟨next, ?_, follows⟩
      rw [← stepped]
      exact stepFirstArgument_eq host opened (by rintro rfl; cases stepped)
  · rintro ⟨next, stepped, follows⟩
    by_cases closing : terminal = .rightParen
    · subst closing
      cases stepped
      exact ⟨_, _, .none, (rest_resume ..).1 follows⟩
    · rw [stepFirstArgument_eq host opened closing] at stepped
      obtain ⟨_, _, listed, resumed⟩ :=
        (values_iff host opened _).2 ((value_step ..).2 ⟨next, stepped, follows⟩)
      exact ⟨_, _, .some listed, resumed⟩

/-- The parenthesis of an argument list may be taken on its own. -/
theorem arguments_iff (host : Host) (opened : Nat) (terminal : Terminal)
    (terminals : List Terminal) :
    (∃ values rest, Arguments (terminal :: terminals) values rest ∧ Resumed host opened rest) ↔
      terminal = .leftParen ∧ (firstArgument host opened).Rest terminals := by
  constructor
  · rintro ⟨_, _, arguments, resumed⟩
    cases arguments with
    | none => exact ⟨rfl, _, _, .none, resumed⟩
    | some listed => exact ⟨rfl, _, _, .some listed, resumed⟩
  · rintro ⟨rfl, follows⟩
    exact follows

private theorem resumed_step (host : Host) (opened : Nat) (terminal : Terminal)
    (terminals : List Terminal) :
    Resumed host opened (terminal :: terminals) ↔
      ∃ next, stepResume host opened terminal = some next ∧ next.Rest terminals := by
  cases opened with
  | zero =>
    cases host with
    | marker => exact markers_step terminal terminals
    | option => exact settings_step terminal terminals
  | succ opened =>
    constructor
    · rintro (⟨_, ⟨⟩, resumed⟩ | ⟨_, _, _, ⟨⟩, listed, resumed⟩)
      · exact ⟨_, rfl, (rest_resume ..).2 resumed⟩
      · exact ⟨_, rfl, (values_iff host opened _).1 ⟨_, _, listed, resumed⟩⟩
    · rintro ⟨next, stepped, follows⟩
      cases terminal <;> cases stepped
      · exact .inl ⟨_, rfl, (rest_resume ..).1 follows⟩
      · obtain ⟨_, _, listed, resumed⟩ := (values_iff host opened _).2 follows
        exact .inr ⟨_, _, _, rfl, listed, resumed⟩

theorem stepCalleeEnd_eq (truth : Bool) (host : Host) (opened : Nat) {terminal : Terminal}
    (opening : terminal ≠ .leftParen) :
    stepCalleeEnd truth host opened terminal =
      if truth then stepResume host opened terminal else none := by
  cases terminal with
  | leftParen => exact absurd rfl opening
  | _ => rfl

theorem stepMarkerEnd_eq {terminal : Terminal} (opening : terminal ≠ .leftParen) :
    stepMarkerEnd terminal = stepMarkers terminal := by
  cases terminal with
  | leftParen => exact absurd rfl opening
  | _ => rfl

/-- No whole value is followed by an opening parenthesis. -/
theorem stepResume_leftParen (host : Host) (opened : Nat) :
    stepResume host opened .leftParen = none := by
  cases opened with
  | zero => cases host <;> rfl
  | succ opened => rfl

private theorem calleeEnd_step (truth : Bool) (host : Host) (opened : Nat) (terminal : Terminal)
    (terminals : List Terminal) :
    (calleeEnd truth host opened).Rest (terminal :: terminals) ↔
      ∃ next, stepCalleeEnd truth host opened terminal = some next ∧ next.Rest terminals := by
  show ((∃ values rest, Arguments (terminal :: terminals) values rest ∧ _) ∨ _ ∧ _) ↔ _
  rw [arguments_iff, resumed_step]
  by_cases opening : terminal = .leftParen
  · subst opening
    simp only [stepResume_leftParen, true_and, reduceCtorEq, false_and, exists_false, and_false,
      or_false]
    exact ⟨fun follows => ⟨_, rfl, follows⟩, fun ⟨_, same, follows⟩ => by cases same; exact follows⟩
  · rw [stepCalleeEnd_eq truth host opened opening]
    cases truth <;> simp [opening]

private theorem markerEnd_step (terminal : Terminal) (terminals : List Terminal) :
    markerEnd.Rest (terminal :: terminals) ↔
      ∃ next, stepMarkerEnd terminal = some next ∧ next.Rest terminals := by
  show ((∃ values rest, Arguments (terminal :: terminals) values rest ∧ Resumed .marker 0 rest) ∨
    Marked (terminal :: terminals)) ↔ _
  rw [arguments_iff, markers_step]
  by_cases opening : terminal = .leftParen
  · subst opening
    have unmarked : stepMarkers .leftParen = none := rfl
    simp only [unmarked, true_and, reduceCtorEq, false_and, exists_false, or_false]
    exact ⟨fun follows => ⟨_, rfl, follows⟩, fun ⟨_, same, follows⟩ => by cases same; exact follows⟩
  · rw [stepMarkerEnd_eq opening]
    simp [opening]

/-- What follows an expectation is a terminal that it leads over, and what follows
there. -/
theorem rest_cons (expectation : Expectation) (terminal : Terminal)
    (terminals : List Terminal) :
    expectation.Rest (terminal :: terminals) ↔
      ∃ next, expectation.step terminal = some next ∧ next.Rest terminals := by
  cases expectation with
  | block => exact blocks_step terminal terminals
  | modelName | configName =>
    constructor
    · rintro ⟨_, rest, ⟨⟩, inside⟩
      exact ⟨_, rfl, rest, rfl, inside⟩
    · rintro ⟨next, stepped, follows⟩
      cases terminal <;> cases stepped
      obtain ⟨rest, rfl, inside⟩ := follows
      exact ⟨_, rest, rfl, inside⟩
  | modelBrace | configBrace =>
    simp only [step, stepOnly]
    constructor
    · rintro ⟨_, ⟨⟩, inside⟩
      exact ⟨_, if_pos rfl, inside⟩
    · rintro ⟨next, stepped, follows⟩
      split at stepped
      · rename_i same
        cases stepped
        exact ⟨terminals, by rw [same], follows⟩
      · cases stepped
  | fieldName => exact lines_step terminal terminals
  | fieldType =>
    constructor
    · rintro ⟨_, rest, ⟨sign⟩, marked⟩
      exact ⟨_, rfl, _, rest, sign, marked⟩
    · rintro ⟨next, stepped, follows⟩
      cases terminal <;> cases stepped
      obtain ⟨_, rest, sign, marked⟩ := follows
      exact ⟨_, rest, .mk sign, marked⟩
  | typeEnd => exact typeEnd_step terminal terminals
  | markers => exact markers_step terminal terminals
  | markerEnd => exact markerEnd_step terminal terminals
  | optionKey => exact settings_step terminal terminals
  | optionEquals =>
    simp only [step, stepOnly]
    constructor
    · rintro ⟨_, value, rest, ⟨⟩, given, inside⟩
      exact ⟨_, if_pos rfl, value, rest, given, inside⟩
    · rintro ⟨next, stepped, follows⟩
      split at stepped
      · rename_i same
        cases stepped
        obtain ⟨value, rest, given, inside⟩ := follows
        exact ⟨terminals, value, rest, by rw [same], given, inside⟩
      · cases stepped
  | value host opened => exact value_step host opened terminal terminals
  | firstArgument host opened => exact firstArgument_step host opened terminal terminals
  | calleeEnd truth host opened => exact calleeEnd_step truth host opened terminal terminals
  | argumentEnd host opened => exact resumed_step host (opened + 1) terminal terminals
  | finished =>
    constructor
    · intro impossible
      cases impossible
    · rintro ⟨_, ⟨⟩, _⟩

/-- What follows an expectation follows, behind any part of it, the expectation
that the part leads to. -/
theorem rest_append (expectation : Expectation) (first others : List Terminal) :
    expectation.Rest (first ++ others) ↔
      ∃ next, expectation.run first = some next ∧ next.Rest others := by
  induction first generalizing expectation with
  | nil => simp [run]
  | cons terminal first ih =>
    rw [List.cons_append, rest_cons]
    constructor
    · rintro ⟨middle, stepped, follows⟩
      obtain ⟨next, ran, ends⟩ := (ih middle).1 follows
      exact ⟨next, by rw [run, stepped]; exact ran, ends⟩
    · rintro ⟨next, ran, ends⟩
      rw [run] at ran
      obtain ⟨middle, stepped, ran⟩ := Option.bind_eq_some_iff.1 ran
      exact ⟨middle, stepped, (ih middle).2 ⟨next, ran, ends⟩⟩

/-! ## Completion -/

/-- The end of all open lists, and then of the block and the text. -/
def closing (opened : Nat) : List Terminal :=
  List.replicate opened .rightParen ++ [.rightBrace, .endOfInput]

/-- A short way from an expectation to the end of a sentence. -/
def completion : Expectation → List Terminal
  | block => [.endOfInput]
  | modelName | configName => .identifier "a" :: .leftBrace :: closing 0
  | modelBrace | configBrace => .leftBrace :: closing 0
  | fieldType => .identifier "a" :: closing 0
  | fieldName | typeEnd | markers | markerEnd | optionKey => closing 0
  | optionEquals => .equals :: .identifier "true" :: closing 0
  | value _ opened => .identifier "true" :: closing opened
  | firstArgument _ opened | argumentEnd _ opened => closing (opened + 1)
  | calleeEnd _ _ opened => .leftParen :: closing (opened + 1)
  | finished => []

private theorem inside_closing {α : Type} (line : List Terminal → α → List Terminal → Prop) :
    Inside line (closing 0) :=
  ⟨[], _, .none, [], .none⟩

private theorem marked_closing : Marked (closing 0) := ⟨[], _, .none, inside_closing _⟩

theorem resumed_closing (host : Host) (opened : Nat) : Resumed host opened (closing opened) := by
  induction opened with
  | zero =>
    cases host with
    | marker => exact marked_closing
    | option => exact inside_closing _
  | succ opened ih => exact .inl ⟨closing opened, rfl, ih⟩

/-- Every expectation can be met up to the end of a sentence. -/
theorem rest_completion (expectation : Expectation) :
    expectation.Rest expectation.completion := by
  cases expectation with
  | block => exact ⟨[], .none⟩
  | modelName | configName => exact ⟨_, _, rfl, inside_closing _⟩
  | modelBrace | configBrace => exact ⟨_, rfl, inside_closing _⟩
  | fieldType => exact ⟨_, _, .mk .none, marked_closing⟩
  | fieldName | optionKey => exact inside_closing _
  | typeEnd => exact ⟨_, _, .none, marked_closing⟩
  | markers => exact marked_closing
  | markerEnd => exact .inr marked_closing
  | optionEquals => exact ⟨_, _, _, rfl, .yes, inside_closing _⟩
  | value host opened => exact ⟨_, _, .yes, resumed_closing host opened⟩
  | firstArgument host opened => exact ⟨[], _, .none, resumed_closing host opened⟩
  | calleeEnd truth host opened => exact .inl ⟨[], _, .none, resumed_closing host opened⟩
  | argumentEnd host opened => exact resumed_closing host (opened + 1)
  | finished => rfl

private theorem spelled_closing (opened : Nat) :
    ∀ terminal ∈ closing opened, terminal.Spelled := by
  intro terminal found
  rcases List.mem_append.1 found with found | found
  · rw [List.eq_of_mem_replicate found]
    trivial
  · simp only [List.mem_cons, List.not_mem_nil, or_false] at found
    rcases found with rfl | rfl <;> trivial

/-- The completion of an expectation can be written. -/
theorem spelled_completion (expectation : Expectation) :
    ∀ terminal ∈ expectation.completion, terminal.Spelled := by
  have letter : (Terminal.identifier "a").Spelled := rfl
  have truth : (Terminal.identifier "true").Spelled := rfl
  cases expectation with
  | block => exact List.forall_mem_singleton.2 trivial
  | modelName | configName =>
    exact List.forall_mem_cons.2 ⟨letter, List.forall_mem_cons.2 ⟨trivial, spelled_closing 0⟩⟩
  | modelBrace | configBrace => exact List.forall_mem_cons.2 ⟨trivial, spelled_closing 0⟩
  | fieldType => exact List.forall_mem_cons.2 ⟨letter, spelled_closing 0⟩
  | fieldName | typeEnd | markers | markerEnd | optionKey => exact spelled_closing 0
  | optionEquals =>
    exact List.forall_mem_cons.2 ⟨trivial, List.forall_mem_cons.2 ⟨truth, spelled_closing 0⟩⟩
  | value host opened => exact List.forall_mem_cons.2 ⟨truth, spelled_closing opened⟩
  | firstArgument host opened | argumentEnd host opened => exact spelled_closing (opened + 1)
  | calleeEnd truth host opened =>
    exact List.forall_mem_cons.2 ⟨trivial, spelled_closing (opened + 1)⟩
  | finished => exact fun _ found => absurd found List.not_mem_nil

end Expectation

/-! ## Viability -/

namespace Phrase

open Expectation

/-- Some terminals that can be written make a text a sentence. -/
def Continues (terminals : List Terminal) : Prop :=
  ∃ others document, (∀ terminal ∈ others, terminal.Spelled) ∧
    Sentence (terminals ++ others) document

theorem sentence_iff (terminals : List Terminal) :
    (∃ document, Sentence terminals document) ↔ Expectation.block.Rest terminals :=
  ⟨fun ⟨_, ⟨blocks⟩⟩ => ⟨_, blocks⟩, fun ⟨_, blocks⟩ => ⟨_, ⟨blocks⟩⟩⟩

/-- A text can be continued to a sentence just when steps lead through it. -/
theorem continues_iff (terminals : List Terminal) :
    Continues terminals ↔ ∃ expectation, Expectation.block.run terminals = some expectation := by
  constructor
  · rintro ⟨others, document, -, sentence⟩
    obtain ⟨next, ran, -⟩ := (rest_append ..).1 ((sentence_iff _).1 ⟨document, sentence⟩)
    exact ⟨next, ran⟩
  · rintro ⟨next, ran⟩
    obtain ⟨document, sentence⟩ :=
      (sentence_iff _).2 ((rest_append ..).2 ⟨next, ran, next.rest_completion⟩)
    exact ⟨next.completion, document, next.spelled_completion, sentence⟩

end Phrase

end SchemaLang
