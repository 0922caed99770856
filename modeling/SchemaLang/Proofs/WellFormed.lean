import SchemaLang.Document.Grammar
import SchemaLang.Proofs.Erasure
import SchemaLang.Proofs.Spelling

/-! Well-formed trees are those that a text can have: names are names, texts can stand
between quotes, and calls nest no deeper than a text may open lists. The arguments of a
marker are one level down already, so they may nest one level less than the value of an
option. Which trees are well-formed does not depend on places. -/
namespace SchemaLang

/-! ## Trees -/

mutual

/-- How deep calls nest in a value. -/
def Expression.callDepth : Expression → Nat
  | .string _ _ => 0
  | .boolean _ _ => 0
  | .call _ arguments _ => 1 + Expression.callDepths arguments

/-- How deep calls nest in the deepest of some values. -/
def Expression.callDepths : List Expression → Nat
  | [] => 0
  | argument :: others => max argument.callDepth (Expression.callDepths others)

end

mutual

/-- Every name in a value is one, and every text in it can be written. -/
def Expression.Writable : Expression → Prop
  | .string value _ => Literal.isPrintable value.toList = true
  | .boolean _ _ => True
  | .call name arguments _ => isName name.name.toList = true ∧ Expression.AllWritable arguments

/-- The same for all values of a list. -/
def Expression.AllWritable : List Expression → Prop
  | [] => True
  | argument :: others => argument.Writable ∧ Expression.AllWritable others

end

/-- The name of a marker is one, and its arguments can be written. -/
def Attribute.Writable (mark : Attribute) : Prop :=
  MarkerName mark.name.toList ∧ Expression.AllWritable mark.arguments

/-- The names of a field are names, and its markers can be written. -/
def Field.Writable (field : Field) : Prop :=
  isName field.name.name.toList = true ∧ isName field.type.name.name.toList = true ∧
    ∀ mark ∈ field.attributes, mark.Writable

/-- The name of an option is one, and its value can be written. -/
def ConfigOption.Writable (option : ConfigOption) : Prop :=
  isName option.key.name.toList = true ∧ option.value.Writable

/-- The name of a block is one, and its lines can be written. -/
def Definition.Writable : Definition → Prop
  | .model block => isName block.name.name.toList = true ∧ ∀ field ∈ block.fields, field.Writable
  | .config block =>
    isName block.name.name.toList = true ∧ ∀ option ∈ block.options, option.Writable

/-- No argument of a marker nests too deeply inside its list. -/
def Attribute.Shallow (mark : Attribute) : Prop :=
  ∀ argument ∈ mark.arguments, argument.callDepth ≤ Schema.maxCallDepth - 1

/-- No marker and no option of a block nests too deeply. -/
def Definition.Shallow : Definition → Prop
  | .model block => ∀ field ∈ block.fields, ∀ mark ∈ field.attributes, mark.Shallow
  | .config block => ∀ option ∈ block.options, option.value.callDepth ≤ Schema.maxCallDepth

/-- A tree that some text has. -/
structure Document.WellFormed (document : Document) : Prop where
  writable : ∀ block ∈ document.definitions, block.Writable
  shallow : ∀ block ∈ document.definitions, block.Shallow

/-! ## Places -/

section

variable (change : Span → Span)

mutual

private theorem Expression.callDepth_mapSpans :
    (e : Expression) → (e.mapSpans change).callDepth = e.callDepth
  | .string _ _ => rfl
  | .boolean _ _ => rfl
  | .call _ arguments _ => by
    simp only [Expression.mapSpans, Expression.callDepth,
      Expression.callDepths_mapSpans arguments]

private theorem Expression.callDepths_mapSpans : (es : List Expression) →
    Expression.callDepths (Expression.mapSpansList change es) = Expression.callDepths es
  | [] => rfl
  | e :: es => by
    simp only [Expression.mapSpansList, Expression.callDepths, Expression.callDepth_mapSpans e,
      Expression.callDepths_mapSpans es]

end

mutual

private theorem Expression.writable_mapSpans :
    (e : Expression) → ((e.mapSpans change).Writable ↔ e.Writable)
  | .string _ _ => Iff.rfl
  | .boolean _ _ => Iff.rfl
  | .call _ arguments _ => by
    simp only [Expression.mapSpans, Expression.Writable, Identifier.mapSpans,
      Expression.allWritable_mapSpans arguments]

private theorem Expression.allWritable_mapSpans : (es : List Expression) →
    (Expression.AllWritable (Expression.mapSpansList change es) ↔ Expression.AllWritable es)
  | [] => Iff.rfl
  | e :: es => by
    simp only [Expression.mapSpansList, Expression.AllWritable, Expression.writable_mapSpans e,
      Expression.allWritable_mapSpans es]

end

end

theorem Expression.callDepths_le {es : List Expression} {limit : Nat} :
    Expression.callDepths es ≤ limit ↔ ∀ e ∈ es, e.callDepth ≤ limit := by
  induction es with
  | nil => simp [Expression.callDepths]
  | cons e es ih => rw [Expression.callDepths, Nat.max_le, ih, List.forall_mem_cons]

theorem Attribute.shallow_iff (mark : Attribute) :
    mark.Shallow ↔ Expression.callDepths mark.arguments ≤ Schema.maxCallDepth - 1 :=
  Expression.callDepths_le.symm

private theorem Definition.writable_mapSpans (change : Span → Span) (block : Definition) :
    (block.mapSpans change).Writable ↔ block.Writable := by
  cases block <;>
    simp [Definition.mapSpans, Definition.Writable, Model.mapSpans, Config.mapSpans,
      Field.mapSpans, FieldType.mapSpans, Attribute.mapSpans, ConfigOption.mapSpans,
      Identifier.mapSpans, Field.Writable, Attribute.Writable, ConfigOption.Writable,
      Expression.writable_mapSpans, Expression.allWritable_mapSpans]

private theorem Definition.shallow_mapSpans (change : Span → Span) (block : Definition) :
    (block.mapSpans change).Shallow ↔ block.Shallow := by
  cases block <;>
    simp [Definition.mapSpans, Definition.Shallow, Model.mapSpans, Config.mapSpans,
      Field.mapSpans, Attribute.mapSpans, ConfigOption.mapSpans, Attribute.shallow_iff,
      Expression.callDepth_mapSpans, Expression.callDepths_mapSpans]

/-- Well-formed trees are well-formed wherever they stand. -/
theorem Document.wellFormed_eraseSpans (document : Document) :
    document.eraseSpans.WellFormed ↔ document.WellFormed := by
  rw [eraseSpans_eq]
  constructor
  · rintro ⟨writable, shallow⟩
    refine ⟨fun block found => ?_, fun block found => ?_⟩
    · exact (block.writable_mapSpans _).1 (writable _ (List.mem_map_of_mem found))
    · exact (block.shallow_mapSpans _).1 (shallow _ (List.mem_map_of_mem found))
  · rintro ⟨writable, shallow⟩
    refine ⟨List.forall_mem_map.2 fun block found => ?_,
      List.forall_mem_map.2 fun block found => ?_⟩
    · exact (block.writable_mapSpans _).2 (writable _ found)
    · exact (block.shallow_mapSpans _).2 (shallow _ found)

/-! ## Sentences -/

namespace Phrase

mutual

private theorem Value.nesting {before after : List Terminal} {value : Expression} :
    Value before value after → ∀ opened, nestingFrom opened before =
      max (opened + value.callDepth) (nestingFrom opened after)
  | .call arguments, opened => by
    have listed := Arguments.nesting arguments opened
    simp only [nestingFrom, openAfter, Expression.callDepth]
    omega
  | .string, _ | .yes, _ | .no, _ => rfl

private theorem Arguments.nesting {before after : List Terminal} {values : List Expression} :
    Arguments before values after → ∀ opened, nestingFrom opened before =
      max (opened + 1 + Expression.callDepths values) (nestingFrom opened after)
  | .none, opened => by
    simp only [nestingFrom, openAfter, Expression.callDepths, Nat.add_sub_cancel]
    omega
  | .some listed, opened => by
    have inner := Values.nesting listed (opened + 1)
    simp only [nestingFrom, openAfter, Nat.add_sub_cancel] at inner ⊢
    omega

private theorem Values.nesting {before after : List Terminal} {values : List Expression} :
    Values before values after → ∀ opened, nestingFrom opened before =
      max (opened + Expression.callDepths values) (nestingFrom opened after)
  | .one single, opened => by
    have only := Value.nesting single opened
    simp only [Expression.callDepths]
    omega
  | .more first others, opened => by
    have front := Value.nesting first opened
    have back := Values.nesting others opened
    simp only [nestingFrom, openAfter, Expression.callDepths] at front ⊢
    omega

end

/-- All of these terminals can be written. -/
abbrev AllSpelled (terminals : List Terminal) : Prop := ∀ terminal ∈ terminals, terminal.Spelled

private theorem AllSpelled.cons {terminal : Terminal} {terminals : List Terminal}
    (spelled : AllSpelled (terminal :: terminals)) : terminal.Spelled ∧ AllSpelled terminals :=
  List.forall_mem_cons.1 spelled

private theorem printable_of_quoted {text : List Char} (quoted : QuotedText text) :
    Literal.isPrintable (String.ofList (Literal.read text)).toList = true := by
  obtain ⟨fits⟩ := quoted
  rw [String.toList_ofList]
  exact Literal.isPrintable_read fits

mutual

private theorem Value.writable {before after : List Terminal} {value : Expression} :
    Value before value after → AllSpelled before → value.Writable ∧ AllSpelled after
  | .call arguments, spelled => by
    obtain ⟨named, spelled⟩ := spelled.cons
    obtain ⟨writable, behind⟩ := Arguments.writable arguments spelled
    exact ⟨⟨named, writable⟩, behind⟩
  | .string, spelled => by
    obtain ⟨quoted, behind⟩ := spelled.cons
    exact ⟨printable_of_quoted quoted, behind⟩
  | .yes, spelled => ⟨trivial, spelled.cons.2⟩
  | .no, spelled => ⟨trivial, spelled.cons.2⟩

private theorem Arguments.writable {before after : List Terminal} {values : List Expression} :
    Arguments before values after → AllSpelled before →
      Expression.AllWritable values ∧ AllSpelled after
  | .none, spelled => ⟨trivial, spelled.cons.2.cons.2⟩
  | .some listed, spelled => by
    obtain ⟨writable, behind⟩ := Values.writable listed spelled.cons.2
    exact ⟨writable, behind.cons.2⟩

private theorem Values.writable {before after : List Terminal} {values : List Expression} :
    Values before values after → AllSpelled before →
      Expression.AllWritable values ∧ AllSpelled after
  | .one single, spelled => by
    obtain ⟨writable, behind⟩ := Value.writable single spelled
    exact ⟨⟨writable, trivial⟩, behind⟩
  | .more first others, spelled => by
    obtain ⟨writable, behind⟩ := Value.writable first spelled
    obtain ⟨others, behind⟩ := Values.writable others behind.cons.2
    exact ⟨⟨writable, others⟩, behind⟩

end

section

variable {α : Type} {part : List Terminal → α → List Terminal → Prop} {good : α → Prop}
  {before after : List Terminal} {trees : List α}

private theorem Many.writable (many : Many part before trees after)
    (step : ∀ before tree rest, part before tree rest → AllSpelled before →
      good tree ∧ AllSpelled rest) (spelled : AllSpelled before) :
    (∀ tree ∈ trees, good tree) ∧ AllSpelled after := by
  induction many with
  | none => exact ⟨List.forall_mem_nil _, spelled⟩
  | more first _ ih =>
    obtain ⟨here, behind⟩ := step _ _ _ first spelled
    obtain ⟨others, behind⟩ := ih behind
    exact ⟨List.forall_mem_cons.2 ⟨here, others⟩, behind⟩

private theorem Many.shallow (many : Many part before trees after)
    (step : ∀ before tree rest, part before tree rest →
      (nesting before ≤ Schema.maxCallDepth ↔
        good tree ∧ nesting rest ≤ Schema.maxCallDepth)) :
    nesting before ≤ Schema.maxCallDepth ↔
      (∀ tree ∈ trees, good tree) ∧ nesting after ≤ Schema.maxCallDepth := by
  induction many with
  | none => simp
  | more first _ ih => rw [step _ _ _ first, ih, List.forall_mem_cons, and_assoc]

end

/-- A terminal that is no parenthesis changes no level. -/
private theorem nesting_cons {terminal : Terminal} (level : openAfter 0 terminal = 0)
    (terminals : List Terminal) : nesting (terminal :: terminals) = nesting terminals := by
  rw [nesting, nestingFrom, level, Nat.zero_max]
  rfl

private theorem Marker.writable {before after : List Terminal} {mark : Attribute}
    (said : Marker before mark after) (spelled : AllSpelled before) :
    mark.Writable ∧ AllSpelled after := by
  cases said with
  | plain => exact ⟨⟨spelled.cons.1, trivial⟩, spelled.cons.2⟩
  | applied arguments =>
    obtain ⟨marked, spelled⟩ := spelled.cons
    obtain ⟨writable, behind⟩ := arguments.writable spelled
    exact ⟨⟨marked, writable⟩, behind⟩

private theorem Marker.shallow {before after : List Terminal} {mark : Attribute}
    (said : Marker before mark after) :
    nesting before ≤ Schema.maxCallDepth ↔
      mark.Shallow ∧ nesting after ≤ Schema.maxCallDepth := by
  rw [Attribute.shallow_iff]
  cases said with
  | plain =>
    rw [nesting_cons rfl]
    simp [Expression.callDepths]
  | applied arguments =>
    have listed := arguments.nesting 0
    have limit : Schema.maxCallDepth = 64 := rfl
    rw [nesting_cons rfl, nesting, listed, nesting]
    dsimp only
    omega

private theorem Sign.spelled {before after : List Terminal} {modifier : TypeModifier}
    (said : Sign before modifier after) (spelled : AllSpelled before) : AllSpelled after := by
  cases said with
  | none => exact spelled
  | optional | array => exact spelled.cons.2

private theorem Sign.nesting {before after : List Terminal} {modifier : TypeModifier}
    (said : Sign before modifier after) : Phrase.nesting before = Phrase.nesting after := by
  cases said with
  | none => rfl
  | optional | array => exact nesting_cons rfl _

private theorem Line.writable {before after : List Terminal} {field : Field}
    (said : Line before field after) (spelled : AllSpelled before) :
    field.Writable ∧ AllSpelled after := by
  obtain ⟨typed, marked⟩ := said
  obtain ⟨sign⟩ := typed
  obtain ⟨named, spelled⟩ := spelled.cons
  obtain ⟨typeNamed, spelled⟩ := spelled.cons
  have signed := sign.spelled spelled
  obtain ⟨writable, behind⟩ := marked.writable (fun _ _ _ => Marker.writable) signed
  exact ⟨⟨named, typeNamed, writable⟩, behind⟩

private theorem Line.shallow {before after : List Terminal} {field : Field}
    (said : Line before field after) :
    nesting before ≤ Schema.maxCallDepth ↔
      (∀ mark ∈ field.attributes, mark.Shallow) ∧ nesting after ≤ Schema.maxCallDepth := by
  obtain ⟨typed, marked⟩ := said
  obtain ⟨sign⟩ := typed
  rw [nesting_cons rfl, nesting_cons rfl, sign.nesting,
    marked.shallow fun _ _ _ => Marker.shallow]

private theorem Setting.writable {before after : List Terminal} {option : ConfigOption}
    (said : Setting before option after) (spelled : AllSpelled before) :
    option.Writable ∧ AllSpelled after := by
  obtain ⟨given⟩ := said
  obtain ⟨named, spelled⟩ := spelled.cons
  obtain ⟨writable, behind⟩ := given.writable spelled.cons.2
  exact ⟨⟨named, writable⟩, behind⟩

private theorem Setting.shallow {before after : List Terminal} {option : ConfigOption}
    (said : Setting before option after) :
    nesting before ≤ Schema.maxCallDepth ↔
      option.value.callDepth ≤ Schema.maxCallDepth ∧ nesting after ≤ Schema.maxCallDepth := by
  obtain ⟨given⟩ := said
  have inner := given.nesting 0
  rw [nesting_cons rfl, nesting_cons rfl, nesting, inner, nesting, Nat.max_le, Nat.zero_add]

private theorem Block.writable {before after : List Terminal} {block : Definition}
    (said : Block before block after) (spelled : AllSpelled before) :
    block.Writable ∧ AllSpelled after := by
  cases said with
  | model lines =>
    obtain ⟨named, spelled⟩ := spelled.cons.2.cons
    obtain ⟨writable, behind⟩ := lines.writable (fun _ _ _ => Line.writable) spelled.cons.2
    exact ⟨⟨named, writable⟩, behind.cons.2⟩
  | config settings =>
    obtain ⟨named, spelled⟩ := spelled.cons.2.cons
    obtain ⟨writable, behind⟩ := settings.writable (fun _ _ _ => Setting.writable) spelled.cons.2
    exact ⟨⟨named, writable⟩, behind.cons.2⟩

private theorem Block.shallow {before after : List Terminal} {block : Definition}
    (said : Block before block after) :
    nesting before ≤ Schema.maxCallDepth ↔
      block.Shallow ∧ nesting after ≤ Schema.maxCallDepth := by
  cases said with
  | model lines =>
    rw [nesting_cons rfl, nesting_cons rfl, nesting_cons rfl,
      lines.shallow fun _ _ _ => Line.shallow, nesting_cons rfl]
    rfl
  | config settings =>
    rw [nesting_cons rfl, nesting_cons rfl, nesting_cons rfl,
      settings.shallow fun _ _ _ => Setting.shallow, nesting_cons rfl]
    rfl

/-- The tree of a sentence can be written if the sentence can. -/
theorem Sentence.writable {terminals : List Terminal} {tree : Document}
    (said : Sentence terminals tree) (spelled : AllSpelled terminals) :
    ∀ block ∈ tree.definitions, block.Writable := by
  obtain ⟨blocks⟩ := said
  exact (blocks.writable (fun _ _ _ => Block.writable) spelled).1

/-- A sentence nests within the limit just when its tree does. -/
theorem Sentence.shallow {terminals : List Terminal} {tree : Document}
    (said : Sentence terminals tree) :
    nesting terminals ≤ Schema.maxCallDepth ↔ ∀ block ∈ tree.definitions, block.Shallow := by
  obtain ⟨blocks⟩ := said
  rw [blocks.shallow fun _ _ _ => Block.shallow]
  exact and_iff_left (Nat.zero_le _)

end Phrase

end SchemaLang
