import SchemaLang.Document.Grammar
import SchemaLang.Document.Structure
import SchemaLang.Proofs.Correspondence

/-! The trees of corresponding feeds. Each rule of the schema grammar builds its node
from the nodes and tokens of its parts and places it by where the first begins and
the last ends, so the two trees differ in nothing but places, and in these only as
the places of the feeds do. -/
namespace SchemaLang.Correspondence

open Schema

/-- Nodes at corresponding places that are the same in what is kept of them. -/
structure Nodes (places : Correspondence) {α : Type} (span : α → Span)
    (change : (Span → Span) → α → α) (first second : α) : Prop where
  start : places.starts (span first).start (span second).start
  stop : places.stops (span first).stop (span second).stop
  same : change places.left first = change places.right second

/-- Names at corresponding places. -/
abbrev Identifiers (places : Correspondence) := places.Nodes Identifier.span Identifier.mapSpans

/-- Values at corresponding places. -/
abbrev Expressions (places : Correspondence) := places.Nodes Expression.span Expression.mapSpans

/-- Types at corresponding places. -/
abbrev FieldTypes (places : Correspondence) := places.Nodes FieldType.span FieldType.mapSpans

/-- Markers at corresponding places. -/
abbrev Attributes (places : Correspondence) := places.Nodes Attribute.span Attribute.mapSpans

/-- Fields at corresponding places. -/
abbrev Fields (places : Correspondence) := places.Nodes Field.span Field.mapSpans

/-- Options at corresponding places. -/
abbrev ConfigOptions (places : Correspondence) :=
  places.Nodes ConfigOption.span ConfigOption.mapSpans

/-- Blocks at corresponding places. -/
abbrev Definitions (places : Correspondence) := places.Nodes Definition.span Definition.mapSpans

variable {places : Correspondence} {limit : Nat}

/-! ## Building nodes -/

theorem Tokens.kept {first second : Token} (tokens : places.Tokens first second) :
    places.left first.span = places.right second.span :=
  places.kept tokens.start tokens.stop

theorem Nodes.map {α : Type} {span : α → Span} {change : (Span → Span) → α → α}
    {firsts seconds : List α} (listed : List.Forall₂ (places.Nodes span change) firsts seconds) :
    firsts.map (change places.left) = seconds.map (change places.right) := by
  induction listed with
  | nil => rfl
  | cons node _ ih => rw [List.map_cons, List.map_cons, node.same, ih]

/-- Values in parentheses, up to the closing one. -/
private abbrev Lists (places : Correspondence) (first second : List Expression × Token) : Prop :=
  List.Forall₂ places.Expressions first.1 second.1 ∧ places.Tokens first.2 second.2

private theorem Lists.same {first second : List Expression × Token}
    (lists : places.Lists first second) :
    Expression.mapSpansList places.left first.1 = Expression.mapSpansList places.right second.1 := by
  rw [Expression.mapSpansList_eq_map, Expression.mapSpansList_eq_map, Nodes.map lists.1]

private theorem fieldTypeOf_nodes {name name' : Identifier} {sign sign' : Option Token}
    (names : places.Identifiers name name') (signs : Option.Rel places.Tokens sign sign') :
    places.FieldTypes (fieldTypeOf name sign) (fieldTypeOf name' sign') := by
  cases signs with
  | none =>
    refine ⟨names.start, names.stop, ?_⟩
    simp only [FieldType.mapSpans, fieldTypeOf, names.same, FieldType.mk.injEq, true_and]
    exact places.kept names.start names.stop
  | some tokens =>
    refine ⟨names.start, tokens.stop, ?_⟩
    simp only [FieldType.mapSpans, fieldTypeOf, names.same, tokens.kind, FieldType.mk.injEq, true_and]
    exact places.kept names.start tokens.stop

private theorem markerOf_nodes {name name' : Token} {values values' : Option (List Expression × Token)}
    (names : places.Tokens name name') (lists : Option.Rel places.Lists values values') :
    places.Attributes (markerOf name values) (markerOf name' values') := by
  cases lists with
  | none =>
    refine ⟨names.start, names.stop, ?_⟩
    simp only [Attribute.mapSpans, markerOf, names.text, Attribute.mk.injEq, true_and]
    exact ⟨rfl, places.kept names.start names.stop⟩
  | some listed =>
    refine ⟨names.start, listed.2.stop, ?_⟩
    simp only [Attribute.mapSpans, markerOf, names.text, listed.same, Attribute.mk.injEq, true_and]
    exact places.kept names.start listed.2.stop

/-- A field ends with its last marker, or else with its type. -/
private theorem stop_of_markers {type type' : FieldType} {marks marks' : List Attribute}
    (types : places.FieldTypes type type') (listed : List.Forall₂ places.Attributes marks marks') :
    places.stops (match marks.getLast? with
        | some last => last.span.stop
        | none => type.span.stop)
      (match marks'.getLast? with
        | some last => last.span.stop
        | none => type'.span.stop) := by
  induction listed with
  | nil => exact types.stop
  | @cons mark mark' _ _ node others ih =>
    cases others with
    | nil => exact node.stop
    | cons next others => simpa only [List.getLast?_cons_cons] using ih

private theorem fieldOf_nodes {name name' : Identifier} {type type' : FieldType}
    {marks marks' : List Attribute} (names : places.Identifiers name name')
    (types : places.FieldTypes type type') (listed : List.Forall₂ places.Attributes marks marks') :
    places.Fields (fieldOf name type marks) (fieldOf name' type' marks') := by
  have stop := stop_of_markers types listed
  refine ⟨names.start, stop, ?_⟩
  simp only [Field.mapSpans, fieldOf, names.same, types.same, Nodes.map listed, Field.mk.injEq,
    true_and]
  exact places.kept names.start stop

/-! ## Rules -/

private theorem identifier_alike :
    places.Rules grammar limit places.Identifiers Schema.identifier := by
  refine .map (.token .identifier) fun token token' tokens => ⟨tokens.start, tokens.stop, ?_⟩
  rw [Identifier.mapSpans, Identifier.mapSpans, tokens.kept, tokens.text]

private theorem named_alike (message : String) :
    places.Rules grammar limit places.Identifiers (named message) :=
  .withMessage identifier_alike message

private theorem string_alike : places.Rules grammar limit places.Expressions Schema.string := by
  refine .map (.token .string) fun token token' tokens => ⟨tokens.start, tokens.stop, ?_⟩
  rw [Expression.mapSpans, Expression.mapSpans, tokens.kept, tokens.text]

private theorem boolean_alike : places.Rules grammar limit places.Expressions boolean := by
  refine .map (.choice (.orElse (.keyword "true") (.last (.keyword "false"))) _)
    fun token token' tokens => ⟨tokens.start, tokens.stop, ?_⟩
  rw [Expression.mapSpans, Expression.mapSpans, tokens.kept, tokens.text]

private theorem arguments_alike
    (inner : places.Rules grammar limit places.Expressions (.ref ())) :
    places.Rules grammar limit places.Lists arguments :=
  .map (.sequence (.next (.token .leftParen) (.last (.nested (.sequence
    (.next (.separated inner (.token .comma)) (.last (.token .rightParen)))) _))))
    fun _ _ listed => listed.2

private theorem call_alike (inner : places.Rules grammar limit places.Expressions (.ref ())) :
    places.Rules grammar limit places.Expressions call := by
  refine .map (.sequence (.next identifier_alike (.last (arguments_alike inner)))) ?_
  rintro ⟨name, values, close⟩ ⟨name', values', close'⟩ ⟨names, listed⟩
  refine ⟨names.start, listed.2.stop, ?_⟩
  simp only [Expression.mapSpans, names.same, listed.same, Expression.call.injEq, true_and]
  exact places.kept names.start listed.2.stop

/-- Values are the one rule that contains itself, each time with a smaller budget. -/
private theorem expression_alike (places : Correspondence) (limit : Nat) :
    places.Rules grammar limit places.Expressions expression := by
  induction limit using Nat.strongRecOn with
  | ind limit ih =>
    have inner : places.Rules grammar limit places.Expressions (.ref ()) := .ref ih
    exact .choice (.orElse (call_alike inner) (.orElse string_alike (.last boolean_alike))) _

private theorem value_alike : places.Rules grammar limit places.Expressions (.ref ()) :=
  .ref fun below _ => expression_alike places below

private theorem fieldType_alike : places.Rules grammar limit places.FieldTypes fieldType := by
  refine .map (.sequence (.next (named_alike _) (.last (.optional
    (.choice (.orElse (.token .question) (.last (.token .brackets))) _))))) ?_
  rintro ⟨name, sign⟩ ⟨name', sign'⟩ ⟨names, signs⟩
  exact fieldTypeOf_nodes names signs

private theorem marker_alike : places.Rules grammar limit places.Attributes marker := by
  refine .map (.sequence (.next (.token .attributeName)
    (.last (.optional (arguments_alike value_alike))))) ?_
  rintro ⟨name, values⟩ ⟨name', values'⟩ ⟨names, lists⟩
  exact markerOf_nodes names lists

private theorem field_alike : places.Rules grammar limit places.Fields field := by
  refine .map (.sequence (.next (named_alike _)
    (.next fieldType_alike (.last (.zeroOrMore marker_alike))))) ?_
  rintro ⟨name, type, marks⟩ ⟨name', type', marks'⟩ ⟨names, types, listed⟩
  exact fieldOf_nodes names types listed

private theorem model_alike : places.Rules grammar limit places.Definitions model := by
  refine .map (.sequence (.next (.keyword "model") (.next (named_alike _)
    (.next (.token .leftBrace) (.last (.takeUntil field_alike .rightBrace)))))) ?_
  rintro ⟨word, name, _, fields, close⟩ ⟨word', name', _, fields', close'⟩
    ⟨words, names, -, listed, closes⟩
  refine ⟨words.start, closes.stop, ?_⟩
  simp only [Definition.mapSpans, Model.mapSpans, names.same, Nodes.map listed,
    Definition.model.injEq, Model.mk.injEq, true_and]
  exact places.kept words.start closes.stop

private theorem configKind_alike :
    places.Rules grammar limit
      (fun kind kind' => kind.1 = kind'.1 ∧ places.Tokens kind.2 kind'.2) configKind :=
  .choice (.orElse (.map (.keyword _) fun _ _ tokens => ⟨rfl, tokens⟩)
    (.last (.map (.keyword _) fun _ _ tokens => ⟨rfl, tokens⟩))) _

private theorem option_alike : places.Rules grammar limit places.ConfigOptions option := by
  refine .map (.sequence (.next (named_alike _) (.next (.token .equals) (.last value_alike)))) ?_
  rintro ⟨key, _, value⟩ ⟨key', _, value'⟩ ⟨keys, -, values⟩
  refine ⟨keys.start, values.stop, ?_⟩
  simp only [ConfigOption.mapSpans, keys.same, values.same, ConfigOption.mk.injEq, true_and]
  exact places.kept keys.start values.stop

private theorem config_alike : places.Rules grammar limit places.Definitions config := by
  refine .map (.sequence (.next configKind_alike (.next (named_alike _)
    (.next (.token .leftBrace) (.last (.takeUntil option_alike .rightBrace)))))) ?_
  rintro ⟨⟨kind, word⟩, name, _, options, close⟩ ⟨⟨kind', word'⟩, name', _, options', close'⟩
    ⟨⟨kinds, words⟩, names, -, listed, closes⟩
  refine ⟨words.start, closes.stop, ?_⟩
  simp only [Definition.mapSpans, Config.mapSpans, names.same, Nodes.map listed,
    Definition.config.injEq, Config.mk.injEq, true_and]
  exact ⟨kinds, places.kept words.start closes.stop⟩

theorem definition_alike : places.Rules grammar limit places.Definitions definition :=
  .choice (.orElse model_alike (.last config_alike)) _

/-- Corresponding feeds are read as trees with the same blocks, as far as their places
are kept, or refused in the same words at corresponding places. -/
theorem document_alike (places : Correspondence) (limit : Nat) :
    places.Rules grammar limit
      (fun tree tree' => tree.definitions.map (Definition.mapSpans places.left) =
        tree'.definitions.map (Definition.mapSpans places.right)) document := by
  refine .map (.takeUntil definition_alike .endOfInput) ?_
  rintro ⟨definitions, stop⟩ ⟨definitions', stop'⟩ ⟨listed, -⟩
  rw [definitions_documentOf, definitions_documentOf, Nodes.map listed]

end SchemaLang.Correspondence
