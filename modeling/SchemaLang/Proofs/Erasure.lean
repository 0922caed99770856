import SchemaLang.Proofs.Printing
import SchemaLang.Proofs.Language

/-! Places carry no structure. Two trees are compared as equal just when they are the
same once all places are taken away, and a tree is written the same way without them. -/
namespace SchemaLang

/-! ## Comparison -/

theorem sameElements_iff {α β : Type} {same : α → α → Bool} {erase : α → β}
    (agrees : ∀ a b, same a b = true ↔ erase a = erase b) (as bs : List α) :
    sameElements same as bs = true ↔ as.map erase = bs.map erase := by
  induction as generalizing bs with
  | nil => cases bs <;> simp [sameElements]
  | cons a as ih =>
    cases bs with
    | nil => simp [sameElements]
    | cons b bs => simp [sameElements, agrees, ih]

theorem Identifier.sameStructure_iff (a b : Identifier) :
    a.sameStructure b = true ↔ a.mapSpans unplaced = b.mapSpans unplaced := by
  simp [sameStructure, mapSpans]

mutual

theorem Expression.sameStructure_iff : (a b : Expression) →
    (a.sameStructure b = true ↔ a.mapSpans unplaced = b.mapSpans unplaced)
  | .string _ _, .string _ _ => by simp [Expression.sameStructure, Expression.mapSpans]
  | .boolean _ _, .boolean _ _ => by simp [Expression.sameStructure, Expression.mapSpans]
  | .call n as _, .call m bs _ => by
    simp [Expression.sameStructure, Expression.mapSpans, Identifier.sameStructure_iff,
      Expression.sameStructures_iff as bs]
  | .string _ _, .boolean _ _ | .string _ _, .call _ _ _ | .boolean _ _, .string _ _
  | .boolean _ _, .call _ _ _ | .call _ _ _, .string _ _ | .call _ _ _, .boolean _ _ => by
    simp [Expression.sameStructure, Expression.mapSpans]

theorem Expression.sameStructures_iff : (as bs : List Expression) →
    (Expression.sameStructures as bs = true ↔
      Expression.mapSpansList unplaced as = Expression.mapSpansList unplaced bs)
  | [], [] => by simp [Expression.sameStructures]
  | [], _ :: _ => by simp [Expression.sameStructures, Expression.mapSpansList]
  | _ :: _, [] => by simp [Expression.sameStructures, Expression.mapSpansList]
  | a :: as, b :: bs => by
    simp [Expression.sameStructures, Expression.mapSpansList, Expression.sameStructure_iff a b,
      Expression.sameStructures_iff as bs]

end

theorem FieldType.sameStructure_iff (a b : FieldType) :
    a.sameStructure b = true ↔ a.mapSpans unplaced = b.mapSpans unplaced := by
  simp [sameStructure, mapSpans, Identifier.sameStructure_iff]

theorem Attribute.sameStructure_iff (a b : Attribute) :
    a.sameStructure b = true ↔ a.mapSpans unplaced = b.mapSpans unplaced := by
  simp [sameStructure, mapSpans, Expression.sameStructures_iff]

theorem Field.sameStructure_iff (a b : Field) :
    a.sameStructure b = true ↔ a.mapSpans unplaced = b.mapSpans unplaced := by
  simp [sameStructure, mapSpans, Identifier.sameStructure_iff, FieldType.sameStructure_iff,
    sameElements_iff Attribute.sameStructure_iff, and_assoc]

theorem Model.sameStructure_iff (a b : Model) :
    a.sameStructure b = true ↔ a.mapSpans unplaced = b.mapSpans unplaced := by
  simp [sameStructure, mapSpans, Identifier.sameStructure_iff,
    sameElements_iff Field.sameStructure_iff]

theorem ConfigOption.sameStructure_iff (a b : ConfigOption) :
    a.sameStructure b = true ↔ a.mapSpans unplaced = b.mapSpans unplaced := by
  simp [sameStructure, mapSpans, Identifier.sameStructure_iff, Expression.sameStructure_iff]

theorem Config.sameStructure_iff (a b : Config) :
    a.sameStructure b = true ↔ a.mapSpans unplaced = b.mapSpans unplaced := by
  simp [sameStructure, mapSpans, Identifier.sameStructure_iff,
    sameElements_iff ConfigOption.sameStructure_iff, and_assoc]

theorem Definition.sameStructure_iff (a b : Definition) :
    a.sameStructure b = true ↔ a.mapSpans unplaced = b.mapSpans unplaced := by
  cases a <;> cases b <;>
    simp [sameStructure, mapSpans, Model.sameStructure_iff, Config.sameStructure_iff]

theorem Document.eraseSpans_eq (document : Document) :
    document.eraseSpans = ⟨document.definitions.map (Definition.mapSpans unplaced), nowhere⟩ := rfl

/-- Trees have the same structure just when they are the same without their places. -/
theorem Document.sameStructure_iff (a b : Document) :
    a.sameStructure b = true ↔ a.eraseSpans = b.eraseSpans := by
  rw [sameStructure, sameElements_iff Definition.sameStructure_iff, eraseSpans_eq, eraseSpans_eq]
  simp

/-! ## Layout -/

namespace Layout

mutual

private theorem expression_mapSpans (change : Span → Span) :
    (e : Expression) → expression (e.mapSpans change) = expression e
  | .string _ _ => rfl
  | .boolean _ _ => rfl
  | .call name arguments _ => by
    simp only [Expression.mapSpans, expression, expressions_mapSpans change arguments,
      Identifier.mapSpans]

private theorem expressions_mapSpans (change : Span → Span) :
    (es : List Expression) → expressions (Expression.mapSpansList change es) = expressions es
  | [] => rfl
  | e :: es => by
    simp only [Expression.mapSpansList, expressions, expression_mapSpans change e,
      expressions_mapSpans change es]

end

private theorem marker_mapSpans (change : Span → Span) (mark : Attribute) :
    marker (mark.mapSpans change) = marker mark := by
  obtain ⟨name, arguments, span⟩ := mark
  simp only [marker, Attribute.mapSpans, expressions_mapSpans]
  cases arguments <;> rfl

private theorem field_mapSpans (change : Span → Span) (longest : Nat) (line : Field) :
    field longest (line.mapSpans change) = field longest line := by
  simp only [field, Field.mapSpans, List.mapM_map, Function.comp_def, marker_mapSpans]
  rfl

private theorem option_mapSpans (change : Span → Span) (line : ConfigOption) :
    option (line.mapSpans change) = option line := by
  simp only [option, ConfigOption.mapSpans, expression_mapSpans]
  rfl

private theorem longestName_mapSpans (change : Span → Span) (fields : List Field) :
    longestName (fields.map (Field.mapSpans change)) = longestName fields := by
  simp only [longestName, List.foldl_map]
  rfl

private theorem definition_mapSpans (change : Span → Span) (block : Definition) :
    definition (block.mapSpans change) = definition block := by
  cases block with
  | model model =>
    simp only [definition, Definition.mapSpans, Model.mapSpans, longestName_mapSpans,
      List.mapM_map, Function.comp_def, field_mapSpans]
    rfl
  | config config =>
    simp only [definition, Definition.mapSpans, Config.mapSpans, List.mapM_map, Function.comp_def,
      option_mapSpans]
    rfl

end Layout

/-- A tree is written the same way without its places. -/
theorem Document.print_eraseSpans (document : Document) :
    document.eraseSpans.print = document.print := by
  simp only [print_eq, eraseSpans_eq, Layout.lines, List.mapM_map, Function.comp_def,
    Layout.definition_mapSpans]

end SchemaLang
