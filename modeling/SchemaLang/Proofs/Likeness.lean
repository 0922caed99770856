import SchemaLang.Proofs.Erasure
import SchemaLang.Proofs.Nesting

/-! Likeness of trees. To compare two trees node by node is to take the places out of both
and to ask whether the same is left, for a whole text as for every kind of node in it. So
being alike is an equivalence, and what is the same with its places is the same without
them. Nothing but places goes: the nodes of a tree without places are those of the tree,
each standing nowhere. -/
namespace SchemaLang

/-! ## What is left of a node -/

/-- A node with its place and those of the nodes in it replaced. -/
def Node.mapSpans (change : Span → Span) : Node → Node
  | .name identifier => .name (identifier.mapSpans change)
  | .value expression => .value (expression.mapSpans change)
  | .type sort => .type (sort.mapSpans change)
  | .marker mark => .marker (mark.mapSpans change)
  | .field line => .field (line.mapSpans change)
  | .option line => .option (line.mapSpans change)
  | .block definition => .block (definition.mapSpans change)

namespace Node

variable (change : Span → Span)

theorem span_mapSpans (node : Node) : (node.mapSpans change).span = change node.span := by
  cases node with
  | value expression => cases expression <;> rfl
  | block definition => cases definition <;> rfl
  | name | type | marker | field | option => rfl

/-- Replacing places keeps the nodes that a node is made from, in their order. -/
theorem children_mapSpans (node : Node) :
    (node.mapSpans change).children = node.children.map (mapSpans change) := by
  cases node with
  | name | type | option => rfl
  | value expression =>
    cases expression with
    | string | boolean => rfl
    | call callee arguments span =>
      simp only [mapSpans, children, Expression.mapSpans, Expression.mapSpansList_eq_map,
        List.map_cons, List.map_map]
      rfl
  | marker mark =>
    simp only [mapSpans, children, Attribute.mapSpans, Expression.mapSpansList_eq_map, List.map_map]
    rfl
  | field line =>
    simp only [mapSpans, children, Field.mapSpans, List.map_cons, List.map_map]
    rfl
  | block definition =>
    cases definition with
    | model model =>
      simp only [mapSpans, children, Definition.mapSpans, Model.mapSpans, List.map_cons,
        List.map_map]
      rfl
    | config config =>
      simp only [mapSpans, children, Definition.mapSpans, Config.mapSpans, List.map_cons,
        List.map_map]
      rfl

end Node

namespace Document

/-- The nodes of a tree whose places are replaced are those of the tree itself, each with its
places replaced. -/
theorem has_mapSpans_iff (change : Span → Span) (document : Document) (node : Node) :
    Has (document.mapSpans change) node ↔
      ∃ origin, Has document origin ∧ node = origin.mapSpans change := by
  constructor
  · intro has
    induction has with
    | block listed =>
      obtain ⟨block, within, rfl⟩ := List.mem_map.1 listed
      exact ⟨.block block, .block within, rfl⟩
    | child has part ih =>
      obtain ⟨origin, within, rfl⟩ := ih
      rw [Node.children_mapSpans] at part
      obtain ⟨inner, under, rfl⟩ := List.mem_map.1 part
      exact ⟨inner, .child within under, rfl⟩
  · rintro ⟨origin, has, rfl⟩
    induction has with
    | block listed => exact .block (List.mem_map_of_mem listed)
    | child has part ih =>
      refine .child ih ?_
      rw [Node.children_mapSpans]
      exact List.mem_map_of_mem part

/-- No node of a tree without places stands anywhere. -/
theorem span_of_has_eraseSpans {document : Document} {node : Node}
    (has : Has document.eraseSpans node) : node.span = nowhere := by
  obtain ⟨origin, -, rfl⟩ := (has_mapSpans_iff _ document node).1 has
  exact Node.span_mapSpans unplaced origin

end Document

/-! ## What a comparison sees -/

/-- A comparison that sees all but the places: it holds just of what is the same without
them. -/
structure Structural {α : Type} [DecidableEq α] (same : α → α → Bool) (erase : α → α) :
    Prop where
  same_iff : ∀ a b, same a b = true ↔ erase a = erase b
  equivalence : Equivalence fun a b => same a b = true
  of_beq : ∀ a b, (a == b) = true → same a b = true

/-- To compare what is left after a change is an equivalence, and sees no more than equality
does. -/
theorem Structural.of_iff {α : Type} [DecidableEq α] {same : α → α → Bool} {erase : α → α}
    (agrees : ∀ a b, same a b = true ↔ erase a = erase b) : Structural same erase where
  same_iff := agrees
  equivalence :=
    { refl := fun a => (agrees a a).2 rfl
      symm := fun alike => (agrees _ _).2 ((agrees _ _).1 alike).symm
      trans := fun first second =>
        (agrees _ _).2 (((agrees _ _).1 first).trans ((agrees _ _).1 second)) }
  of_beq := fun a b equal => (agrees a b).2 (congrArg erase (eq_of_beq equal))

/-- Lists agree element by element just when they are equally long and every two elements at
one index agree. -/
theorem sameElements_iff_zip {α : Type} (same : α → α → Bool) (as bs : List α) :
    sameElements same as bs = true ↔
      as.length = bs.length ∧ ∀ pair ∈ as.zip bs, same pair.1 pair.2 = true := by
  induction as generalizing bs with
  | nil => cases bs <;> simp [sameElements]
  | cons a as ih =>
    cases bs with
    | nil => simp [sameElements]
    | cons b bs =>
      simp only [sameElements, Bool.and_eq_true, ih, List.length_cons, Nat.add_right_cancel_iff,
        List.zip_cons_cons, List.forall_mem_cons]
      exact and_left_comm

/-- **Trees are compared by all but their places.** For nodes of every kind and for whole
texts, being alike is being the same once every place is taken out, an equivalence that
equality implies. Whole texts are alike just when they have equally many blocks and these
are alike in pairs. What is left without places stands nowhere, in all its nodes. -/
theorem Document.structural :
    Structural Document.sameStructure Document.eraseSpans ∧
    Structural Definition.sameStructure (Definition.mapSpans unplaced) ∧
    Structural Model.sameStructure (Model.mapSpans unplaced) ∧
    Structural Config.sameStructure (Config.mapSpans unplaced) ∧
    Structural Field.sameStructure (Field.mapSpans unplaced) ∧
    Structural FieldType.sameStructure (FieldType.mapSpans unplaced) ∧
    Structural Attribute.sameStructure (Attribute.mapSpans unplaced) ∧
    Structural ConfigOption.sameStructure (ConfigOption.mapSpans unplaced) ∧
    Structural Expression.sameStructure (Expression.mapSpans unplaced) ∧
    Structural Identifier.sameStructure (Identifier.mapSpans unplaced) ∧
    (∀ a b : Document, a.sameStructure b = true ↔
      a.definitions.length = b.definitions.length ∧
        ∀ pair ∈ a.definitions.zip b.definitions, pair.1.sameStructure pair.2 = true) ∧
    ∀ document : Document, document.eraseSpans.span = nowhere ∧
      ∀ node, document.eraseSpans.Has node → node.span = nowhere := by
  refine ⟨.of_iff sameStructure_iff, .of_iff Definition.sameStructure_iff,
    .of_iff Model.sameStructure_iff, .of_iff Config.sameStructure_iff,
    .of_iff Field.sameStructure_iff, .of_iff FieldType.sameStructure_iff,
    .of_iff Attribute.sameStructure_iff, .of_iff ConfigOption.sameStructure_iff,
    .of_iff Expression.sameStructure_iff, .of_iff Identifier.sameStructure_iff, ?_, ?_⟩
  · intro a b
    exact sameElements_iff_zip Definition.sameStructure a.definitions b.definitions
  · intro document
    exact ⟨rfl, fun node => span_of_has_eraseSpans⟩

end SchemaLang
