import SchemaLang.Proofs.Printing

/-! When printing is refused. A tree is printed unless some text in it has no literal, and
of such texts the first one on the way through the tree is reported, whatever its names
are. No other cause comes up: every level that is closed was open. -/
namespace SchemaLang

/-! ## The texts of a tree -/

mutual

/-- The texts in a value, those of a call from its first argument to its last. -/
def Expression.texts : Expression → List String
  | .string value _ => [value]
  | .boolean _ _ => []
  | .call _ arguments _ => Expression.textsOf arguments

/-- The texts in some values, from the first to the last. -/
def Expression.textsOf : List Expression → List String
  | [] => []
  | argument :: others => argument.texts ++ Expression.textsOf others

end

/-- The texts in the markers of a field. -/
def Field.texts (field : Field) : List String :=
  field.attributes.flatMap fun mark => Expression.textsOf mark.arguments

/-- The texts in a block, line by line. -/
def Definition.texts : Definition → List String
  | .model block => block.fields.flatMap Field.texts
  | .config block => block.options.flatMap fun option => option.value.texts

/-- All texts in a tree, in the order in which they are printed. -/
def Document.texts (document : Document) : List String :=
  document.definitions.flatMap Definition.texts

/-! ## Refusals -/

namespace Layout

variable {α β : Type} {texts others : List String}

/-- Something is made unless one of some texts has no literal. Then it is refused for the
first of those. -/
def RefusedFor (texts : List String) (made : Except Unprintable α) : Prop :=
  match texts.find? fun text => !Literal.isPrintable text.toList with
  | none => ∃ result, made = .ok result
  | some text => made = .error (.value text)

theorem refusedFor_ok (result : α) : RefusedFor [] (.ok result : Except Unprintable α) :=
  ⟨result, rfl⟩

theorem RefusedFor.bind {made : Except Unprintable α} {next : α → Except Unprintable β}
    (first : RefusedFor texts made) (second : ∀ result, RefusedFor others (next result)) :
    RefusedFor (texts ++ others) (made >>= next) := by
  unfold RefusedFor at first ⊢
  rw [List.find?_append]
  cases found : texts.find? fun text => !Literal.isPrintable text.toList with
  | some text =>
    rw [found] at first
    rw [first]
    rfl
  | none =>
    rw [found] at first
    obtain ⟨result, rfl⟩ := first
    exact second result

/-- What is returned from something that is made does not matter. -/
theorem RefusedFor.map {made : Except Unprintable α} (first : RefusedFor texts made)
    (change : α → β) : RefusedFor texts (do return change (← made)) := by
  have whole := first.bind fun result => refusedFor_ok (change result)
  rwa [List.append_nil] at whole

theorem RefusedFor.mapM {make : α → Except Unprintable β} {textsOf : α → List String}
    (each : ∀ tree, RefusedFor (textsOf tree) (make tree)) (trees : List α) :
    RefusedFor (trees.flatMap textsOf) (trees.mapM make) := by
  induction trees with
  | nil => exact refusedFor_ok []
  | cons tree trees ih =>
    rw [List.mapM_cons, List.flatMap_cons]
    exact (each tree).bind fun result => ih.map (result :: ·)

theorem literal_refused (value : String) : RefusedFor [value] (literal value) := by
  unfold RefusedFor literal
  cases printable : Literal.isPrintable value.toList <;> simp [printable]

mutual

theorem expression_refused : (value : Expression) → RefusedFor value.texts (expression value)
  | .string value _ => literal_refused value
  | .boolean _ _ => refusedFor_ok _
  | .call name arguments _ => by
    rw [expression]
    exact (expressions_refused arguments).map (name.name.toList ++ inParens ·)

theorem expressions_refused : (values : List Expression) →
    RefusedFor (Expression.textsOf values) (expressions values)
  | [] => refusedFor_ok []
  | value :: values => by
    rw [expressions]
    exact (expression_refused value).bind fun text => (expressions_refused values).map (text :: ·)

end

theorem marker_refused (mark : Attribute) :
    RefusedFor (Expression.textsOf mark.arguments) (marker mark) := by
  unfold marker
  cases mark.arguments with
  | nil => exact refusedFor_ok _
  | cons value values =>
    exact (expressions_refused (value :: values)).map (mark.name.toList ++ inParens ·)

theorem field_refused (longest : Nat) (line : Field) :
    RefusedFor line.texts (field longest line) :=
  (RefusedFor.mapM marker_refused line.attributes).map _

theorem option_refused (line : ConfigOption) : RefusedFor line.value.texts (option line) :=
  (expression_refused line.value).map _

theorem definition_refused (tree : Definition) : RefusedFor tree.texts (definition tree) := by
  cases tree with
  | model block =>
    exact (RefusedFor.mapM (field_refused (longestName block.fields)) block.fields).map _
  | config block => exact (RefusedFor.mapM option_refused block.options).map _

theorem lines_refused (trees : List Definition) :
    RefusedFor (trees.flatMap Definition.texts) (lines trees) :=
  (RefusedFor.mapM definition_refused trees).map _

variable {made : Except Unprintable α}

theorem RefusedFor.error_iff (refused : RefusedFor texts made) (cause : Unprintable) :
    made = .error cause ↔
      ∃ text, (texts.find? fun text => !Literal.isPrintable text.toList) = some text ∧
        cause = .value text := by
  unfold RefusedFor at refused
  split at refused
  · rename_i lacking
    obtain ⟨result, rfl⟩ := refused
    simp [lacking]
  · rename_i text found
    simp [refused, found, eq_comm]

/-- There is a refusal exactly if some text has no literal. -/
theorem RefusedFor.exists_iff (refused : RefusedFor texts made) :
    (∃ cause, made = .error cause) ↔ ∃ text ∈ texts, Literal.isPrintable text.toList = false := by
  simp only [refused.error_iff]
  constructor
  · rintro ⟨_, text, found, -⟩
    exact ⟨text, List.mem_of_find?_eq_some found, by simpa using List.find?_some found⟩
  · rintro ⟨text, held, bad⟩
    have exists_bad : (texts.find? fun text => !Literal.isPrintable text.toList).isSome :=
      List.find?_isSome.2 ⟨text, held, by simpa using bad⟩
    obtain ⟨first, found⟩ := Option.isSome_iff_exists.1 exists_bad
    exact ⟨_, first, found, rfl⟩

/-- Its cause is the text without a literal that has none in front of it. -/
theorem RefusedFor.first_iff (refused : RefusedFor texts made) (cause : Unprintable) :
    made = .error cause ↔ ∃ earlier text later, texts = earlier ++ text :: later ∧
      (∀ other ∈ earlier, Literal.isPrintable other.toList = true) ∧
      Literal.isPrintable text.toList = false ∧ cause = .value text := by
  rw [refused.error_iff]
  simp only [List.find?_eq_some_iff_append, Bool.not_eq_true', Bool.not_not]
  constructor
  · rintro ⟨text, ⟨bad, earlier, later, split, good⟩, same⟩
    exact ⟨earlier, text, later, split, good, bad, same⟩
  · rintro ⟨earlier, text, later, split, good, bad, same⟩
    exact ⟨text, ⟨bad, earlier, later, split, good⟩, same⟩

end Layout

/-- **Printing is refused for the first text without a literal, and for nothing else.** The
printer closes no level that is not open, whatever the tree. -/
theorem Document.print_refused_iff (document : Document) :
    ((∃ cause, document.print = .error cause) ↔
      ∃ text ∈ document.texts, Literal.isPrintable text.toList = false) ∧
    (∀ cause, document.print = .error cause ↔
      ∃ earlier text later, document.texts = earlier ++ text :: later ∧
        (∀ other ∈ earlier, Literal.isPrintable other.toList = true) ∧
        Literal.isPrintable text.toList = false ∧ cause = .value text) ∧
    document.print ≠ .error .belowMargin := by
  have refused : Layout.RefusedFor document.texts document.print := by
    rw [print_eq]
    exact (Layout.lines_refused document.definitions).map _
  refine ⟨refused.exists_iff, refused.first_iff, fun below => ?_⟩
  obtain ⟨text, -, same⟩ := (refused.error_iff .belowMargin).1 below
  cases same

/-- The first of two texts without a literal is reported, though it stands deeper. -/
example :
    let name : Identifier := ⟨"a", default⟩
    let bad := fun text => Expression.string text default
    let marks : List Attribute := [⟨"@b", [.call name [bad "\n"] default, bad "\\"], default⟩]
    let block : Model := ⟨name, [⟨name, ⟨name, .none, default⟩, marks, default⟩], default⟩
    Document.print ⟨[.model block], default⟩ = .error (.value "\n") := by rfl

end SchemaLang
