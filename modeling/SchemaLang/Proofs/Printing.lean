import SchemaLang.Document.Printer

/-! What the printer writes is the layout of the tree, line by line. A step goes on with the
line in progress, or with the lines that are done, by what the layout makes of the same
part, and it is refused for the same cause. So no level is closed that was not opened. -/
namespace SchemaLang

namespace Printer

variable {α τ : Type}

/-! ## Adding -/

/-- From every text under construction that is ready for it, a step adds what is made, or
is refused if nothing can be made. -/
def Adds (add : List τ → Printer → Printer) (ready : Printer → Prop) (step : Printing Unit)
    (made : Except Unprintable (List τ)) : Prop :=
  ∀ printer, ready printer → step.run printer = made.map fun items => ((), add items printer)

/-- Adding is done part by part. -/
structure Cumulative (add : List τ → Printer → Printer) (ready : Printer → Prop) : Prop where
  nil : ∀ printer, add [] printer = printer
  append : ∀ items others printer, add (items ++ others) printer = add others (add items printer)
  ready : ∀ items printer, ready printer → ready (add items printer)

section

variable {add : List τ → Printer → Printer} {ready ready' : Printer → Prop}
  {step next : Printing Unit} {made made' : Except Unprintable (List τ)}

theorem Adds.refused (cause : Unprintable) : Adds add ready (throw cause) (.error cause) :=
  fun _ _ => rfl

theorem Adds.nothing (cumulative : Cumulative add ready) : Adds add ready (pure ()) (.ok []) :=
  fun printer _ => congrArg (fun after => Except.ok ((), after)) (cumulative.nil printer).symm

theorem Adds.andThen (cumulative : Cumulative add ready') (first : Adds add ready step made)
    (kept : ∀ items printer, ready printer → ready' (add items printer))
    (second : Adds add ready' next made') :
    Adds add ready (do step; next) (do
      let items ← made
      let others ← made'
      return items ++ others) := by
  intro printer here
  rw [StateT.run_bind, first printer here]
  cases made with
  | error cause => rfl
  | ok items =>
    show next.run (add items printer) = _
    rw [second _ (kept items printer here)]
    cases made' with
    | error cause => rfl
    | ok others => exact congrArg (fun after => Except.ok ((), after)) (cumulative.append ..).symm

/-- A step behind one that always adds the same. -/
theorem Adds.behind (cumulative : Cumulative add ready) {front : List τ}
    (first : Adds add ready step (.ok front)) (second : Adds add ready next made) :
    Adds add ready (do step; next) (made.map (front ++ ·)) := by
  have both := first.andThen cumulative cumulative.ready second
  cases made <;> exact both

/-- Steps for the elements of a list add what is made of them, one behind the other. -/
theorem Adds.each (cumulative : Cumulative add ready) {item : α → Printing Unit}
    {make : α → Except Unprintable (List τ)} (each : ∀ tree, Adds add ready (item tree) (make tree))
    (trees : List α) :
    Adds add ready (trees.forM item) ((trees.mapM make).map List.flatten) := by
  induction trees with
  | nil => exact .nothing cumulative
  | cons tree trees ih =>
    have both := (each tree).andThen cumulative cumulative.ready ih
    show Adds add ready (do item tree; trees.forM item) _
    rw [List.mapM_cons]
    cases here : make tree with
    | error cause => rwa [here] at both
    | ok items =>
      rw [here] at both
      cases others : trees.mapM make with
      | error cause => rwa [others] at both
      | ok more => rwa [others] at both

end

/-- What is made of the elements of a list can be changed for all of them at the end. -/
theorem mapM_map {β γ ε : Type} (make : α → Except ε β) (change : β → γ) (trees : List α) :
    (trees.mapM fun tree => (make tree).map change) = (trees.mapM make).map (List.map change) := by
  induction trees with
  | nil => rfl
  | cons tree trees ih =>
    rw [List.mapM_cons, List.mapM_cons, ih]
    cases make tree with
    | error cause => rfl
    | ok result => cases trees.mapM make <;> rfl

/-! ## The line in progress -/

/-- Goes on with the line in progress. -/
def extend (text : List Char) (printer : Printer) : Printer :=
  { printer with current := printer.current ++ text }

/-- A step writes a text in the line in progress. -/
abbrev Writes (step : Printing Unit) (text : Except Unprintable (List Char)) : Prop :=
  Adds extend (fun _ => True) step text

theorem cumulative_extend : Cumulative extend fun _ => True where
  nil printer := by rw [extend, List.append_nil]
  append text others printer := by rw [extend, extend, extend, List.append_assoc]
  ready _ _ _ := trivial

theorem writes_write (text : List Char) : Writes (write text) (.ok text) := fun _ _ => rfl

theorem Writes.andThen {step next : Printing Unit} {text text' : Except Unprintable (List Char)}
    (first : Writes step text) (second : Writes next text') :
    Writes (do step; next) (do
      let text ← text
      let text' ← text'
      return text ++ text') :=
  Adds.andThen cumulative_extend first cumulative_extend.ready second

theorem writes_nothing : Writes (pure ()) (.ok []) := .nothing cumulative_extend

theorem Writes.each {item : α → Printing Unit} {make : α → Except Unprintable (List Char)}
    (each : ∀ tree, Writes (item tree) (make tree)) (trees : List α) :
    Writes (trees.forM item) ((trees.mapM make).map List.flatten) :=
  Adds.each cumulative_extend each trees

/-- A step writes what a plain text and another step make together. -/
theorem Writes.behind {step : Printing Unit} {text : Except Unprintable (List Char)}
    (writes : Writes step text) (front : List Char) :
    Writes (do write front; step) (text.map (front ++ ·)) :=
  Adds.behind cumulative_extend (writes_write front) writes

theorem Writes.before {step : Printing Unit} {text : Except Unprintable (List Char)}
    (writes : Writes step text) (back : List Char) :
    Writes (do step; write back) (text.map (· ++ back)) := by
  have both := writes.andThen (writes_write back)
  cases text <;> exact both

/-- A list with something between its elements. -/
theorem flatten_intersperse (between first : List τ) (others : List (List τ)) :
    ((first :: others).intersperse between).flatten = first ++ others.flatMap (between ++ ·) := by
  induction others generalizing first with
  | nil => simp
  | cons next others ih =>
    rw [List.intersperse_cons_cons, List.flatten_cons, List.flatten_cons, ih, List.flatMap_cons,
      List.append_assoc]

/-! ## Values -/

theorem literal_writes (value : String) : Writes (literal value) (Layout.literal value) := by
  unfold literal Layout.literal
  split
  · exact ((writes_write ['"']).behind (Literal.escape value.toList)).behind ['"']
  · exact .refused _

/-- Values in parentheses. -/
theorem Writes.inParens {step : Printing Unit} {texts : Except Unprintable (List (List Char))}
    (inner : Writes step (texts.map fun texts => (texts.intersperse [',', ' ']).flatten)) :
    Writes (do write ['(']; step; write [')']) (texts.map Layout.inParens) := by
  have whole := (inner.before [')']).behind ['(']
  cases texts <;> exact whole

mutual

theorem expression_writes : (value : Expression) →
    Writes (expression value) (Layout.expression value)
  | .string value _ => literal_writes value
  | .boolean value _ => writes_write _
  | .call name values _ => by
    have whole := (expressions_write values).inParens.behind name.name.toList
    rw [Layout.expression]
    cases made : Layout.expressions values <;> rw [made] at whole <;> exact whole

theorem expressions_write : (values : List Expression) →
    Writes (expressions values) ((Layout.expressions values).map fun texts =>
      (texts.intersperse [',', ' ']).flatten)
  | [] => writes_nothing
  | value :: values => by
    have both := (expression_writes value).andThen (further_writes values)
    rw [Layout.expressions]
    cases made : Layout.expression value with
    | error cause => rwa [made] at both
    | ok text =>
      cases others : Layout.expressions values with
      | error cause => rwa [made, others] at both
      | ok texts =>
        show Writes _ (.ok ((text :: texts).intersperse [',', ' ']).flatten)
        rw [flatten_intersperse]
        rwa [made, others] at both

theorem further_writes : (values : List Expression) →
    Writes (further values) ((Layout.expressions values).map (List.flatMap ([',', ' '] ++ ·)))
  | [] => writes_nothing
  | value :: values => by
    have both := ((expression_writes value).andThen (further_writes values)).behind [',', ' ']
    rw [Layout.expressions]
    cases made : Layout.expression value with
    | error cause => rwa [made] at both
    | ok text =>
      cases others : Layout.expressions values with
      | error cause => rwa [made, others] at both
      | ok texts => rwa [made, others] at both

end

/-! ## Lines -/

theorem marker_writes (mark : Attribute) : Writes (marker mark) (Layout.marker mark) := by
  unfold marker Layout.marker
  cases mark.arguments with
  | nil =>
    have whole := writes_nothing.behind mark.name.toList
    rwa [Except.map, List.append_nil] at whole
  | cons value values =>
    have whole := (expressions_write (value :: values)).inParens.behind mark.name.toList
    cases made : Layout.expressions (value :: values) <;> rw [made] at whole <;> exact whole

/-- The line in progress has nothing in it yet. -/
def Fresh (printer : Printer) : Prop := printer.current = []

theorem writeAligned_run (text : List Char) (column : Nat) (printer : Printer) :
    (writeAligned text column).run printer =
      .ok ((), extend (Layout.spaces (column - printer.current.length) ++ text) printer) := by
  rw [extend, ← List.append_assoc]
  rfl

/-- In a fresh line the type of a field is aligned behind the longest name. -/
theorem aligned_writes (longest : Nat) (name type : List Char) :
    Adds extend Fresh (do
        write name
        write [' ', ' ']
        writeAligned type (longest + Layout.typeGap))
      (.ok (name ++ Layout.spaces (longest - name.length + Layout.typeGap) ++ type)) := by
  rintro ⟨lines, _, depth⟩ rfl
  have gap : Layout.typeGap = 2 := rfl
  have width : longest + Layout.typeGap - (name ++ [' ', ' ']).length = longest - name.length := by
    rw [List.length_append, gap]
    exact Nat.add_sub_add_right ..
  have spaced : Layout.spaces (longest - name.length + Layout.typeGap) =
      [' ', ' '] ++ Layout.spaces (longest - name.length) := by
    rw [Nat.add_comm, gap]
    exact List.replicate_append_replicate.symm
  show (writeAligned type (longest + Layout.typeGap)).run ⟨lines, name ++ [' ', ' '], depth⟩ = _
  rw [writeAligned_run, width, spaced]
  simp only [Except.map, extend, List.nil_append, List.append_assoc]

theorem field_writes (longest : Nat) (line : Field) :
    Adds extend Fresh (field (longest + Layout.typeGap) line) (Layout.field longest line) := by
  have marks := Writes.each (fun mark => (marker_writes mark).behind [' ']) line.attributes
  have whole := (aligned_writes longest line.name.name.toList line.type.name.name.toList).andThen
    cumulative_extend (fun _ _ _ => trivial) (marks.behind line.type.modifier.suffix.toList)
  rw [mapM_map] at whole
  have same : (do
      (do write line.name.name.toList
          write [' ', ' ']
          writeAligned line.type.name.name.toList (longest + Layout.typeGap))
      write line.type.modifier.suffix.toList
      line.attributes.forM fun mark => do
        write [' ']
        marker mark) = field (longest + Layout.typeGap) line := by
    simp only [field, fieldType, bind_assoc]
  rw [same] at whole
  unfold Layout.field
  cases made : line.attributes.mapM Layout.marker with
  | error cause => rwa [made] at whole
  | ok texts =>
    rw [made, String.length_toList] at whole
    show Adds extend Fresh _ (.ok (_ ++ texts.flatMap (' ' :: ·)))
    rw [List.append_assoc]
    exact whole

theorem option_writes (line : ConfigOption) : Writes (option line) (Layout.option line) := by
  have whole := ((expression_writes line.value).behind " = ".toList).behind line.key.name.toList
  unfold option Layout.option
  cases made : Layout.expression line.value with
  | error cause => rwa [made] at whole
  | ok value =>
    show Writes _ (.ok (line.key.name.toList ++ " = ".toList ++ value))
    rw [List.append_assoc]
    rwa [made] at whole

/-! ## The lines that are done -/

/-- Puts lines behind those that are done. -/
def put (lines : List (List Char)) (printer : Printer) : Printer :=
  { printer with lines := printer.lines ++ lines.toArray }

/-- The line in progress has nothing in it yet, and stands so many levels deep. -/
def FreshAt (depth : Nat) (printer : Printer) : Prop := Fresh printer ∧ printer.depth = depth

/-- In a fresh line a step puts lines behind those that are done, and leaves a fresh line. -/
abbrev Puts (depth : Nat) (step : Printing Unit)
    (lines : Except Unprintable (List (List Char))) : Prop :=
  Adds put (FreshAt depth) step lines

variable {depth : Nat} {step next : Printing Unit}
  {lines lines' : Except Unprintable (List (List Char))}

theorem cumulative_put (depth : Nat) : Cumulative put (FreshAt depth) where
  nil printer := by rw [put, Array.append_empty]
  append lines others printer := by
    simp only [put, Array.append_assoc, List.append_toArray]
  ready _ _ fresh := fresh

theorem Puts.andThen (first : Puts depth step lines) (second : Puts depth next lines') :
    Puts depth (do step; next) (do
      let lines ← lines
      let lines' ← lines'
      return lines ++ lines') :=
  Adds.andThen (cumulative_put depth) first (cumulative_put depth).ready second

theorem Puts.each {item : α → Printing Unit} {make : α → Except Unprintable (List (List Char))}
    (each : ∀ tree, Puts depth (item tree) (make tree)) (trees : List α) :
    Puts depth (trees.forM item) ((trees.mapM make).map List.flatten) :=
  Adds.each (cumulative_put depth) each trees

/-- A fresh line that ends is an empty one. -/
theorem puts_newLine (depth : Nat) : Puts depth newLine (.ok [[]]) := by
  rintro ⟨lines, _, _⟩ ⟨rfl, rfl⟩
  rfl

/-- A line that something was written in ends with its indentation in front. -/
theorem puts_line {text : Except Unprintable (List Char)}
    (writes : Adds extend Fresh step text) (filled : ∀ line, text = .ok line → line ≠ []) :
    Puts depth (do step; newLine)
      (text.map fun line => [Layout.spaces (depth * Layout.indentWidth) ++ line]) := by
  rintro printer ⟨fresh, rfl⟩
  rw [StateT.run_bind, writes printer fresh]
  cases text with
  | error cause => rfl
  | ok line =>
    obtain ⟨first, others, rfl⟩ := List.exists_cons_of_ne_nil (filled line rfl)
    obtain ⟨lines, _, depth⟩ := printer
    cases fresh
    rfl

/-- Lines that are begun one behind the other, the last of which ends too, are lines that
all end. -/
theorem separated_newLine (item : α → Printing Unit) (first : α) (others : List α) :
    (do separated newLine item (first :: others); newLine) =
      (first :: others).forM (fun tree => do item tree; newLine) := by
  induction others generalizing first with
  | nil => simp [separated, List.forM]
  | cons next others ih =>
    have behind := ih next
    simp only [separated, List.forM, bind_assoc] at behind ⊢
    rw [behind]

/-! ## Blocks -/

/-- A step one level deeper. The level that it is on is open when it is closed. -/
theorem puts_deeper (puts : Puts (depth + 1) step lines) :
    Puts depth (do indent; step; unindent) lines := by
  rintro printer ⟨fresh, rfl⟩
  show (do step; unindent : Printing Unit).run { printer with depth := printer.depth + 1 } = _
  rw [StateT.run_bind, puts { printer with depth := printer.depth + 1 } ⟨fresh, rfl⟩]
  cases lines <;> rfl

section

variable {item : α → Printing Unit} {make : α → Except Unprintable (List Char)}

/-- The lines of a body stand one level deeper. -/
theorem body_puts (each : ∀ tree, Adds extend Fresh (item tree) (make tree))
    (filled : ∀ tree line, make tree = .ok line → line ≠ []) (items : List α) :
    Puts 0 (body item items)
      ((items.mapM make).map (List.map (Layout.spaces Layout.indentWidth ++ ·))) := by
  cases items with
  | nil => exact .nothing (cumulative_put 0)
  | cons first others =>
    have ended : ∀ tree, Puts 1 (do item tree; newLine)
        ((make tree).map fun line => [Layout.spaces (1 * Layout.indentWidth) ++ line]) :=
      fun tree => puts_line (each tree) (filled tree)
    have lines := Puts.each ended (first :: others)
    rw [← separated_newLine, mapM_map] at lines
    have whole := puts_deeper lines
    have same : (do
        indent
        (do separated newLine item (first :: others); newLine)
        unindent : Printing Unit) = (do
        indent
        separated newLine item (first :: others)
        newLine
        unindent) := by simp only [bind_assoc]
    rw [same] at whole
    cases made : (first :: others).mapM make with
    | error cause => rwa [made] at whole
    | ok texts =>
      rw [made] at whole
      simp only [Except.map, ← List.flatMap_def, ← List.map_eq_flatMap] at whole
      exact whole

theorem header_writes (header : List (List Char)) :
    Writes (header.forM write) (.ok header.flatten) := by
  induction header with
  | nil => exact writes_nothing
  | cons part header ih => exact ih.behind part

theorem block_puts (each : ∀ tree, Adds extend Fresh (item tree) (make tree))
    (filled : ∀ tree line, make tree = .ok line → line ≠ []) (header : List (List Char))
    (items : List α) :
    Puts 0 (block header item items) ((items.mapM make).map (Layout.block header.flatten)) := by
  have begins : Puts 0 (do (do header.forM write; write [' ', '{']); newLine)
      (.ok [header.flatten ++ [' ', '{']]) :=
    puts_line (fun printer _ => (header_writes header).before [' ', '{'] printer trivial)
      (by rintro _ ⟨⟩; simp)
  have ends : Puts 0 (do write ['}']; newLine) (.ok [['}']]) :=
    puts_line (fun printer _ => writes_write ['}'] printer trivial) (by rintro _ ⟨⟩; simp)
  have whole := begins.andThen ((body_puts each filled items).andThen ends)
  simp only [bind_assoc] at whole
  cases made : items.mapM make <;> rw [made] at whole <;> exact whole

end

theorem field_filled (longest : Nat) (tree : Field) (line : List Char)
    (made : Layout.field longest tree = .ok line) : line ≠ [] := by
  unfold Layout.field at made
  cases marks : tree.attributes.mapM Layout.marker with
  | error cause => rw [marks] at made; cases made
  | ok texts =>
    rw [marks] at made
    cases made
    simp [Layout.spaces, Layout.typeGap]

theorem option_filled (tree : ConfigOption) (line : List Char)
    (made : Layout.option tree = .ok line) : line ≠ [] := by
  unfold Layout.option at made
  cases value : Layout.expression tree.value with
  | error cause => rw [value] at made; cases made
  | ok text =>
    rw [value] at made
    cases made
    simp

theorem definition_puts (tree : Definition) : Puts 0 (definition tree) (Layout.definition tree) := by
  cases tree with
  | model model =>
    have whole := block_puts (field_writes (Layout.longestName model.fields)) (field_filled _)
      ["model ".toList, model.name.name.toList] model.fields
    rw [show ["model ".toList, model.name.name.toList].flatten =
      "model ".toList ++ model.name.name.toList by simp] at whole
    rw [Layout.definition]
    cases made : model.fields.mapM (Layout.field (Layout.longestName model.fields)) <;>
      rw [made] at whole <;> exact whole
  | config config =>
    have whole := block_puts (fun tree printer _ => option_writes tree printer trivial)
      option_filled [config.kind.keyword.toList, [' '], config.name.name.toList] config.options
    rw [show [config.kind.keyword.toList, [' '], config.name.name.toList].flatten =
      config.kind.keyword.toList ++ ' ' :: config.name.name.toList by simp] at whole
    rw [Layout.definition]
    cases made : config.options.mapM Layout.option <;> rw [made] at whole <;> exact whole

/-- Behind all blocks there is one more line to begin. -/
theorem document_puts (tree : Document) :
    Puts 0 (document tree) ((Layout.lines tree.definitions).map (· ++ [[]])) := by
  unfold document Layout.lines
  cases tree.definitions with
  | nil => exact puts_newLine 0
  | cons first others =>
    have behind := Puts.each (fun block =>
      Adds.behind (cumulative_put 0) (puts_newLine 0) (definition_puts block)) others
    rw [mapM_map] at behind
    have whole := ((definition_puts first).andThen behind).andThen (puts_newLine 0)
    rw [List.mapM_cons]
    cases made : Layout.definition first with
    | error cause => rwa [made] at whole
    | ok lines =>
      cases rest : others.mapM Layout.definition with
      | error cause => rwa [made, rest] at whole
      | ok blocks =>
        rw [made, rest] at whole
        show Puts 0 _ (.ok (((lines :: blocks).intersperse [[]]).flatten ++ [[]]))
        rw [flatten_intersperse]
        exact whole

/-- Lines that all end are lines with line feeds between them, and an empty one at last. -/
theorem intercalate_lines (lines : List (List Char)) :
    ['\n'].intercalate (lines ++ [[]]) = lines.flatMap (· ++ ['\n']) := by
  induction lines with
  | nil => rfl
  | cons line lines ih =>
    obtain ⟨next, others, same⟩ :=
      List.exists_cons_of_ne_nil (List.append_ne_nil_of_right_ne_nil lines (List.cons_ne_nil [] []))
    rw [List.cons_append, List.flatMap_cons, ← ih, same, List.intercalate_cons_cons,
      List.append_assoc]

end Printer

/-- The canonical text of a tree is its layout, with a line feed behind each line. -/
theorem Document.print_eq (document : Document) :
    document.print = (Layout.lines document.definitions).map fun lines =>
      String.ofList (lines.flatMap (· ++ ['\n'])) := by
  have whole := Printer.document_puts document .blank ⟨rfl, rfl⟩
  rw [print, StateT.run'_eq, StateT.run_bind, whole]
  cases Layout.lines document.definitions with
  | error cause => rfl
  | ok lines =>
    show Except.ok (String.ofList (['\n'].intercalate (#[] ++ (lines ++ [[]]).toArray).toList)) = _
    rw [Array.empty_append, Printer.intercalate_lines]
    rfl

end SchemaLang
