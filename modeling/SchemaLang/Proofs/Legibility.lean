import SchemaLang.Json

/-! Written values can be read in one way only. An escaped character, a text in quotes, a
number that no digit follows and whatever stands in brackets ends where it ends, so what is
written of a value tells it from every other, also in front of more text. Main statement:
two values that are written alike are the same value. -/
namespace SchemaLang.Json

/-! ## Texts -/

/-- The characters that are written as more than themselves. -/
def escaped : List Char := ['"', '\\'] ++ (List.range 0x20).map Char.ofNat

theorem escapeChar_plain {char : Char} (plain : char ∉ escaped) : escapeChar char = [char] := by
  have printable : ¬ char.toNat < 0x20 := by
    intro control
    refine plain (List.mem_append_right _ (List.mem_map.2 ⟨char.toNat, ?_, Char.ofNat_toNat char⟩))
    exact List.mem_range.2 control
  have other (special : Char) (listed : special ∈ escaped) : char ≠ special := by
    rintro rfl
    exact plain listed
  rw [escapeChar, if_neg (other _ (by decide +kernel)), if_neg (other _ (by decide +kernel)),
    if_neg (other _ (by decide +kernel)), if_neg (other _ (by decide +kernel)),
    if_neg (other _ (by decide +kernel)), if_neg (other _ (by decide +kernel)),
    if_neg (other _ (by decide +kernel)), if_neg (by omega), if_neg printable]

theorem escapeChar_escaped {char : Char} (special : char ∈ escaped) :
    ∃ code, escapeChar char = '\\' :: code := by
  have begins : escaped.all fun char => (escapeChar char).head? == some '\\' := by decide +kernel
  exact List.head?_eq_some_iff.1 (beq_iff_eq.1 (List.all_eq_true.1 begins char special))

/-- No escaped character is written as another begins. There are few, so all pairs of them are
looked at. -/
theorem eq_of_escaped_begins {a b : Char} (first : a ∈ escaped) (second : b ∈ escaped)
    (begins : escapeChar a <+: escapeChar b) : a = b := by
  have codes : escaped.all fun a => escaped.all fun b =>
      !(escapeChar a).isPrefixOf (escapeChar b) || a == b := by
    decide +kernel
  have pair := List.all_eq_true.1 (List.all_eq_true.1 codes a first) b second
  rw [List.isPrefixOf_iff_prefix.2 begins] at pair
  exact beq_iff_eq.1 pair

/-- No character is written as another begins. -/
theorem eq_of_escapeChar_begins {a b : Char} (begins : escapeChar a <+: escapeChar b) : a = b := by
  have backslash : '\\' ∈ escaped := by decide
  by_cases first : a ∈ escaped
  · by_cases second : b ∈ escaped
    · exact eq_of_escaped_begins first second begins
    · obtain ⟨code, same⟩ := escapeChar_escaped first
      rw [same, escapeChar_plain second, List.cons_prefix_cons] at begins
      exact absurd (begins.1 ▸ backslash) second
  · rw [escapeChar_plain first] at begins
    by_cases second : b ∈ escaped
    · obtain ⟨code, same⟩ := escapeChar_escaped second
      rw [same, List.cons_prefix_cons] at begins
      exact absurd (begins.1 ▸ backslash) first
    · rw [escapeChar_plain second, List.cons_prefix_cons] at begins
      exact begins.1

theorem escapeChar_cancel {a b : Char} {rest rest' : List Char}
    (same : escapeChar a ++ rest = escapeChar b ++ rest') : a = b ∧ rest = rest' := by
  have begins : escapeChar b <+: escapeChar a ++ rest := same ▸ List.prefix_append ..
  obtain rfl : a = b := by
    rcases List.prefix_or_prefix_of_prefix (List.prefix_append ..) begins with before | behind
    · exact eq_of_escapeChar_begins before
    · exact (eq_of_escapeChar_begins behind).symm
  exact ⟨rfl, List.append_cancel_left same⟩

/-- A quote is not how a character inside a text begins. -/
theorem escapeChar_ne_quote (char : Char) (rest rest' : List Char) :
    escapeChar char ++ rest ≠ '"' :: rest' := by
  intro same
  by_cases special : char ∈ escaped
  · obtain ⟨code, written⟩ := escapeChar_escaped special
    rw [written] at same
    cases same
  · rw [escapeChar_plain special] at same
    obtain rfl : char = '"' := (List.cons.inj same).1
    exact special (by decide)

theorem flatMap_escapeChar_cancel {text text' rest rest' : List Char}
    (same : text.flatMap escapeChar ++ '"' :: rest = text'.flatMap escapeChar ++ '"' :: rest') :
    text = text' ∧ rest = rest' := by
  induction text generalizing text' with
  | nil =>
    cases text' with
    | nil => exact ⟨rfl, (List.cons.inj same).2⟩
    | cons char text' =>
      rw [List.flatMap_cons, List.append_assoc] at same
      exact absurd same.symm (escapeChar_ne_quote char _ _)
  | cons char text ih =>
    rw [List.flatMap_cons, List.append_assoc] at same
    cases text' with
    | nil => exact absurd same (escapeChar_ne_quote char _ _)
    | cons char' text' =>
      rw [List.flatMap_cons, List.append_assoc] at same
      obtain ⟨rfl, further⟩ := escapeChar_cancel same
      obtain ⟨rfl, rest⟩ := ih further
      exact ⟨rfl, rest⟩

theorem quote_cancel {text text' : String} {rest rest' : List Char}
    (same : (quote text).toList ++ rest = (quote text').toList ++ rest') :
    text = text' ∧ rest = rest' := by
  simp only [quote, String.toList_ofList, List.cons_append, List.append_assoc] at same
  obtain ⟨equal, rest⟩ := flatMap_escapeChar_cancel (List.cons.inj same).2
  exact ⟨String.toList_inj.1 equal, rest⟩

/-! ## Numbers -/

/-- A text that does not go on with a number. -/
def Apart (rest : List Char) : Prop := ∀ char ∈ rest.head?, char.isDigit = false

theorem apart_nil : Apart [] := nofun

theorem apart_cons {char : Char} (other : char.isDigit = false) (rest : List Char) :
    Apart (char :: rest) := by
  rintro _ ⟨⟩
  exact other

theorem takeWhile_number (value : Nat) {rest : List Char} (apart : Apart rest) :
    ((toString value).toList ++ rest).takeWhile Char.isDigit = (toString value).toList := by
  have digits : ∀ char ∈ (toString value).toList, char.isDigit = true := by
    intro char listed
    rw [Nat.toString_eq_repr, Nat.toList_repr] at listed
    exact Nat.isDigit_of_mem_toDigits (by decide) (by decide) listed
  have ended : rest.takeWhile Char.isDigit = [] := by
    cases rest with
    | nil => rfl
    | cons char rest => exact List.takeWhile_cons_of_neg (by simpa using apart char rfl)
  rw [List.takeWhile_append_of_pos digits, ended, List.append_nil]

theorem number_cancel {value value' : Nat} {rest rest' : List Char} (apart : Apart rest)
    (apart' : Apart rest')
    (same : (toString value).toList ++ rest = (toString value').toList ++ rest') :
    value = value' ∧ rest = rest' := by
  have digits := congrArg (List.takeWhile Char.isDigit) same
  rw [takeWhile_number value apart, takeWhile_number value' apart'] at digits
  rw [digits] at same
  have equal := digits
  rw [Nat.toString_eq_repr, Nat.toString_eq_repr, Nat.toList_repr, Nat.toList_repr] at equal
  refine ⟨?_, List.append_cancel_left same⟩
  calc
    value = Nat.ofDigitChars 10 (Nat.toDigits 10 value) 0 :=
      (Nat.ofDigitChars_toDigits (by decide) (by decide)).symm
    _ = Nat.ofDigitChars 10 (Nat.toDigits 10 value') 0 := by rw [equal]
    _ = value' := Nat.ofDigitChars_toDigits (by decide) (by decide)

/-! ## Brackets -/

section Brackets

variable {α : Type} {level : Nat} {write : α → String}

/-- A value can be told from every other by what is written of it, in front of any text that
does not go on with a number. -/
def Legible (write : α → String) (value : α) : Prop :=
  ∀ other rest rest', Apart rest → Apart rest' →
    (write value).toList ++ rest = (write other).toList ++ rest' → value = other ∧ rest = rest'

/-- The start of a line at a level, character by character. -/
def indent (level : Nat) : List Char := '\n' :: List.replicate (2 * level) ' '

theorem toList_newLine (level : Nat) : (newLine level).toList = indent level := by
  simp [newLine, indent]

/-- Values behind another, each behind a comma and on a line of its own. -/
def rows (level : Nat) (write : α → String) : List α → List Char
  | [] => []
  | value :: values =>
    ',' :: (indent level ++ ((write value).toList ++ rows level write values))

/-- What stands between brackets. -/
def between (level : Nat) (write : α → String) : List α → List Char
  | [] => []
  | value :: values =>
    indent (level + 1) ++
      ((write value).toList ++ (rows (level + 1) write values ++ indent level))

theorem intercalate_rows (value : α) (values : List α) :
    (',' :: indent level).intercalate ((value :: values).map fun value => (write value).toList) =
      (write value).toList ++ rows level write values := by
  induction values generalizing value with
  | nil => simp [rows]
  | cons next values ih =>
    have further := ih next
    rw [List.map_cons] at further
    rw [List.map_cons, List.map_cons, List.intercalate_cons_cons, further, rows]
    simp only [List.append_assoc, List.cons_append]

theorem toList_enclose (opening closing : String) (values : List α) :
    (enclose opening closing level (values.map write)).toList =
      opening.toList ++ (between level write values ++ closing.toList) := by
  cases values with
  | nil => exact String.toList_append
  | cons value values =>
    have comma : ",".toList = [','] := rfl
    rw [enclose, if_neg (by simp)]
    simp only [String.toList_append, String.toList_intercalate, toList_newLine, List.map_map]
    rw [comma, List.singleton_append]
    simp only [Function.comp_def, intercalate_rows, between, List.append_assoc]

theorem apart_rows (values : List α) (rest : List Char) :
    Apart (rows level write values ++ '\n' :: rest) := by
  cases values with
  | nil => exact apart_cons (by decide) _
  | cons value values => exact apart_cons (show ','.isDigit = false by decide) _

/-- Rows that are written alike hold the same values, and end where a line ends. -/
theorem rows_cancel {values others : List α} (legible : ∀ value ∈ values, Legible write value)
    {rest rest' : List Char}
    (same : rows level write values ++ '\n' :: rest = rows level write others ++ '\n' :: rest') :
    values = others ∧ rest = rest' := by
  induction values generalizing others with
  | nil =>
    cases others with
    | nil => exact ⟨rfl, (List.cons.inj same).2⟩
    | cons other others => cases same
  | cons value values ih =>
    cases others with
    | nil => cases same
    | cons other others =>
      obtain ⟨here, further⟩ := List.forall_mem_cons.1 legible
      simp only [rows, List.cons_append, List.append_assoc] at same
      obtain ⟨rfl, behind⟩ := here _ _ _ (apart_rows _ _) (apart_rows _ _)
        (List.append_cancel_left (List.cons.inj same).2)
      obtain ⟨rfl, rest⟩ := ih further behind
      exact ⟨rfl, rest⟩

theorem between_cancel {closing : Char} (flat : closing ≠ '\n') {values others : List α}
    (legible : ∀ value ∈ values, Legible write value) {rest rest' : List Char}
    (same : between level write values ++ closing :: rest =
      between level write others ++ closing :: rest') : values = others ∧ rest = rest' := by
  cases values with
  | nil =>
    cases others with
    | nil => exact ⟨rfl, (List.cons.inj same).2⟩
    | cons other others => exact absurd (List.cons.inj same).1 flat
  | cons value values =>
    cases others with
    | nil => exact absurd (List.cons.inj same).1.symm flat
    | cons other others =>
      obtain ⟨here, further⟩ := List.forall_mem_cons.1 legible
      simp only [between, indent, List.cons_append, List.append_assoc] at same
      obtain ⟨rfl, behind⟩ := here _ _ _ (apart_rows _ _) (apart_rows _ _)
        (List.append_cancel_left (List.cons.inj same).2)
      obtain ⟨rfl, ends⟩ := rows_cancel further behind
      exact ⟨rfl, (List.cons.inj (List.append_cancel_left ends)).2⟩

end Brackets

/-! ## Values -/

/-- A character that what is written of a value can begin with. -/
def Begins : Json → Char → Prop
  | .null, first => first = 'n'
  | .bool value, first => first = if value then 't' else 'f'
  | .number _, first => first.isDigit = true
  | .string _, first => first = '"'
  | .array _, first => first = '['
  | .object _, first => first = '\x7b'

/-- The kind of value that begins with a character. Kinds are numbered as they are listed. -/
def kindOf (first : Char) : Nat :=
  if first = 'n' then 0
  else if first = 't' ∨ first = 'f' then 1
  else if first = '"' then 3
  else if first = '[' then 4
  else if first = '\x7b' then 5
  else 2

theorem ctorIdx_of_begins {value : Json} {first : Char} (begins : Begins value first) :
    value.ctorIdx = kindOf first := by
  cases value with
  | number value =>
    have other {char : Char} (letter : char.isDigit = false) : first ≠ char := by
      rintro rfl
      exact absurd (letter.symm.trans begins) nofun
    rw [kindOf, if_neg (other (by decide)), if_neg, if_neg (other (by decide)),
      if_neg (other (by decide)), if_neg (other (by decide))]
    · rfl
    · exact not_or.2 ⟨other (by decide), other (by decide)⟩
  | bool value => cases value <;> cases begins <;> rfl
  | _ => cases begins; rfl

theorem exists_begins (level : Nat) (value : Json) :
    ∃ first rest, (prettyAt level value).toList = first :: rest ∧ Begins value first := by
  cases value with
  | null =>
    rw [prettyAt_null]
    exact ⟨'n', _, rfl, rfl⟩
  | bool value =>
    rw [prettyAt_bool]
    cases value with
    | false => exact ⟨'f', _, rfl, rfl⟩
    | true => exact ⟨'t', _, rfl, rfl⟩
  | number value =>
    have digits : Nat.toDigits 10 value ≠ [] := Nat.toDigits_ne_nil
    obtain ⟨first, rest, split⟩ := List.exists_cons_of_ne_nil digits
    have listed : first ∈ Nat.toDigits 10 value := by
      rw [split]
      exact List.mem_cons_self
    refine ⟨first, rest, ?_, Nat.isDigit_of_mem_toDigits (by decide) (by decide) listed⟩
    rw [prettyAt_number, Nat.toString_eq_repr, Nat.toList_repr, split]
  | string value =>
    rw [prettyAt_string, quote]
    exact ⟨'"', _, String.toList_ofList, rfl⟩
  | array items =>
    rw [prettyAt_array, toList_enclose]
    exact ⟨'[', _, rfl, rfl⟩
  | object fields =>
    rw [prettyAt_object, toList_enclose]
    exact ⟨'\x7b', _, rfl, rfl⟩

variable {level : Nat}

/-- Values that are written alike are of one kind. -/
theorem ctorIdx_eq_of_append {value other : Json} {rest rest' : List Char}
    (same : (prettyAt level value).toList ++ rest = (prettyAt level other).toList ++ rest') :
    value.ctorIdx = other.ctorIdx := by
  obtain ⟨first, _, written, begins⟩ := exists_begins level value
  obtain ⟨first', _, written', begins'⟩ := exists_begins level other
  rw [written, written'] at same
  obtain rfl : first = first' := (List.cons.inj same).1
  rw [ctorIdx_of_begins begins, ctorIdx_of_begins begins']

theorem legible_null : Legible (prettyAt level) .null := by
  intro other rest rest' apart apart' same
  have kinds := ctorIdx_eq_of_append same
  cases other with
  | null => exact ⟨rfl, List.append_cancel_left same⟩
  | _ => cases kinds

theorem legible_bool (value : Bool) : Legible (prettyAt level) (.bool value) := by
  intro other rest rest' apart apart' same
  have kinds := ctorIdx_eq_of_append same
  cases other with
  | bool other =>
    rw [prettyAt_bool, prettyAt_bool] at same
    have first := congrArg List.head? same
    cases value with
    | false =>
      cases other with
      | false => exact ⟨rfl, List.append_cancel_left same⟩
      | true => cases first
    | true =>
      cases other with
      | false => cases first
      | true => exact ⟨rfl, List.append_cancel_left same⟩
  | _ => cases kinds

theorem legible_number (value : Nat) : Legible (prettyAt level) (.number value) := by
  intro other rest rest' apart apart' same
  have kinds := ctorIdx_eq_of_append same
  cases other with
  | number other =>
    rw [prettyAt_number, prettyAt_number] at same
    obtain ⟨rfl, rest⟩ := number_cancel apart apart' same
    exact ⟨rfl, rest⟩
  | _ => cases kinds

theorem legible_string (value : String) : Legible (prettyAt level) (.string value) := by
  intro other rest rest' apart apart' same
  have kinds := ctorIdx_eq_of_append same
  cases other with
  | string other =>
    rw [prettyAt_string, prettyAt_string] at same
    obtain ⟨rfl, rest⟩ := quote_cancel same
    exact ⟨rfl, rest⟩
  | _ => cases kinds

theorem legible_array {items : List Json}
    (legible : ∀ item ∈ items, Legible (prettyAt (level + 1)) item) :
    Legible (prettyAt level) (.array items) := by
  intro other rest rest' apart apart' same
  have kinds := ctorIdx_eq_of_append same
  cases other with
  | array others =>
    rw [prettyAt_array, prettyAt_array, toList_enclose, toList_enclose] at same
    simp only [List.append_assoc] at same
    have closing : ']' ≠ '\n' := by decide
    obtain ⟨rfl, rest⟩ := between_cancel closing legible (List.cons.inj same).2
    exact ⟨rfl, rest⟩
  | _ => cases kinds

theorem legible_field {field : String × Json} (legible : Legible (prettyAt level) field.2) :
    Legible (prettyField level) field := by
  intro other rest rest' apart apart' same
  simp only [prettyField, String.toList_append, List.append_assoc] at same
  obtain ⟨name, behind⟩ := quote_cancel same
  obtain ⟨value, rest⟩ := legible _ _ _ apart apart' (List.append_cancel_left behind)
  exact ⟨Prod.ext name value, rest⟩

theorem legible_object {fields : List (String × Json)}
    (legible : ∀ field ∈ fields, Legible (prettyAt (level + 1)) field.2) :
    Legible (prettyAt level) (.object fields) := by
  intro other rest rest' apart apart' same
  have kinds := ctorIdx_eq_of_append same
  cases other with
  | object others =>
    rw [prettyAt_object, prettyAt_object, toList_enclose, toList_enclose] at same
    simp only [List.append_assoc] at same
    have closing : '\x7d' ≠ '\n' := by decide
    obtain ⟨rfl, rest⟩ := between_cancel closing
      (fun field listed => legible_field (legible field listed)) (List.cons.inj same).2
    exact ⟨rfl, rest⟩
  | _ => cases kinds

/-- Every value can be told by what is written of it, at any level. -/
theorem legible_prettyAt (level : Nat) (value : Json) : Legible (prettyAt level) value := by
  match value with
  | .null => exact legible_null
  | .bool value => exact legible_bool value
  | .number value => exact legible_number value
  | .string value => exact legible_string value
  | .array items => exact legible_array fun item listed => legible_prettyAt (level + 1) item
  | .object fields => exact legible_object fun field listed => legible_prettyAt (level + 1) field.2
termination_by sizeOf value
decreasing_by
  · have smaller := List.sizeOf_lt_of_mem listed
    rw [Json.array.sizeOf_spec]
    omega
  · have smaller := List.sizeOf_lt_of_mem listed
    have within : sizeOf field.2 < sizeOf field := by
      obtain ⟨name, value⟩ := field
      rw [Prod.mk.sizeOf_spec]
      show sizeOf value < 1 + sizeOf name + sizeOf value
      omega
    rw [Json.object.sizeOf_spec]
    omega

/-- **What is written determines the value.** -/
theorem pretty_injective : Function.Injective pretty := by
  intro value other same
  refine (legible_prettyAt 0 value other [] [] apart_nil apart_nil ?_).1
  exact congrArg (·.toList ++ []) same

end SchemaLang.Json
