/-! Structured reports are JSON values. They are written on one line, or over
several lines with two spaces per level. Fields are always written in the order
of their names. -/
namespace SchemaLang

/-- A JSON value. Reports count, so numbers are natural. -/
inductive Json where
  | null
  | bool (value : Bool)
  | number (value : Nat)
  | string (value : String)
  | array (items : List Json)
  | object (fields : List (String × Json))

namespace Json

/-- Takes a place in a list ordered by name. -/
def insertField (field : String × Json) : List (String × Json) → List (String × Json)
  | [] => [field]
  | head :: rest => if field.1 ≤ head.1 then field :: head :: rest else head :: insertField field rest

/-- An object with its fields in the order of their names. -/
def record (fields : List (String × Json)) : Json :=
  .object (fields.foldr insertField [])

/-- A value that may be missing. -/
def ofOption {α : Type} (encode : α → Json) : Option α → Json
  | none => .null
  | some value => encode value

/-- One character inside a JSON string. Control characters have names or are
written by number. -/
def escapeChar (char : Char) : List Char :=
  if char = '"' then ['\\', '"']
  else if char = '\\' then ['\\', '\\']
  else if char = '\n' then ['\\', 'n']
  else if char = '\r' then ['\\', 'r']
  else if char = '\t' then ['\\', 't']
  else if char = '\x08' then ['\\', 'b']
  else if char = '\x0c' then ['\\', 'f']
  else if char.toNat < 0x10 then ['\\', 'u', '0', '0', '0'] ++ Nat.toDigits 16 char.toNat
  else if char.toNat < 0x20 then ['\\', 'u', '0', '0'] ++ Nat.toDigits 16 char.toNat
  else [char]

/-- A text in quotes. -/
def quote (text : String) : String :=
  String.ofList ('"' :: text.toList.flatMap escapeChar ++ ['"'])

mutual

/-- A value on one line, without blanks. -/
def compact : Json → String
  | .null => "null"
  | .bool value => if value then "true" else "false"
  | .number value => toString value
  | .string value => quote value
  | .array items => "[" ++ ",".intercalate (compactItems items) ++ "]"
  | .object fields => "\x7b" ++ ",".intercalate (compactFields fields) ++ "\x7d"

/-- The items of an array on one line. -/
def compactItems : List Json → List String
  | [] => []
  | item :: rest => compact item :: compactItems rest

/-- The fields of an object on one line. -/
def compactFields : List (String × Json) → List String
  | [] => []
  | (name, value) :: rest => (quote name ++ ":" ++ compact value) :: compactFields rest

end

/-- The start of a line at a level. -/
def newLine (level : Nat) : String := "\n" ++ String.ofList (List.replicate (2 * level) ' ')

/-- Parts between brackets, each on its own line one level deeper. -/
def enclose (opening closing : String) (level : Nat) (parts : List String) : String :=
  if parts.isEmpty then opening ++ closing
  else
    opening ++ newLine (level + 1) ++ ("," ++ newLine (level + 1)).intercalate parts ++
      newLine level ++ closing

mutual

/-- A value over several lines, from a level on. -/
def prettyAt (level : Nat) : Json → String
  | .null => "null"
  | .bool value => if value then "true" else "false"
  | .number value => toString value
  | .string value => quote value
  | .array items => enclose "[" "]" level (prettyItems (level + 1) items)
  | .object fields => enclose "\x7b" "\x7d" level (prettyFields (level + 1) fields)

/-- The items of an array over several lines. -/
def prettyItems (level : Nat) : List Json → List String
  | [] => []
  | item :: rest => prettyAt level item :: prettyItems level rest

/-- The fields of an object over several lines. -/
def prettyFields (level : Nat) : List (String × Json) → List String
  | [] => []
  | (name, value) :: rest =>
    (quote name ++ ": " ++ prettyAt level value) :: prettyFields level rest

end

theorem prettyItems_eq_map (level : Nat) (items : List Json) :
    prettyItems level items = items.map (prettyAt level) := by
  induction items with
  | nil => rfl
  | cons item rest ih => exact congrArg (prettyAt level item :: ·) ih

/-- A field with its name in front of its value, from a level on. -/
def prettyField (level : Nat) (field : String × Json) : String :=
  quote field.1 ++ ": " ++ prettyAt level field.2

theorem prettyFields_eq_map (level : Nat) (fields : List (String × Json)) :
    prettyFields level fields = fields.map (prettyField level) := by
  induction fields with
  | nil => rfl
  | cons field rest ih => exact congrArg (prettyField level field :: ·) ih

theorem prettyAt_null (level : Nat) : prettyAt level .null = "null" := rfl

theorem prettyAt_bool (level : Nat) (value : Bool) :
    prettyAt level (.bool value) = if value then "true" else "false" := rfl

theorem prettyAt_number (level value : Nat) : prettyAt level (.number value) = toString value := rfl

theorem prettyAt_string (level : Nat) (value : String) :
    prettyAt level (.string value) = quote value := rfl

theorem prettyAt_array (level : Nat) (items : List Json) :
    prettyAt level (.array items) = enclose "[" "]" level (items.map (prettyAt (level + 1))) := by
  rw [← prettyItems_eq_map]
  rfl

theorem prettyAt_object (level : Nat) (fields : List (String × Json)) :
    prettyAt level (.object fields) =
      enclose "\x7b" "\x7d" level (fields.map (prettyField (level + 1))) := by
  rw [← prettyFields_eq_map]
  rfl

/-- A value over several lines. -/
def pretty (value : Json) : String := prettyAt 0 value

end Json

end SchemaLang
