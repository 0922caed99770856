import SchemaLang.Document.Structure
import SchemaLang.Literal
import SchemaLang.Token.Lexeme

/-! The language of schema texts, said without a way to read it. A phrase is a
relation between the terminals in front of it, the tree it stands for, and the
terminals behind it. Nothing here is ordered, tried or given back: a phrase has
the shapes listed and no others, and trees carry no places. -/
namespace SchemaLang

/-- What the grammar sees of a token. Spellings count for names, markers and
literals; all other kinds have only one. -/
inductive Terminal where
  | identifier (name : String)
  | marker (name : String)
  | string (text : String)
  | leftBrace
  | rightBrace
  | leftParen
  | rightParen
  | comma
  | question
  | equals
  | brackets
  | endOfInput
deriving DecidableEq

/-- The terminal of a token, its place left out. -/
def Token.terminal (token : Token) : Terminal :=
  match token.kind with
  | .identifier => .identifier token.text
  | .attributeName => .marker token.text
  | .string => .string token.text
  | .leftBrace => .leftBrace
  | .rightBrace => .rightBrace
  | .leftParen => .leftParen
  | .rightParen => .rightParen
  | .comma => .comma
  | .question => .question
  | .equals => .equals
  | .brackets => .brackets
  | .endOfInput => .endOfInput

/-- The kind of the tokens that a terminal stands for. -/
@[simp] def Terminal.kind : Terminal → TokenKind
  | .identifier _ => .identifier
  | .marker _ => .attributeName
  | .string _ => .string
  | .leftBrace => .leftBrace
  | .rightBrace => .rightBrace
  | .leftParen => .leftParen
  | .rightParen => .rightParen
  | .comma => .comma
  | .question => .question
  | .equals => .equals
  | .brackets => .brackets
  | .endOfInput => .endOfInput

/-- A terminal that has only one spelling is known by its kind. -/
theorem Terminal.eq_of_kind {terminal wanted : Terminal} (same : terminal.kind = wanted.kind)
    (plain : wanted.kind ∉ [.identifier, .attributeName, .string]) : terminal = wanted := by
  cases wanted <;> cases terminal <;> simp_all

theorem Token.kind_terminal (token : Token) : token.terminal.kind = token.kind := by
  unfold terminal
  split <;> simp_all [Terminal.kind]

theorem Token.kind_of_terminal {token : Token} {terminal : Terminal}
    (same : token.terminal = terminal) : token.kind = terminal.kind := by
  rw [← kind_terminal, same]

theorem Token.terminal_identifier {token : Token} {name : String} :
    token.terminal = .identifier name ↔ token.kind = .identifier ∧ token.text = name := by
  unfold terminal
  split <;> simp_all

theorem Token.terminal_marker {token : Token} {name : String} :
    token.terminal = .marker name ↔ token.kind = .attributeName ∧ token.text = name := by
  unfold terminal
  split <;> simp_all

theorem Token.terminal_string {token : Token} {text : String} :
    token.terminal = .string text ↔ token.kind = .string ∧ token.text = text := by
  unfold terminal
  split <;> simp_all

/-! ## Spellings -/

/-- A letter, then letters, digits and underscores. -/
def isName : List Char → Bool
  | [] => false
  | first :: others => isNameStart first && others.all isNamePart

/-- Names with single dots between them. -/
inductive DottedName : List Char → Prop where
  | one {name : List Char} (named : isName name = true) : DottedName name
  | more {name others : List Char} (named : isName name = true) (dotted : DottedName others) :
      DottedName (name ++ '.' :: others)

/-- A dotted name behind an at sign. -/
inductive MarkerName : List Char → Prop where
  | mk {name : List Char} (dotted : DottedName name) : MarkerName ('@' :: name)

/-- A body between quotes. -/
inductive QuotedText : List Char → Prop where
  | mk {body : List Char} (fits : Literal.isBody body = true) : QuotedText ('"' :: body ++ ['"'])

/-- Whether a terminal can be written at all. -/
def Terminal.Spelled : Terminal → Prop
  | .identifier name => isName name.toList = true
  | .marker name => MarkerName name.toList
  | .string text => QuotedText text.toList
  | _ => True

/-- The place of every node of a tree that has none. -/
def nowhere : Span := .point .start

/-- Takes every place away. -/
abbrev unplaced : Span → Span := fun _ => nowhere

namespace Phrase

/-! ## Phrases -/

mutual

/-- A value: a call, a literal or a truth value. -/
inductive Value : List Terminal → Expression → List Terminal → Prop where
  | call {name : String} {rest after : List Terminal} {values : List Expression}
      (arguments : Arguments rest values after) :
      Value (.identifier name :: rest) (.call ⟨name, nowhere⟩ values nowhere) after
  | string {text : String} {rest : List Terminal} :
      Value (.string text :: rest) (.string (.ofList (Literal.read text.toList)) nowhere) rest
  | yes {rest : List Terminal} :
      Value (.identifier "true" :: rest) (.boolean true nowhere) rest
  | no {rest : List Terminal} :
      Value (.identifier "false" :: rest) (.boolean false nowhere) rest

/-- An argument list with its parentheses. -/
inductive Arguments : List Terminal → List Expression → List Terminal → Prop where
  | none {rest : List Terminal} : Arguments (.leftParen :: .rightParen :: rest) [] rest
  | some {rest after : List Terminal} {values : List Expression}
      (listed : Values rest values (.rightParen :: after)) :
      Arguments (.leftParen :: rest) values after

/-- One value or more, with commas between them. -/
inductive Values : List Terminal → List Expression → List Terminal → Prop where
  | one {before rest : List Terminal} {value : Expression} (single : Value before value rest) :
      Values before [value] rest
  | more {before rest after : List Terminal} {value : Expression} {values : List Expression}
      (first : Value before value (.comma :: rest)) (others : Values rest values after) :
      Values before (value :: values) after

end

/-- Any number of phrases of one kind. -/
inductive Many {α : Type} (part : List Terminal → α → List Terminal → Prop) :
    List Terminal → List α → List Terminal → Prop where
  | none {rest : List Terminal} : Many part rest [] rest
  | more {before rest after : List Terminal} {tree : α} {trees : List α}
      (first : part before tree rest) (others : Many part rest trees after) :
      Many part before (tree :: trees) after

theorem Many.map {α β : Type} (part : List Terminal → β → List Terminal → Prop) (change : α → β)
    {before after : List Terminal} {trees : List α}
    (many : Many (fun before tree after => part before (change tree) after) before trees after) :
    Many part before (trees.map change) after := by
  induction many with
  | none => exact .none
  | more first others ih => exact .more first ih

/-- The sign behind the name of a type, if any. -/
inductive Sign : List Terminal → TypeModifier → List Terminal → Prop where
  | none {rest : List Terminal} : Sign rest .none rest
  | optional {rest : List Terminal} : Sign (.question :: rest) .optional rest
  | array {rest : List Terminal} : Sign (.brackets :: rest) .array rest

/-- The type of a field. -/
inductive Typed : List Terminal → FieldType → List Terminal → Prop where
  | mk {name : String} {modifier : TypeModifier} {rest after : List Terminal}
      (sign : Sign rest modifier after) :
      Typed (.identifier name :: rest) ⟨⟨name, nowhere⟩, modifier, nowhere⟩ after

/-- A marker, with or without an argument list. -/
inductive Marker : List Terminal → Attribute → List Terminal → Prop where
  | plain {name : String} {rest : List Terminal} :
      Marker (.marker name :: rest) ⟨name, [], nowhere⟩ rest
  | applied {name : String} {rest after : List Terminal} {values : List Expression}
      (arguments : Arguments rest values after) :
      Marker (.marker name :: rest) ⟨name, values, nowhere⟩ after

/-- A line of a model. -/
inductive Line : List Terminal → Field → List Terminal → Prop where
  | mk {name : String} {type : FieldType} {markers : List Attribute}
      {rest middle after : List Terminal} (typed : Typed rest type middle)
      (marked : Many Marker middle markers after) :
      Line (.identifier name :: rest) ⟨⟨name, nowhere⟩, type, markers, nowhere⟩ after

/-- A line of a configuration. -/
inductive Setting : List Terminal → ConfigOption → List Terminal → Prop where
  | mk {name : String} {value : Expression} {rest after : List Terminal}
      (given : Value rest value after) :
      Setting (.identifier name :: .equals :: rest) ⟨⟨name, nowhere⟩, value, nowhere⟩ after

/-- A block. -/
inductive Block : List Terminal → Definition → List Terminal → Prop where
  | model {name : String} {fields : List Field} {rest after : List Terminal}
      (lines : Many Line rest fields (.rightBrace :: after)) :
      Block (.identifier "model" :: .identifier name :: .leftBrace :: rest)
        (.model ⟨⟨name, nowhere⟩, fields, nowhere⟩) after
  | config {kind : ConfigKind} {name : String} {options : List ConfigOption}
      {rest after : List Terminal} (settings : Many Setting rest options (.rightBrace :: after)) :
      Block (.identifier kind.keyword :: .identifier name :: .leftBrace :: rest)
        (.config ⟨kind, ⟨name, nowhere⟩, options, nowhere⟩) after

/-- A whole text: blocks, then the end of input. -/
inductive Sentence : List Terminal → Document → Prop where
  | mk {terminals : List Terminal} {definitions : List Definition}
      (blocks : Many Block terminals definitions [.endOfInput]) :
      Sentence terminals ⟨definitions, nowhere⟩

/-! ## Nesting -/

/-- How many argument lists are open behind a terminal. -/
def openAfter (opened : Nat) : Terminal → Nat
  | .leftParen => opened + 1
  | .rightParen => opened - 1
  | _ => opened

/-- The largest number of argument lists open at once, from a place on where some
are open already. -/
def nestingFrom (opened : Nat) : List Terminal → Nat
  | [] => opened
  | terminal :: rest => max opened (nestingFrom (openAfter opened terminal) rest)

/-- How deep the argument lists of a text nest. The list of a marker is a level
like any other. -/
def nesting (terminals : List Terminal) : Nat := nestingFrom 0 terminals

theorem le_nestingFrom (opened : Nat) (terminals : List Terminal) :
    opened ≤ nestingFrom opened terminals := by
  cases terminals with
  | nil => exact Nat.le_refl _
  | cons terminal rest => exact Nat.le_max_left ..

end Phrase

end SchemaLang
