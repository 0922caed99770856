import Mathlib.Computability.Language
import SchemaLang.Proofs.LineBreak
import SchemaLang.Proofs.Spelling

/-! Lexemes as regular languages. Each kind of token is the language of one pattern, made
from characters of a class by concatenation, union and repetition, and nothing is said of
how a text is searched for it. Reading a lexeme comes to the same as taking the longest
prefix of the text that any of the patterns has, and no text belongs to two of them. -/
namespace SchemaLang

open scoped Computability

namespace Lexical

/-! ## Patterns -/

/-- One character of a class. -/
def oneOf (among : Char → Prop) : Language Char := {word | ∃ char, among char ∧ word = [char]}

/-- The 52 plain letters. -/
def Letter (char : Char) : Prop := 'a' ≤ char ∧ char ≤ 'z' ∨ 'A' ≤ char ∧ char ≤ 'Z'

/-- Letters, the ten digits and the underscore. -/
def NamePart (char : Char) : Prop := Letter char ∨ '0' ≤ char ∧ char ≤ '9' ∨ char = '_'

/-- A letter, then letters, digits and underscores. -/
def name : Language Char := oneOf Letter * (oneOf NamePart)∗

/-- An at sign and a name, then further names with a dot in front of each. -/
def marker : Language Char := oneOf (· = '@') * name * (oneOf (· = '.') * name)∗

/-- What stands for one character of a literal: the character itself, or a backslash and
the character behind it. -/
def quotable : Language Char :=
  oneOf (fun char => char ≠ '"' ∧ char ≠ '\\' ∧ char ≠ '\n') +
    oneOf (· = '\\') * oneOf (· ≠ '\n')

/-- Characters between two quotes. -/
def literal : Language Char := oneOf (· = '"') * quotable∗ * oneOf (· = '"')

end Lexical

/-- The pattern of a kind. The end of input has no text and no pattern, so there are
eleven of them. -/
def TokenKind.pattern : TokenKind → Language Char
  | .identifier => Lexical.name
  | .attributeName => Lexical.marker
  | .string => Lexical.literal
  | .leftBrace => {['{']}
  | .rightBrace => {['}']}
  | .leftParen => {['(']}
  | .rightParen => {[')']}
  | .comma => {[',']}
  | .question => {['?']}
  | .equals => {['=']}
  | .brackets => {['[', ']']}
  | .endOfInput => 0

namespace Lexical

/-! ## Texts of a pattern -/

@[simp] theorem mem_oneOf {among : Char → Prop} {word : List Char} :
    word ∈ oneOf among ↔ ∃ char, among char ∧ word = [char] := Iff.rfl

/-- A repetition may be begun with one more of its parts. -/
theorem append_mem_kstar {pattern : Language Char} {part word : List Char}
    (first : part ∈ pattern) (others : word ∈ pattern∗) : part ++ word ∈ pattern∗ :=
  mul_kstar_le_kstar (a := pattern) (Language.append_mem_mul first others)

/-- What holds of nothing, and of a word with a part in front of it if it holds of the
word, holds of every repetition. -/
theorem kstar_induction {pattern : Language Char} {motive : List Char → Prop}
    (nil : motive []) (append : ∀ part word, part ∈ pattern → motive word → motive (part ++ word))
    {word : List Char} (repeated : word ∈ pattern∗) : motive word := by
  obtain ⟨parts, rfl, each⟩ := Language.mem_kstar.1 repeated
  clear repeated
  induction parts with
  | nil => exact nil
  | cons part parts ih =>
    obtain ⟨first, others⟩ := List.forall_mem_cons.1 each
    exact append part parts.flatten first (ih others)

theorem mem_kstar_oneOf {among : Char → Prop} {word : List Char} :
    word ∈ (oneOf among)∗ ↔ ∀ char ∈ word, among char := by
  constructor
  · refine kstar_induction (motive := fun word => ∀ char ∈ word, among char)
      (List.forall_mem_nil _) ?_
    rintro _ word ⟨char, held, rfl⟩ others
    exact List.forall_mem_cons.2 ⟨held, others⟩
  · intro each
    induction word with
    | nil => exact Language.nil_mem_kstar _
    | cons char word ih =>
      obtain ⟨held, others⟩ := List.forall_mem_cons.1 each
      have single : [char] ∈ oneOf among := ⟨char, held, rfl⟩
      exact append_mem_kstar single (ih others)

theorem isNameStart_iff {char : Char} : isNameStart char = true ↔ Letter char := by
  simp [isNameStart, Letter]

theorem isNamePart_iff {char : Char} : isNamePart char = true ↔ NamePart char := by
  simp [isNamePart, NamePart, isNameStart_iff, or_assoc]

theorem mem_name_iff {word : List Char} : word ∈ name ↔ isName word = true := by
  rw [name, Language.mem_mul]
  constructor
  · rintro ⟨_, ⟨first, start, rfl⟩, others, parts, rfl⟩
    refine Bool.and_eq_true_iff.2 ⟨isNameStart_iff.2 start, List.all_eq_true.2 fun char found => ?_⟩
    exact isNamePart_iff.2 (mem_kstar_oneOf.1 parts char found)
  · intro named
    cases word with
    | nil => cases named
    | cons first others =>
      obtain ⟨start, parts⟩ := Bool.and_eq_true_iff.1 named
      refine ⟨[first], ⟨first, isNameStart_iff.1 start, rfl⟩, others, ?_, rfl⟩
      exact mem_kstar_oneOf.2 fun char found =>
        isNamePart_iff.1 (List.all_eq_true.1 parts char found)

/-- Further names behind a name, with their dots. -/
private theorem dottedName_append {further : List Char}
    (repeated : further ∈ (oneOf (· = '.') * name)∗) :
    ∀ first, isName first = true → DottedName (first ++ further) := by
  -- Repetitions grow at their front, so the name in front of them is a different one each time.
  refine kstar_induction (motive := fun further => ∀ first, isName first = true →
    DottedName (first ++ further)) ?_ ?_ repeated
  · intro first named
    rw [List.append_nil]
    exact .one named
  · rintro _ word ⟨_, ⟨_, rfl, rfl⟩, next, named, rfl⟩ ih first begun
    exact .more begun (ih next (mem_name_iff.1 named))

private theorem exists_further {word : List Char} (dotted : DottedName word) :
    ∃ first further, word = first ++ further ∧ first ∈ name ∧
      further ∈ (oneOf (· = '.') * name)∗ := by
  induction dotted with
  | @one first named =>
    exact ⟨first, [], (List.append_nil _).symm, mem_name_iff.2 named, Language.nil_mem_kstar _⟩
  | @more first others named dotted ih =>
    obtain ⟨next, further, rfl, begun, repeated⟩ := ih
    have part : '.' :: next ∈ oneOf (· = '.') * name :=
      Language.append_mem_mul (a := ['.']) ⟨'.', rfl, rfl⟩ begun
    exact ⟨first, _, rfl, mem_name_iff.2 named, append_mem_kstar part repeated⟩

theorem mem_marker_iff {word : List Char} : word ∈ marker ↔ MarkerName word := by
  constructor
  · rintro ⟨_, ⟨_, ⟨_, rfl, rfl⟩, first, named, rfl⟩, further, repeated, rfl⟩
    exact .mk (dottedName_append repeated first (mem_name_iff.1 named))
  · rintro ⟨dotted⟩
    obtain ⟨first, further, rfl, named, repeated⟩ := exists_further dotted
    exact Language.append_mem_mul (a := '@' :: first)
      (Language.append_mem_mul (a := ['@']) ⟨'@', rfl, rfl⟩ named) repeated

theorem mem_quotable_kstar_iff {body : List Char} :
    body ∈ quotable∗ ↔ Literal.isBody body = true := by
  constructor
  · refine kstar_induction (motive := fun body => Literal.isBody body = true) rfl ?_
    rintro _ body (⟨char, ⟨quote, escape, line⟩, rfl⟩ | ⟨_, ⟨_, rfl, rfl⟩, _, ⟨char, line, rfl⟩, rfl⟩)
      fits
    · exact (isBody_cons quote line escape body).trans fits
    · exact (isBody_escaped line body).trans fits
  · intro fits
    fun_induction Literal.isBody body with
    | case1 => exact Language.nil_mem_kstar _
    | case2 | case3 | case4 | case5 => cases fits
    | case6 char rest line ih =>
      have escaped : ['\\', char] ∈ quotable :=
        .inr (Language.append_mem_mul (a := ['\\']) ⟨'\\', rfl, rfl⟩ ⟨char, line, rfl⟩)
      exact append_mem_kstar escaped (ih fits)
    | case7 char rest quote line alone _ paired ih =>
      have plain : [char] ∈ quotable :=
        .inl ⟨char, ⟨quote, ne_backslash alone paired, line⟩, rfl⟩
      exact append_mem_kstar plain (ih fits)

theorem mem_literal_iff {word : List Char} : word ∈ literal ↔ QuotedText word := by
  constructor
  · rintro ⟨_, ⟨_, ⟨_, rfl, rfl⟩, body, fits, rfl⟩, _, ⟨_, rfl, rfl⟩, rfl⟩
    exact .mk (mem_quotable_kstar_iff.1 fits)
  · rintro ⟨fits⟩
    exact Language.append_mem_mul (a := '"' :: _)
      (Language.append_mem_mul (a := ['"']) ⟨'"', rfl, rfl⟩ (mem_quotable_kstar_iff.2 fits))
      ⟨'"', rfl, rfl⟩

end Lexical

/-! ## The longest match -/

/-- A text that begins with a text of a pattern begins with a lexeme of that kind, which
goes at least as far. -/
theorem lexeme?_of_mem_pattern {kind : TokenKind} {word : List Char} (matched : word ∈ kind.pattern)
    (rest : List Char) : ∃ spelling, lexeme? (word ++ rest) = some (kind, spelling) ∧
      word <+: spelling := by
  cases kind with
  | identifier =>
    exact ⟨_, lexeme?_isName (Lexical.mem_name_iff.1 matched) rest, List.prefix_append ..⟩
  | attributeName =>
    exact ⟨_, lexeme?_markerName (Lexical.mem_marker_iff.1 matched) rest, List.prefix_append ..⟩
  | string => exact ⟨_, lexeme?_quoted (Lexical.mem_literal_iff.1 matched), List.prefix_rfl⟩
  | endOfInput => exact absurd matched (Language.notMem_zero word)
  | _ =>
    cases matched
    exact ⟨_, rfl, List.prefix_rfl⟩

private theorem punctuation_pattern {char : Char} {kind : TokenKind}
    (known : punctuation? char = some kind) : [char] ∈ kind.pattern := by
  unfold punctuation? at known
  split at known <;> cases known <;> exact rfl

/-- What is read as a lexeme is a text of the pattern of its kind. -/
theorem mem_pattern_of_lexeme? {text spelling : List Char} {kind : TokenKind}
    (found : lexeme? text = some (kind, spelling)) : spelling ∈ kind.pattern := by
  have spelled := spelled_lexeme .start .start found
  revert found
  fun_cases lexeme? text with
  | case1 | case3 =>
    intro found
    cases found
  | case2 char rest start =>
    rintro ⟨⟩
    rw [Token.terminal, Terminal.Spelled, String.toList_ofList] at spelled
    exact Lexical.mem_marker_iff.2 spelled
  | case4 tail =>
    rintro ⟨⟩
    rfl
  | case5 rest =>
    intro found
    obtain ⟨tail, -, ⟨⟩⟩ := Option.map_eq_some_iff.1 found
    rw [Token.terminal, Terminal.Spelled, String.toList_ofList] at spelled
    exact Lexical.mem_literal_iff.2 spelled
  | case6 char rest marker bracket quote start =>
    rintro ⟨⟩
    rw [Token.terminal, Terminal.Spelled, String.toList_ofList] at spelled
    exact Lexical.mem_name_iff.2 spelled
  | case7 char rest marker bracket quote other =>
    intro found
    obtain ⟨kind, known, ⟨⟩⟩ := Option.map_eq_some_iff.1 found
    exact punctuation_pattern known

/-- No text is a lexeme of two kinds. -/
theorem TokenKind.pattern_unique {kind other : TokenKind} {word : List Char}
    (matched : word ∈ kind.pattern) (again : word ∈ other.pattern) : kind = other := by
  obtain ⟨_, found, -⟩ := lexeme?_of_mem_pattern matched []
  obtain ⟨_, found', -⟩ := lexeme?_of_mem_pattern again []
  exact congrArg Prod.fst (Option.some.inj (found.symm.trans found'))

/-- The longest non-empty prefix of a text that any pattern has, and the one kind whose
pattern has it. -/
structure LongestMatch (text : List Char) (kind : TokenKind) (spelling : List Char) : Prop where
  begins : spelling <+: text
  nonempty : spelling ≠ []
  matched : spelling ∈ kind.pattern
  longest : ∀ other word, word <+: text → word ∈ TokenKind.pattern other →
    word.length ≤ spelling.length
  unique : ∀ other, spelling ∈ TokenKind.pattern other → other = kind

/-- No pattern has a non-empty prefix of a text. -/
def NoMatch (text : List Char) : Prop :=
  ∀ kind word, word <+: text → word ≠ [] → word ∉ TokenKind.pattern kind

/-- Every prefix that a pattern has begins the lexeme that is read. -/
theorem isPrefix_of_lexeme? {text word spelling : List Char} {kind other : TokenKind}
    (found : lexeme? text = some (kind, spelling)) (begins : word <+: text)
    (matched : word ∈ other.pattern) : word <+: spelling := by
  obtain ⟨rest, rfl⟩ := begins
  obtain ⟨longest, again, within⟩ := lexeme?_of_mem_pattern matched rest
  cases found.symm.trans again
  exact within

/-- Reading a lexeme takes the longest match. -/
theorem lexeme?_eq_some_iff {text spelling : List Char} {kind : TokenKind} :
    lexeme? text = some (kind, spelling) ↔ LongestMatch text kind spelling := by
  constructor
  · intro found
    have matched := mem_pattern_of_lexeme? found
    exact ⟨lexeme?_isPrefix found, lexeme?_ne_nil found, matched,
      fun other word begins again => (isPrefix_of_lexeme? found begins again).length_le,
      fun other again => TokenKind.pattern_unique again matched⟩
  · rintro ⟨⟨rest, rfl⟩, nonempty, matched, longest, unique⟩
    obtain ⟨word, found, within⟩ := lexeme?_of_mem_pattern matched rest
    have short := longest kind word (lexeme?_isPrefix found) (mem_pattern_of_lexeme? found)
    rw [found, within.eq_of_length_le short]

/-- No lexeme is read where there is no match. -/
theorem lexeme?_eq_none_iff {text : List Char} : lexeme? text = none ↔ NoMatch text := by
  constructor
  · rintro missing kind _ ⟨rest, rfl⟩ - matched
    obtain ⟨spelling, found, -⟩ := lexeme?_of_mem_pattern matched rest
    cases missing.symm.trans found
  · intro nothing
    cases found : lexeme? text with
    | none => rfl
    | some lexeme =>
      exact absurd (mem_pattern_of_lexeme? found)
        (nothing _ _ (lexeme?_isPrefix found) (lexeme?_ne_nil found))

end SchemaLang
