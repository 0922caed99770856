import SchemaLang.Parser

/-! Grammar rules as data. A rule is a term over a handful of combinators and the
names of other rules, which may be recursive, and its type says what it yields.
Running a rule takes a step budget: every inner rule and every round of a
repetition gets a smaller one, so a run always ends, and a rule that would go
on for ever is told apart from one that fails. -/
namespace SchemaLang

mutual

/-- A rule that yields a value of a type. The family gives the type of value
that each rule name stands for. -/
inductive Rule {κ : Type} (Γ : κ → Type) : Type → Type 1 where
  /-- One token of a kind. -/
  | token (kind : TokenKind) : Rule Γ Token
  /-- One identifier with a given spelling. -/
  | keyword (word : String) : Rule Γ Token
  /-- Another rule, with its value changed. -/
  | map {α β : Type} (change : α → β) (rule : Rule Γ α) : Rule Γ β
  /-- Rules one after the other. -/
  | sequence {α : Type} (steps : Steps Γ α) : Rule Γ α
  /-- The first rule that matches. -/
  | choice {α : Type} (message : String) (alternatives : Alternatives Γ α) : Rule Γ α
  /-- A rule or nothing. -/
  | optional {α : Type} (rule : Rule Γ α) : Rule Γ (Option α)
  /-- A rule as often as it matches. -/
  | zeroOrMore {α : Type} (rule : Rule Γ α) : Rule Γ (List α)
  /-- A rule as often as it matches, with separators between. -/
  | separated {α β : Type} (rule : Rule Γ α) (separator : Rule Γ β) : Rule Γ (List α)
  /-- A rule again and again until a closing token. -/
  | takeUntil {α : Type} (rule : Rule Γ α) (stop : TokenKind) : Rule Γ (List α × Token)
  /-- A rule whose failures read differently. -/
  | withMessage {α : Type} (message : String) (rule : Rule Γ α) : Rule Γ α
  /-- A rule one level deeper, up to a limit. -/
  | nested {α : Type} (limit : Nat) (rule : Rule Γ α) : Rule Γ α
  /-- The rule of a name. -/
  | ref (name : κ) : Rule Γ (Γ name)

/-- The parts of a sequence. Their values are paired up from the right. -/
inductive Steps {κ : Type} (Γ : κ → Type) : Type → Type 1 where
  | last {α : Type} (rule : Rule Γ α) : Steps Γ α
  | next {α β : Type} (rule : Rule Γ α) (others : Steps Γ β) : Steps Γ (α × β)

/-- The alternatives of a choice, at least one. -/
inductive Alternatives {κ : Type} (Γ : κ → Type) : Type → Type 1 where
  | last {α : Type} (rule : Rule Γ α) : Alternatives Γ α
  | orElse {α : Type} (rule : Rule Γ α) (others : Alternatives Γ α) : Alternatives Γ α

end

variable {κ : Type} {Γ : κ → Type} {α β γ δ : Type}

/-- One rule for each name. -/
abbrev Grammar {κ : Type} (Γ : κ → Type) := (name : κ) → Rule Γ (Γ name)

/-- Runs the parts of a sequence in order and stops at the first that fails. -/
def Steps.parser (parse : {α : Type} → Rule Γ α → Parser α) {α : Type} : Steps Γ α → Parser α
  | .last rule => parse rule
  | .next rule others => do
    let value ← parse rule
    let values ← others.parser parse
    return (value, values)

/-- The parsers of the alternatives, in order. -/
def Alternatives.parsers (parse : {α : Type} → Rule Γ α → Parser α) {α : Type} :
    Alternatives Γ α → List (Parser α)
  | .last rule => [parse rule]
  | .orElse rule others => parse rule :: others.parsers parse

namespace Rule

/-- Runs a rule, all rules inside it going back to where they began when they
fail. The rule itself leaves the cursor where it stopped. -/
def apply (grammar : Grammar Γ) : Nat → {α : Type} → Rule Γ α → Parser α
  | 0, _, _ => throw .exhausted
  | _ + 1, _, .token kind => Parser.token kind
  | _ + 1, _, .keyword word => Parser.keyword word
  | budget + 1, _, .map change rule => change <$> (apply grammar budget rule).rewinding
  | budget + 1, _, .sequence steps =>
    steps.parser fun rule => (apply grammar budget rule).rewinding
  | budget + 1, _, .choice message alternatives =>
    Parser.choice message (alternatives.parsers fun rule => (apply grammar budget rule).rewinding)
  | budget + 1, _, .optional rule => Parser.optional (apply grammar budget rule).rewinding
  | budget + 1, _, .zeroOrMore rule =>
    Parser.zeroOrMore (apply grammar budget rule).rewinding budget
  | budget + 1, _, .separated rule separator =>
    Parser.separated (apply grammar budget rule).rewinding
      (apply grammar budget separator).rewinding budget
  | budget + 1, _, .takeUntil rule stop =>
    Parser.takeUntil (apply grammar budget rule).rewinding stop budget
  | budget + 1, _, .withMessage message rule =>
    Parser.withMessage message (apply grammar budget rule).rewinding
  | budget + 1, _, .nested limit rule =>
    Parser.nested limit (apply grammar budget rule).rewinding
  | budget + 1, _, .ref name => (apply grammar budget (grammar name)).rewinding

/-- Runs a rule and goes back to where it began if it fails. -/
def parse (grammar : Grammar Γ) (budget : Nat) (rule : Rule Γ α) : Parser α :=
  (rule.apply grammar budget).rewinding

/-- Two rules in a row. -/
def pair (first : Rule Γ α) (second : Rule Γ β) : Rule Γ (α × β) :=
  .sequence (.next first (.last second))

/-- Three rules in a row. -/
def triple (first : Rule Γ α) (second : Rule Γ β) (third : Rule Γ γ) : Rule Γ (α × β × γ) :=
  .sequence (.next first (.next second (.last third)))

/-- Four rules in a row. -/
def quadruple (first : Rule Γ α) (second : Rule Γ β) (third : Rule Γ γ) (fourth : Rule Γ δ) :
    Rule Γ (α × β × γ × δ) :=
  .sequence (.next first (.next second (.next third (.last fourth))))

/-- Either of two rules. -/
def either (message : String) (first second : Rule Γ α) : Rule Γ α :=
  .choice message (.orElse first (.last second))

end Rule

end SchemaLang
