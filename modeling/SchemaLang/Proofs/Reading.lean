import SchemaLang.Proofs.Feed
import SchemaLang.Rule

/-! Rules as functions of what is left to be read. A reader takes the number of
open levels and a feed to a value and the rest, or to a failure. A failed
reading has moved nothing, so there is nothing to give back. -/
namespace SchemaLang

/-- How a reading ends. -/
inductive Reading (α : Type) where
  | value (value : α) (rest : Feed)
  | failure (error : ParseError)
  | exhausted

/-- A rule seen from outside: what it makes of open levels and a feed. -/
abbrev Reader (α : Type) := (depth : Nat) → Feed → Reading α

variable {κ : Type} {Γ : κ → Type} {α β : Type}

namespace Reading

/-- Goes on behind a value. -/
def andThen : Reading α → (α → Feed → Reading β) → Reading β
  | value result rest, next => next result rest
  | failure error, _ => failure error
  | exhausted, _ => exhausted

/-- Changes the value. -/
def map (change : α → β) : Reading α → Reading β
  | value result rest => value (change result) rest
  | failure error => failure error
  | exhausted => exhausted

/-- Goes on behind a value, or in another way after a failure that is not fatal. -/
def resolve (reading : Reading α) (found : α → Feed → Reading β)
    (missing : ParseError → Reading β) : Reading β :=
  match reading with
  | value result rest => found result rest
  | failure error => if error.isFatal then failure error else missing error
  | exhausted => exhausted

end Reading

namespace Reader

/-- One token that meets a condition. -/
def one (accepts : Token → Bool) (message : String) : Reader Token := fun _ feed =>
  match feed.look with
  | .error failure => .failure (.ofLexError failure)
  | .ok token =>
    if accepts token then .value token feed.next else .failure (.mismatch message token.start)

/-- One token of a kind. -/
def token (kind : TokenKind) : Reader Token :=
  one (fun token => token.kind = kind) ("Expected " ++ kind.description)

/-- One identifier with a given spelling. -/
def keyword (word : String) : Reader Token :=
  one (fun token => token.kind = .identifier ∧ token.text = word) ("Expected keyword " ++ word)

/-- The first alternative that matches, or the failure that got furthest. -/
def firstOf (furthest : ParseError) : List (Reader α) → Reader α
  | [], _, _ => .failure furthest
  | alternative :: others, depth, feed =>
    (alternative depth feed).resolve .value fun error =>
      firstOf (furthest.furthest error) others depth feed

/-- A choice, whose own message stands for the place where it begins. -/
def choice (message : String) (alternatives : List (Reader α)) : Reader α := fun depth feed =>
  match feed.look with
  | .error failure => .failure (.ofLexError failure)
  | .ok token => firstOf (.mismatch message token.start) alternatives depth feed

/-- A part or nothing. -/
def optional (reader : Reader α) : Reader (Option α) := fun depth feed =>
  (reader depth feed).resolve (fun value rest => .value (some value) rest)
    fun _ => .value none feed

/-- As many parts as there are. A part that takes no token is the last one. -/
def zeroOrMore (reader : Reader α) : Nat → Reader (List α)
  | 0, _, _ => .exhausted
  | budget + 1, depth, feed =>
    (reader depth feed).resolve
      (fun value rest =>
        if rest.size = feed.size then .value [value] rest
        else (zeroOrMore reader budget depth rest).map (value :: ·))
      fun _ => .value [] feed

/-- The parts of a list after its first one. -/
def separatedTail (reader : Reader α) (separator : Reader β) : Nat → Reader (List α)
  | 0, _, _ => .exhausted
  | budget + 1, depth, feed =>
    ((separator depth feed).andThen fun _ rest => reader depth rest).resolve
      (fun value rest => (separatedTail reader separator budget depth rest).map (value :: ·))
      fun _ => .value [] feed

/-- A list of parts with separators between them. -/
def separated (reader : Reader α) (separator : Reader β) (budget : Nat) : Reader (List α) :=
  fun depth feed =>
    (reader depth feed).resolve
      (fun first rest => (separatedTail reader separator budget depth rest).map (first :: ·))
      fun _ => .value [] feed

/-- Parts up to a closing token, which is taken as well. -/
def takeUntil (reader : Reader α) (stop : TokenKind) : Nat → Reader (List α × Token)
  | 0, _, _ => .exhausted
  | budget + 1, depth, feed =>
    match feed.look with
    | .error failure => .failure (.ofLexError failure)
    | .ok token =>
      if token.kind = stop then .value ([], token) feed.next
      else (reader depth feed).andThen fun value rest =>
        if rest.size = feed.size then
          .failure (.mismatch ("Expected " ++ stop.description) token.start)
        else (takeUntil reader stop budget depth rest).map fun (values, close) =>
          (value :: values, close)

/-- Failures that are not fatal in other words. -/
def withMessage (message : String) (reader : Reader α) : Reader α := fun depth feed =>
  (reader depth feed).resolve .value fun error => .failure (error.withMessage message)

/-- One level deeper, up to a limit. -/
def nested (limit : Nat) (reader : Reader α) : Reader α := fun depth feed =>
  if limit ≤ depth then
    match feed.look with
    | .error failure => .failure (.ofLexError failure)
    | .ok token => .failure (.tooDeep token.start)
  else reader (depth + 1) feed

end Reader

/-- Reads the parts of a sequence in order. -/
def Steps.reader (read : {α : Type} → Rule Γ α → Reader α) {α : Type} : Steps Γ α → Reader α
  | .last rule => read rule
  | .next rule others => fun depth feed =>
    (read rule depth feed).andThen fun value rest =>
      (others.reader read depth rest).map fun values => (value, values)

/-- The readers of the alternatives, in order. -/
def Alternatives.readers (read : {α : Type} → Rule Γ α → Reader α) {α : Type} :
    Alternatives Γ α → List (Reader α)
  | .last rule => [read rule]
  | .orElse rule others => read rule :: others.readers read

/-- What a rule reads, within a budget. -/
def Rule.reader (grammar : Grammar Γ) : Nat → {α : Type} → Rule Γ α → Reader α
  | 0, _, _ => fun _ _ => .exhausted
  | _ + 1, _, .token kind => Reader.token kind
  | _ + 1, _, .keyword word => Reader.keyword word
  | budget + 1, _, .map change rule => fun depth feed =>
    (reader grammar budget rule depth feed).map change
  | budget + 1, _, .sequence steps => steps.reader fun rule => reader grammar budget rule
  | budget + 1, _, .choice message alternatives =>
    Reader.choice message (alternatives.readers fun rule => reader grammar budget rule)
  | budget + 1, _, .optional rule => Reader.optional (reader grammar budget rule)
  | budget + 1, _, .zeroOrMore rule => Reader.zeroOrMore (reader grammar budget rule) budget
  | budget + 1, _, .separated rule separator =>
    Reader.separated (reader grammar budget rule) (reader grammar budget separator) budget
  | budget + 1, _, .takeUntil rule stop =>
    Reader.takeUntil (reader grammar budget rule) stop budget
  | budget + 1, _, .withMessage message rule =>
    Reader.withMessage message (reader grammar budget rule)
  | budget + 1, _, .nested limit rule => Reader.nested limit (reader grammar budget rule)
  | budget + 1, _, .ref name => reader grammar budget (grammar name)

end SchemaLang
