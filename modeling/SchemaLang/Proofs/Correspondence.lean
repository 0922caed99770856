import Mathlib.Data.List.Forall2
import SchemaLang.Proofs.Reading

/-! Two readings side by side, of feeds that agree in kinds and spellings and differ in
places. Nothing but the offsets of failures is ever compared on the way, so as long as
the places of one feed correspond to those of the other in the same order, both
readings take the same turns: they end alike, with failures at corresponding places
and with values that are related wherever the values of their parts are. -/
namespace SchemaLang

/-- How the places of one text correspond to those of another, and what is kept of the
parts between them when trees are compared. Tokens may end anywhere, but where they
start has to keep its order. -/
structure Correspondence where
  starts : Position → Position → Prop
  stops : Position → Position → Prop
  left : Span → Span
  right : Span → Span
  ordered : ∀ {first second further beyond}, starts first second → starts further beyond →
    (first.offset < further.offset ↔ second.offset < beyond.offset)
  kept : ∀ {first second : Span}, starts first.start second.start →
    stops first.stop second.stop → left first = right second

namespace Correspondence

variable {κ : Type} {Γ : κ → Type} {α β γ δ : Type}

/-- The same token at corresponding places. -/
structure Tokens (places : Correspondence) (first second : Token) : Prop where
  kind : second.kind = first.kind
  text : second.text = first.text
  start : places.starts first.start second.start
  stop : places.stops first.stop second.stop

/-- The same failure at corresponding places. -/
structure Errors (places : Correspondence) (first second : ParseError) : Prop where
  kind : second.kind = first.kind
  message : second.message = first.message
  position : places.starts first.position second.position

/-- The same tokens and the same end at corresponding places. -/
inductive Feeds (places : Correspondence) : Feed → Feed → Prop where
  | token {first second : Token} {proper : first.kind ≠ .endOfInput}
      {proper' : second.kind ≠ .endOfInput} {rest rest' : Feed}
      (tokens : places.Tokens first second) (others : Feeds places rest rest') :
      Feeds places (.token first proper rest) (.token second proper' rest')
  | finish {place place' : Position} (start : places.starts place place')
      (stop : places.stops place place') : Feeds places (.finish place) (.finish place')
  | fault {failure failure' : LexError} (found : failure'.found = failure.found)
      (start : places.starts failure.position failure'.position) :
      Feeds places (.fault failure) (.fault failure')

/-- Readings that end alike, with related values. -/
inductive Readings (places : Correspondence) (related : α → β → Prop) :
    Reading α → Reading β → Prop where
  | value {tree : α} {tree' : β} {rest rest' : Feed} (trees : related tree tree')
      (feeds : places.Feeds rest rest') : Readings places related (.value tree rest) (.value tree' rest')
  | failure {error error' : ParseError} (errors : places.Errors error error') :
      Readings places related (.failure error) (.failure error')
  | exhausted : Readings places related .exhausted .exhausted

/-- Readers whose readings of corresponding feeds end alike. -/
def Readers (places : Correspondence) (related : α → β → Prop) (reader : Reader α)
    (reader' : Reader β) : Prop :=
  ∀ (depth : Nat) {feed feed' : Feed}, places.Feeds feed feed' →
    places.Readings related (reader depth feed) (reader' depth feed')

variable {places : Correspondence}

theorem Feeds.size {feed feed' : Feed} (alike : places.Feeds feed feed') :
    feed'.size = feed.size := by
  induction alike with
  | token _ _ ih => exact congrArg (· + 1) ih
  | finish | fault => rfl

theorem Feeds.next {feed feed' : Feed} (alike : places.Feeds feed feed') :
    places.Feeds feed.next feed'.next := by
  cases alike with
  | token _ others => exact others
  | finish start stop => exact .finish start stop
  | fault found start => exact .fault found start

theorem Errors.isFatal {error error' : ParseError} (alike : places.Errors error error') :
    error'.isFatal = error.isFatal := by
  unfold ParseError.isFatal
  rw [alike.kind]

theorem Errors.mismatch {first second : Token} (alike : places.Tokens first second)
    (message : String) :
    places.Errors (.mismatch message first.start) (.mismatch message second.start) :=
  ⟨rfl, rfl, alike.start⟩

/-- Of corresponding failures the corresponding ones are further on. -/
theorem Errors.furthest {error error' other other' : ParseError}
    (first : places.Errors error error') (second : places.Errors other other') :
    places.Errors (error.furthest other) (error'.furthest other') := by
  unfold ParseError.furthest
  simp only [places.ordered first.position second.position]
  split
  · exact second
  · exact first

namespace Readings

variable {related : α → β → Prop} {others : γ → δ → Prop} {reading : Reading α}
  {reading' : Reading β}

theorem map (alike : places.Readings related reading reading') {change : α → γ} {change' : β → δ}
    (changed : ∀ tree tree', related tree tree' → others (change tree) (change' tree')) :
    places.Readings others (reading.map change) (reading'.map change') := by
  cases alike with
  | value trees feeds => exact .value (changed _ _ trees) feeds
  | failure errors => exact .failure errors
  | exhausted => exact .exhausted

/-- What goes on behind a part, whether it is there or not. -/
theorem resolve (alike : places.Readings related reading reading')
    {found : α → Feed → Reading γ} {found' : β → Feed → Reading δ}
    {missing : ParseError → Reading γ} {missing' : ParseError → Reading δ}
    (next : ∀ tree tree' rest rest', related tree tree' → places.Feeds rest rest' →
      places.Readings others (found tree rest) (found' tree' rest'))
    (missed : ∀ error error', places.Errors error error' →
      places.Readings others (missing error) (missing' error')) :
    places.Readings others (reading.resolve found missing) (reading'.resolve found' missing') := by
  cases alike with
  | value trees feeds => exact next _ _ _ _ trees feeds
  | failure errors =>
    simp only [Reading.resolve, errors.isFatal]
    split
    · exact .failure errors
    · exact missed _ _ errors
  | exhausted => exact .exhausted

theorem andThen (alike : places.Readings related reading reading')
    {found : α → Feed → Reading γ} {found' : β → Feed → Reading δ}
    (next : ∀ tree tree' rest rest', related tree tree' → places.Feeds rest rest' →
      places.Readings others (found tree rest) (found' tree' rest')) :
    places.Readings others (reading.andThen found) (reading'.andThen found') := by
  cases alike with
  | value trees feeds => exact next _ _ _ _ trees feeds
  | failure errors => exact .failure errors
  | exhausted => exact .exhausted

end Readings

namespace Readers

variable {related : α → β → Prop} {others : γ → δ → Prop} {reader : Reader α}
  {reader' : Reader β}

/-- Readings that begin with a look. -/
private theorem look {feed feed' : Feed} (alike : places.Feeds feed feed')
    {found : Token → Reading α} {found' : Token → Reading β}
    (next : ∀ first second, places.Tokens first second →
      places.Readings related (found first) (found' second)) :
    places.Readings related
      (match feed.look with
        | .error failure => .failure (.ofLexError failure)
        | .ok token => found token)
      (match feed'.look with
        | .error failure => .failure (.ofLexError failure)
        | .ok token => found' token) := by
  cases alike with
  | token tokens _ => exact next _ _ tokens
  | finish start stop => exact next _ _ ⟨rfl, rfl, start, stop⟩
  | fault found start =>
    refine .failure ⟨rfl, ?_, start⟩
    simp only [ParseError.ofLexError, found]

theorem one {accepts : Token → Bool}
    (agrees : ∀ first second, places.Tokens first second → accepts second = accepts first)
    (message : String) :
    places.Readers places.Tokens (Reader.one accepts message) (Reader.one accepts message) := by
  intro depth feed feed' alike
  refine look alike fun first second tokens => ?_
  rw [agrees first second tokens]
  split
  · exact .value tokens alike.next
  · exact .failure (.mismatch tokens message)

theorem token (kind : TokenKind) :
    places.Readers places.Tokens (Reader.token kind) (Reader.token kind) :=
  one (fun _ _ tokens => by rw [tokens.kind]) _

theorem keyword (word : String) :
    places.Readers places.Tokens (Reader.keyword word) (Reader.keyword word) :=
  one (fun _ _ tokens => by rw [tokens.kind, tokens.text]) _

theorem map (alike : places.Readers related reader reader') {change : α → γ} {change' : β → δ}
    (changed : ∀ tree tree', related tree tree' → others (change tree) (change' tree')) :
    places.Readers others (fun depth feed => (reader depth feed).map change)
      fun depth feed => (reader' depth feed).map change' :=
  fun depth _ _ feeds => (alike depth feeds).map changed

theorem firstOf {readers : List (Reader α)} {readers' : List (Reader β)}
    (alike : List.Forall₂ (places.Readers related) readers readers') {furthest furthest' : ParseError}
    (same : places.Errors furthest furthest') :
    places.Readers related (Reader.firstOf furthest readers)
      (Reader.firstOf furthest' readers') := by
  induction alike generalizing furthest furthest' with
  | nil => exact fun _ _ _ _ => .failure same
  | cons first _ ih =>
    intro depth feed feed' feeds
    refine (first depth feeds).resolve ?_ fun error error' errors => ?_
    · exact fun tree tree' rest rest' trees feeds => .value trees feeds
    · exact ih (same.furthest errors) depth feeds

theorem choice {readers : List (Reader α)} {readers' : List (Reader β)}
    (alike : List.Forall₂ (places.Readers related) readers readers') (message : String) :
    places.Readers related (Reader.choice message readers) (Reader.choice message readers') := by
  intro depth feed feed' feeds
  refine look feeds fun first second tokens => ?_
  exact firstOf alike (Errors.mismatch tokens message) depth feeds

theorem optional (alike : places.Readers related reader reader') :
    places.Readers (Option.Rel related) (Reader.optional reader) (Reader.optional reader') := by
  intro depth feed feed' feeds
  refine (alike depth feeds).resolve ?_ fun _ _ _ => .value .none feeds
  exact fun tree tree' rest rest' trees feeds => .value (.some trees) feeds

theorem zeroOrMore (alike : places.Readers related reader reader') (rounds : Nat) :
    places.Readers (List.Forall₂ related) (Reader.zeroOrMore reader rounds)
      (Reader.zeroOrMore reader' rounds) := by
  induction rounds with
  | zero => exact fun _ _ _ _ => .exhausted
  | succ rounds ih =>
    intro depth feed feed' feeds
    refine (alike depth feeds).resolve ?_ fun _ _ _ => .value .nil feeds
    intro tree tree' rest rest' trees behind
    rw [behind.size, feeds.size]
    split
    · exact .value (.cons trees .nil) behind
    · exact (ih depth behind).map fun _ _ listed => .cons trees listed

theorem separatedTail {separator : Reader γ} {separator' : Reader δ}
    (alike : places.Readers related reader reader')
    (between : places.Readers others separator separator') (rounds : Nat) :
    places.Readers (List.Forall₂ related) (Reader.separatedTail reader separator rounds)
      (Reader.separatedTail reader' separator' rounds) := by
  induction rounds with
  | zero => exact fun _ _ _ _ => .exhausted
  | succ rounds ih =>
    intro depth feed feed' feeds
    have part : places.Readings related
        ((separator depth feed).andThen fun _ rest => reader depth rest)
        ((separator' depth feed').andThen fun _ rest => reader' depth rest) :=
      (between depth feeds).andThen fun _ _ _ _ _ behind => alike depth behind
    refine part.resolve ?_ fun _ _ _ => .value .nil feeds
    intro tree tree' rest rest' trees behind
    exact (ih depth behind).map fun _ _ listed => .cons trees listed

theorem separated {separator : Reader γ} {separator' : Reader δ}
    (alike : places.Readers related reader reader')
    (between : places.Readers others separator separator') (rounds : Nat) :
    places.Readers (List.Forall₂ related) (Reader.separated reader separator rounds)
      (Reader.separated reader' separator' rounds) := by
  intro depth feed feed' feeds
  refine (alike depth feeds).resolve ?_ fun _ _ _ => .value .nil feeds
  intro tree tree' rest rest' trees behind
  exact (separatedTail alike between rounds depth behind).map fun _ _ listed => .cons trees listed

theorem takeUntil (alike : places.Readers related reader reader') (stop : TokenKind)
    (rounds : Nat) :
    places.Readers
      (fun result result' => List.Forall₂ related result.1 result'.1 ∧
        places.Tokens result.2 result'.2)
      (Reader.takeUntil reader stop rounds) (Reader.takeUntil reader' stop rounds) := by
  induction rounds with
  | zero => exact fun _ _ _ _ => .exhausted
  | succ rounds ih =>
    intro depth feed feed' feeds
    refine look feeds fun first second tokens => ?_
    rw [tokens.kind]
    split
    · exact .value ⟨.nil, tokens⟩ feeds.next
    · refine (alike depth feeds).andThen fun tree tree' rest rest' trees behind => ?_
      rw [behind.size, feeds.size]
      split
      · exact .failure (.mismatch tokens _)
      · exact (ih depth behind).map fun _ _ listed => ⟨.cons trees listed.1, listed.2⟩

theorem withMessage (alike : places.Readers related reader reader') (message : String) :
    places.Readers related (Reader.withMessage message reader)
      (Reader.withMessage message reader') := by
  intro depth feed feed' feeds
  refine (alike depth feeds).resolve ?_ fun error error' errors => ?_
  · exact fun tree tree' rest rest' trees feeds => .value trees feeds
  · exact .failure ⟨errors.kind, rfl, errors.position⟩

theorem nested (alike : places.Readers related reader reader') (limit : Nat) :
    places.Readers related (Reader.nested limit reader) (Reader.nested limit reader') := by
  intro depth feed feed' feeds
  unfold Reader.nested
  split
  · exact look feeds fun _ _ tokens => .failure ⟨rfl, rfl, tokens.start⟩
  · exact alike (depth + 1) feeds

end Readers

/-! ## Rules -/

variable {grammar : Grammar Γ} {limit : Nat}

/-- A rule reads corresponding feeds alike, with related values, within any budget up
to a limit. -/
def Rules (places : Correspondence) (grammar : Grammar Γ) (limit : Nat) {α : Type}
    (related : α → α → Prop) (rule : Rule Γ α) : Prop :=
  ∀ budget ≤ limit,
    places.Readers related (rule.reader grammar budget) (rule.reader grammar budget)

/-- The parts of a sequence read corresponding feeds alike. -/
def Parts (places : Correspondence) (grammar : Grammar Γ) (limit : Nat) {α : Type}
    (related : α → α → Prop) (steps : Steps Γ α) : Prop :=
  ∀ budget ≤ limit, places.Readers related
    (steps.reader fun rule => rule.reader grammar budget)
    (steps.reader fun rule => rule.reader grammar budget)

/-- All alternatives of a choice read corresponding feeds alike. -/
def Options (places : Correspondence) (grammar : Grammar Γ) (limit : Nat) {α : Type}
    (related : α → α → Prop) (alternatives : Alternatives Γ α) : Prop :=
  ∀ budget ≤ limit, List.Forall₂ (places.Readers related)
    (alternatives.readers fun rule => rule.reader grammar budget)
    (alternatives.readers fun rule => rule.reader grammar budget)

namespace Rules

variable {related : α → α → Prop} {others : β → β → Prop} {rule : Rule Γ α}

/-- Without a budget nothing is read, so only what a rule does with some is at issue. -/
private theorem intro (alike : ∀ budget, budget + 1 ≤ limit →
    places.Readers related (rule.reader grammar (budget + 1)) (rule.reader grammar (budget + 1))) :
    places.Rules grammar limit related rule := by
  intro budget bound
  cases budget with
  | zero => exact fun _ _ _ _ => .exhausted
  | succ budget => exact alike budget bound

protected theorem token (kind : TokenKind) :
    places.Rules grammar limit places.Tokens (.token kind) :=
  intro fun _ _ => .token kind

protected theorem keyword (word : String) :
    places.Rules grammar limit places.Tokens (.keyword word) :=
  intro fun _ _ => .keyword word

protected theorem map (alike : places.Rules grammar limit related rule) {change : α → β}
    (changed : ∀ tree tree', related tree tree' → others (change tree) (change tree')) :
    places.Rules grammar limit others (.map change rule) :=
  intro fun budget bound => (alike budget (Nat.le_of_succ_le bound)).map changed

protected theorem sequence {steps : Steps Γ α} (alike : places.Parts grammar limit related steps) :
    places.Rules grammar limit related (.sequence steps) :=
  intro fun budget bound => alike budget (Nat.le_of_succ_le bound)

protected theorem choice {alternatives : Alternatives Γ α}
    (alike : places.Options grammar limit related alternatives) (message : String) :
    places.Rules grammar limit related (.choice message alternatives) :=
  intro fun budget bound => .choice (alike budget (Nat.le_of_succ_le bound)) message

protected theorem optional (alike : places.Rules grammar limit related rule) :
    places.Rules grammar limit (Option.Rel related) (.optional rule) :=
  intro fun budget bound => (alike budget (Nat.le_of_succ_le bound)).optional

protected theorem zeroOrMore (alike : places.Rules grammar limit related rule) :
    places.Rules grammar limit (List.Forall₂ related) (.zeroOrMore rule) :=
  intro fun budget bound => (alike budget (Nat.le_of_succ_le bound)).zeroOrMore budget

protected theorem separated {separator : Rule Γ β}
    (alike : places.Rules grammar limit related rule)
    (between : places.Rules grammar limit others separator) :
    places.Rules grammar limit (List.Forall₂ related) (.separated rule separator) :=
  intro fun budget bound => (alike budget (Nat.le_of_succ_le bound)).separated
    (between budget (Nat.le_of_succ_le bound)) budget

protected theorem takeUntil (alike : places.Rules grammar limit related rule) (stop : TokenKind) :
    places.Rules grammar limit
      (fun result result' => List.Forall₂ related result.1 result'.1 ∧
        places.Tokens result.2 result'.2)
      (.takeUntil rule stop) :=
  intro fun budget bound => (alike budget (Nat.le_of_succ_le bound)).takeUntil stop budget

protected theorem withMessage (alike : places.Rules grammar limit related rule)
    (message : String) : places.Rules grammar limit related (.withMessage message rule) :=
  intro fun budget bound => (alike budget (Nat.le_of_succ_le bound)).withMessage message

protected theorem nested (alike : places.Rules grammar limit related rule) (levels : Nat) :
    places.Rules grammar limit related (.nested levels rule) :=
  intro fun budget bound => (alike budget (Nat.le_of_succ_le bound)).nested levels

/-- A name takes one step more than its rule. -/
protected theorem ref {name : κ} {related : Γ name → Γ name → Prop}
    (alike : ∀ below < limit, places.Rules grammar below related (grammar name)) :
    places.Rules grammar limit related (.ref name) :=
  intro fun budget bound => alike budget bound budget (Nat.le_refl _)

end Rules

namespace Parts

variable {related : α → α → Prop} {others : β → β → Prop} {rule : Rule Γ α}

protected theorem last (alike : places.Rules grammar limit related rule) :
    places.Parts grammar limit related (.last rule) := alike

protected theorem next {steps : Steps Γ β} (first : places.Rules grammar limit related rule)
    (following : places.Parts grammar limit others steps) :
    places.Parts grammar limit
      (fun tree tree' => related tree.1 tree'.1 ∧ others tree.2 tree'.2) (.next rule steps) := by
  intro budget bound depth feed feed' feeds
  refine (first budget bound depth feeds).andThen fun tree tree' rest rest' trees behind => ?_
  exact (following budget bound depth behind).map fun _ _ more => ⟨trees, more⟩

end Parts

namespace Options

variable {related : α → α → Prop} {rule : Rule Γ α}

protected theorem last (alike : places.Rules grammar limit related rule) :
    places.Options grammar limit related (.last rule) :=
  fun budget bound => .cons (alike budget bound) .nil

protected theorem orElse {alternatives : Alternatives Γ α}
    (first : places.Rules grammar limit related rule)
    (following : places.Options grammar limit related alternatives) :
    places.Options grammar limit related (.orElse rule alternatives) :=
  fun budget bound => .cons (first budget bound) (following budget bound)

end Options

end Correspondence

end SchemaLang
