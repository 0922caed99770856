import SchemaLang.Proofs.Language

/-! A text has at most one tree. Two phrases in front of the same terminals can only
differ in how far they reach, so each is compared where it is known that nothing of
it can follow: no parenthesis behind a value, no sign behind a type, and no marker
behind a line. -/
namespace SchemaLang.Phrase

/-- Neither arguments nor a sign may belong to what stands in front. -/
def Settled : List Terminal → Prop
  | .leftParen :: _ | .question :: _ | .brackets :: _ => False
  | _ => True

/-- What stands in front of a line, or behind the last one. -/
def AtLine : List Terminal → Prop
  | .identifier _ :: _ | .rightBrace :: _ => True
  | _ => False

/-- What stands behind the last value of a list. -/
def AtEnd : List Terminal → Prop
  | .rightParen :: _ => True
  | _ => False

theorem AtEnd.settled {terminals : List Terminal} (ended : AtEnd terminals) :
    Settled terminals := by
  unfold AtEnd at ended
  split at ended
  · trivial
  · exact ended.elim

theorem AtLine.settled {terminals : List Terminal} (line : AtLine terminals) :
    Settled terminals := by
  unfold AtLine at line
  split at line
  · trivial
  · trivial
  · exact line.elim

/-! ## Values -/

private theorem Arguments.opens {before after : List Terminal} {values : List Expression}
    (arguments : Arguments before values after) : ¬ Settled before := by
  cases arguments <;> exact id

private theorem Values.opens {rest after : List Terminal} {values : List Expression} :
    ¬ Values (.rightParen :: rest) values after := by
  rintro (⟨⟨⟩⟩ | ⟨⟨⟩, _⟩)

/-- What begins with a name is a call, or a truth value and nothing more. -/
private theorem Value.named {name : String} {rest after : List Terminal} {value : Expression}
    (said : Value (.identifier name :: rest) value after) :
    (∃ values, Arguments rest values after ∧ value = .call ⟨name, nowhere⟩ values nowhere) ∨
      ∃ truth, name = (if truth then "true" else "false") ∧ value = .boolean truth nowhere ∧
        after = rest := by
  cases said with
  | call arguments => exact .inl ⟨_, arguments, rfl⟩
  | yes => exact .inr ⟨true, rfl, rfl, rfl⟩
  | no => exact .inr ⟨false, rfl, rfl, rfl⟩

private theorem Value.boolean_unique {truth : Bool} {rest behind : List Terminal}
    {other : Expression} (settled : Settled rest)
    (second : Value (.identifier (if truth then "true" else "false") :: rest) other behind) :
    .boolean truth nowhere = other ∧ rest = behind := by
  rcases second.named with ⟨_, arguments, -⟩ | ⟨same, spelled, rfl, rfl⟩
  · exact absurd settled arguments.opens
  · cases truth <;> cases same <;> simp at spelled ⊢

mutual

theorem Value.unique {before after behind : List Terminal} {value other : Expression} :
    Value before value after → Settled after → Value before other behind → Settled behind →
      value = other ∧ after = behind
  | .call arguments, settled, second, settled' => by
    rcases second.named with ⟨_, arguments', rfl⟩ | ⟨_, _, _, rfl⟩
    · obtain ⟨rfl, rfl⟩ := Arguments.unique arguments arguments'
      exact ⟨rfl, rfl⟩
    · exact absurd settled' arguments.opens
  | .string, _, .string, _ => ⟨rfl, rfl⟩
  | .yes, settled, second, _ => @Value.boolean_unique true _ _ _ settled second
  | .no, settled, second, _ => @Value.boolean_unique false _ _ _ settled second

theorem Arguments.unique {before after behind : List Terminal} {values others : List Expression} :
    Arguments before values after → Arguments before others behind →
      values = others ∧ after = behind
  | .none, .none => ⟨rfl, rfl⟩
  | .none, .some listed => absurd listed Values.opens
  | .some listed, .none => absurd listed Values.opens
  | .some listed, .some listed' => by
    obtain ⟨rfl, ended⟩ := Values.unique listed trivial listed' trivial
    exact ⟨rfl, (List.cons.inj ended).2⟩

theorem Values.unique {before after behind : List Terminal} {values others : List Expression} :
    Values before values after → AtEnd after → Values before others behind → AtEnd behind →
      values = others ∧ after = behind
  | .one single, ended, second, ended' => by
    cases second with
    | one single' =>
      obtain ⟨rfl, rfl⟩ := Value.unique single ended.settled single' ended'.settled
      exact ⟨rfl, rfl⟩
    | more first others =>
      obtain ⟨-, rfl⟩ := Value.unique single ended.settled first trivial
      exact ended.elim
  | .more first others, ended, second, ended' => by
    cases second with
    | one single =>
      obtain ⟨-, rfl⟩ := Value.unique first trivial single ended'.settled
      exact ended'.elim
    | more first' others' =>
      obtain ⟨rfl, same⟩ := Value.unique first trivial first' trivial
      cases same
      obtain ⟨rfl, rfl⟩ := Values.unique others ended others' ended'
      exact ⟨rfl, rfl⟩

end

/-! ## Repetitions -/

section

variable {α : Type} {part : List Terminal → α → List Terminal → Prop}
  {Clear : List Terminal → Prop}

private theorem Many.clear {before after : List Terminal} {trees : List α}
    (many : Many part before trees after) (last : Clear after)
    (begins : ∀ before tree rest, part before tree rest → Clear before) : Clear before := by
  cases many with
  | none => exact last
  | more first others => exact begins _ _ _ first

/-- Parts that are unique wherever another part or the end follows are unique as a
list, if it ends where no part begins. -/
theorem Many.unique {before after behind : List Terminal} {trees others : List α}
    (first : Many part before trees after) (second : Many part before others behind)
    (last : Clear after) (last' : Clear behind) (stop : ∀ tree rest, ¬ part after tree rest)
    (stop' : ∀ tree rest, ¬ part behind tree rest)
    (begins : ∀ before tree rest, part before tree rest → Clear before)
    (unique : ∀ before tree rest other rest', part before tree rest → Clear rest →
      part before other rest' → Clear rest' → tree = other ∧ rest = rest') :
    trees = others ∧ after = behind := by
  induction first generalizing others with
  | none =>
    cases second with
    | none => exact ⟨rfl, rfl⟩
    | more part _ => exact absurd part (stop _ _)
  | more part rest ih =>
    cases second with
    | none => exact absurd part (stop' _ _)
    | more part' rest' =>
      obtain ⟨rfl, rfl⟩ := unique _ _ _ _ _ part (rest.clear last begins) part'
        (rest'.clear last' begins)
      obtain ⟨rfl, rfl⟩ := ih rest' last stop
      exact ⟨rfl, rfl⟩

end

/-! ## Lines and blocks -/

theorem Sign.unique {before after behind : List Terminal} {modifier other : TypeModifier}
    (first : Sign before modifier after) (settled : Settled after)
    (second : Sign before other behind) (settled' : Settled behind) :
    modifier = other ∧ after = behind := by
  cases first with
  | none =>
    cases second with
    | none => exact ⟨rfl, rfl⟩
    | optional | array => exact settled.elim
  | optional =>
    cases second with
    | none => exact settled'.elim
    | optional => exact ⟨rfl, rfl⟩
  | array =>
    cases second with
    | none => exact settled'.elim
    | array => exact ⟨rfl, rfl⟩

theorem Typed.unique {before after behind : List Terminal} {type other : FieldType}
    (first : Typed before type after) (settled : Settled after)
    (second : Typed before other behind) (settled' : Settled behind) :
    type = other ∧ after = behind := by
  obtain ⟨sign⟩ := first
  obtain ⟨sign'⟩ := second
  obtain ⟨rfl, rfl⟩ := sign.unique settled sign' settled'
  exact ⟨rfl, rfl⟩

theorem Marker.unique {before after behind : List Terminal} {mark other : Attribute}
    (first : Marker before mark after) (settled : Settled after)
    (second : Marker before other behind) (settled' : Settled behind) :
    mark = other ∧ after = behind := by
  cases first with
  | plain =>
    cases second with
    | plain => exact ⟨rfl, rfl⟩
    | applied arguments => exact absurd settled arguments.opens
  | applied arguments =>
    cases second with
    | plain => exact absurd settled' arguments.opens
    | applied arguments' =>
      obtain ⟨rfl, rfl⟩ := arguments.unique arguments'
      exact ⟨rfl, rfl⟩

private theorem Marker.begins {before after : List Terminal} {mark : Attribute}
    (said : Marker before mark after) : Settled before := by
  cases said <;> trivial

private theorem AtLine.unmarked {terminals : List Terminal} (line : AtLine terminals)
    (mark : Attribute) (after : List Terminal) : ¬ Marker terminals mark after := by
  rintro (_ | _) <;> exact line

theorem Line.unique {before after behind : List Terminal} {field other : Field}
    (first : Line before field after) (line : AtLine after) (second : Line before other behind)
    (line' : AtLine behind) : field = other ∧ after = behind := by
  obtain ⟨typed, marked⟩ := first
  obtain ⟨typed', marked'⟩ := second
  have begins : ∀ before mark rest, Marker before mark rest → Settled before :=
    fun _ _ _ => Marker.begins
  obtain ⟨rfl, rfl⟩ := typed.unique (marked.clear line.settled begins) typed'
    (marked'.clear line'.settled begins)
  obtain ⟨rfl, rfl⟩ := marked.unique marked' line.settled line'.settled line.unmarked line'.unmarked
    begins fun _ _ _ _ _ => Marker.unique
  exact ⟨rfl, rfl⟩

theorem Setting.unique {before after behind : List Terminal} {option other : ConfigOption}
    (first : Setting before option after) (settled : Settled after)
    (second : Setting before other behind) (settled' : Settled behind) :
    option = other ∧ after = behind := by
  obtain ⟨given⟩ := first
  obtain ⟨given'⟩ := second
  obtain ⟨rfl, rfl⟩ := given.unique settled given' settled'
  exact ⟨rfl, rfl⟩

private theorem Line.begins {before after : List Terminal} {field : Field}
    (said : Line before field after) : AtLine before := by
  cases said; trivial

private theorem Setting.begins {before after : List Terminal} {option : ConfigOption}
    (said : Setting before option after) : Settled before := by
  cases said; trivial

/-- The word that opens a block decides its kind. -/
private theorem Block.worded {word : String} {rest after : List Terminal} {block : Definition}
    (said : Block (.identifier word :: rest) block after) :
    (∃ name fields inner, word = "model" ∧ rest = .identifier name :: .leftBrace :: inner ∧
        block = .model ⟨⟨name, nowhere⟩, fields, nowhere⟩ ∧
        Many Line inner fields (.rightBrace :: after)) ∨
      ∃ kind name options inner, word = ConfigKind.keyword kind ∧
        rest = .identifier name :: .leftBrace :: inner ∧
        block = .config ⟨kind, ⟨name, nowhere⟩, options, nowhere⟩ ∧
        Many Setting inner options (.rightBrace :: after) := by
  cases said with
  | model lines => exact .inl ⟨_, _, _, rfl, rfl, rfl, lines⟩
  | config settings => exact .inr ⟨_, _, _, _, rfl, rfl, rfl, settings⟩

private theorem keyword_ne_model (kind : ConfigKind) : kind.keyword ≠ "model" := by
  cases kind <;> simp [ConfigKind.keyword]

private theorem keyword_injective {kind other : ConfigKind} (same : kind.keyword = other.keyword) :
    kind = other := by
  cases kind <;> cases other <;> simp [ConfigKind.keyword] at same ⊢

theorem Block.unique {before after behind : List Terminal} {block other : Definition}
    (first : Block before block after) (second : Block before other behind) :
    block = other ∧ after = behind := by
  cases first with
  | model lines =>
    rcases second.worded with ⟨_, _, _, -, ⟨⟩, rfl, lines'⟩ | ⟨kind, _, _, _, word, -⟩
    · have begins : ∀ before field rest, Line before field rest → AtLine before :=
        fun _ _ _ => Line.begins
      obtain ⟨rfl, ended⟩ := lines.unique lines' trivial trivial (by rintro _ _ ⟨⟩)
        (by rintro _ _ ⟨⟩) begins fun _ _ _ _ _ => Line.unique
      exact ⟨rfl, (List.cons.inj ended).2⟩
    · exact absurd word.symm (keyword_ne_model kind)
  | config settings =>
    rcases second.worded with ⟨_, _, _, word, -⟩ | ⟨kind, _, _, _, word, ⟨⟩, rfl, settings'⟩
    · exact absurd word (keyword_ne_model _)
    · cases keyword_injective word
      have begins : ∀ before option rest, Setting before option rest → Settled before :=
        fun _ _ _ => Setting.begins
      obtain ⟨rfl, ended⟩ := settings.unique settings' trivial trivial (by rintro _ _ ⟨⟩)
        (by rintro _ _ ⟨⟩) begins fun _ _ _ _ _ => Setting.unique
      exact ⟨rfl, (List.cons.inj ended).2⟩

/-- A text has at most one tree. -/
theorem Sentence.unique {terminals : List Terminal} {document other : Document}
    (first : Sentence terminals document) (second : Sentence terminals other) :
    document = other := by
  obtain ⟨blocks⟩ := first
  obtain ⟨blocks'⟩ := second
  have begins : ∀ before block rest, Block before block rest → (fun _ => True) before :=
    fun _ _ _ _ => trivial
  obtain ⟨rfl, -⟩ := blocks.unique blocks' trivial trivial (by rintro _ _ ⟨⟩) (by rintro _ _ ⟨⟩)
    begins fun _ _ _ _ _ part _ part' _ => part.unique part'
  rfl

end SchemaLang.Phrase
