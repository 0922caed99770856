import SchemaLang.Proofs.Offsets
import SchemaLang.Proofs.Verdict

/-! Where readings get to. A reading moves along the one path that steps lead from its
front, but it may stop early: a list that goes wrong somewhere is given back as a
whole, parenthesis included. So what follows on the path behind a reading is either
what the next part can take, or confined to the list that was given back. -/
namespace SchemaLang

/-- Every terminal but the end of input is that of a token. -/
theorem Feed.eq_token_of_head? {feed : Feed} {terminal : Terminal}
    (front : feed.head? = some terminal) (more : terminal ≠ .endOfInput) :
    ∃ first proper rest, feed = .token first proper rest ∧ first.terminal = terminal := by
  cases feed with
  | token first proper rest => exact ⟨first, proper, rest, rfl, Option.some.inj front⟩
  | finish place => cases front; exact absurd rfl more
  | fault failure => cases front

/-! ## Paths -/

namespace Expectation

/-- How far inside a text an expectation stands: outside of all blocks, in a block, and
then further in with each open list. -/
def height : Expectation → Nat
  | block => 0
  | finished => 0
  | expectation => expectation.opened + 1

@[simp] theorem height_resume (host : Host) (opened : Nat) :
    (resume host opened).height = opened + 1 := by
  cases opened with
  | zero => cases host <;> rfl
  | succ opened => rfl

theorem height_le (expectation : Expectation) : expectation.height ≤ expectation.opened + 1 := by
  cases expectation <;> simp [height]

/-- Steps lead from one expectation and feed to others further on, within the limit and
without going below a height. -/
inductive Path (level : Nat) : Expectation → Feed → Expectation → Feed → Prop where
  | here {expectation : Expectation} {feed : Feed} : Path level expectation feed expectation feed
  | step {expectation next last : Expectation} {first : Token} {proper : first.kind ≠ .endOfInput}
      {rest final : Feed} (stepped : expectation.step first.terminal = some next)
      (room : next.opened ≤ Schema.maxCallDepth) (high : level ≤ next.height)
      (path : Path level next rest last final) :
      Path level expectation (.token first proper rest) last final

/-- All that steps lead to behind the front of a feed is at some height at least. -/
def Confined (level : Nat) (expectation : Expectation) (feed : Feed) : Prop :=
  ∀ last final, Path 0 expectation feed last final → final.size < feed.size → level ≤ last.height

section

variable {level lower : Nat} {expectation middle last : Expectation} {feed rest final : Feed}

theorem Path.mono (path : Path level expectation feed last final) (less : lower ≤ level) :
    Path lower expectation feed last final := by
  induction path with
  | here => exact .here
  | step stepped room high _ ih => exact .step stepped room (Nat.le_trans less high) ih

theorem Path.trans (path : Path level expectation feed middle rest)
    (further : Path level middle rest last final) : Path level expectation feed last final := by
  induction path with
  | here => exact further
  | step stepped room high _ ih => exact .step stepped room high (ih further)

theorem Path.one {first : Token} {proper : first.kind ≠ .endOfInput}
    (stepped : expectation.step first.terminal = some middle)
    (room : middle.opened ≤ Schema.maxCallDepth) (high : level ≤ middle.height) :
    Path level expectation (.token first proper rest) middle rest :=
  .step stepped room high .here

theorem Path.size_le (path : Path level expectation feed last final) : final.size ≤ feed.size := by
  induction path with
  | here => exact Nat.le_refl _
  | step _ _ _ _ ih => exact Nat.le_succ_of_le ih

/-- A path that takes no token leads nowhere else. -/
theorem Path.eq_of_size (path : Path level expectation feed last final)
    (same : feed.size ≤ final.size) : last = expectation ∧ final = feed := by
  cases path with
  | here => exact ⟨rfl, rfl⟩
  | step _ _ _ further =>
    have shorter := further.size_le
    simp only [Feed.size] at same
    omega

theorem Path.ordered (path : Path level expectation feed last final) (ordered : feed.Ordered) :
    final.Ordered := by
  induction path with
  | here => exact ordered
  | step _ _ _ _ ih => exact ih ordered.2

theorem Path.place_le (path : Path level expectation feed last final) (ordered : feed.Ordered) :
    feed.place.offset ≤ final.place.offset := by
  induction path with
  | here => exact Nat.le_refl _
  | step _ _ _ _ ih => exact Nat.le_trans (Nat.le_of_lt ordered.1) (ih ordered.2)

theorem Confined.mono (confined : Confined level expectation feed) (less : lower ≤ level) :
    Confined lower expectation feed :=
  fun last final path shorter => Nat.le_trans less (confined last final path shorter)

/-- Everything behind the front of a feed lies behind its first token. -/
theorem confined_token {first : Token} {proper : first.kind ≠ .endOfInput}
    (behind : ∀ next, expectation.step first.terminal = some next →
      next.opened ≤ Schema.maxCallDepth → level ≤ next.height ∧ Confined level next rest) :
    Confined level expectation (.token first proper rest) := by
  intro last final path shorter
  cases path with
  | here => exact absurd shorter (Nat.lt_irrefl _)
  | step stepped room _ further =>
    obtain ⟨high, confined⟩ := behind _ stepped room
    by_cases moved : final.size < rest.size
    · exact confined last final further moved
    · obtain ⟨rfl, -⟩ := further.eq_of_size (Nat.not_lt.1 moved)
      exact high

/-- Nothing lies behind what may not stand there, or behind the end. -/
theorem confined_of_blocked
    (blocked : ∀ terminal, feed.head? = some terminal → expectation.step terminal = none) :
    Confined level expectation feed := by
  intro last final path shorter
  cases path with
  | here => exact absurd shorter (Nat.lt_irrefl _)
  | step stepped =>
    have stuck := blocked _ rfl
    rw [stepped] at stuck
    cases stuck

theorem confined_of_size (ended : feed.size = 0) : Confined level expectation feed :=
  fun _ _ _ shorter => by omega

/-- What is confined from some place of a path on is confined from its beginning on, if
the path did not go below either. -/
theorem Confined.of_path (confined : Confined level middle rest)
    (path : Path level expectation feed middle rest) : Confined level expectation feed := by
  induction path with
  | here => exact confined
  | step stepped _ high _ ih =>
    refine confined_token fun next stepped' _ => ?_
    cases stepped.symm.trans stepped'
    exact ⟨high, ih confined⟩

end

/-! ## Demands -/

/-- What a failure says to be missing. -/
inductive Demand where
  /-- The word that opens a block. -/
  | definition
  | modelName
  | configName
  | fieldType
  /-- A field, or the brace that closes the block. -/
  | field
  /-- An option, or the brace that closes the block. -/
  | option
  | value
  /-- A token of one kind. -/
  | only (kind : TokenKind)
deriving DecidableEq

namespace Demand

/-- How a demand is worded. -/
def message : Demand → String
  | definition => "Expected config or model definition"
  | modelName => "Expected model name"
  | configName => "Expected config name"
  | fieldType => "Expected field type"
  | field => "Expected field definition or '\x7d'"
  | option => "Expected config option or '\x7d'"
  | value => "Expected expression"
  | only kind => "Expected " ++ kind.description

/-- Whether a terminal is of the class that a demand names. -/
def accepts : Demand → Terminal → Bool
  | definition, terminal =>
    terminal ∈ [.identifier "model", .identifier "datasource", .identifier "generator"]
  | modelName, terminal => terminal.kind = .identifier
  | configName, terminal => terminal.kind = .identifier
  | fieldType, terminal => terminal.kind = .identifier
  | field, terminal => terminal.kind = .identifier ∨ terminal.kind = .rightBrace
  | option, terminal => terminal.kind = .identifier ∨ terminal.kind = .rightBrace
  | value, terminal => terminal.kind = .identifier ∨ terminal.kind = .string
  | only kind, terminal => terminal.kind = kind

end Demand

/-- A failure at the front of a feed demands what could stand there, and not what does
stand there. Whatever still follows from there is inside of some list. -/
structure Blames (depth : Nat) (expectation : Expectation) (feed : Feed) (demand : Demand) :
    Prop where
  accepted : ∀ terminal, demand.accepts terminal = true →
    ∃ next, expectation.step terminal = some next ∧ next.opened ≤ depth + 1
  refused : ∃ terminal, feed.head? = some terminal ∧ demand.accepts terminal = false
  confined : Confined 2 expectation feed

/-- A failure blames the front of a feed that steps lead to. -/
def Blamed (depth : Nat) (expectation : Expectation) (feed : Feed) (error : ParseError) : Prop :=
  ∃ last final demand, Path 0 expectation feed last final ∧ Blames depth last final demand ∧
    error = .mismatch demand.message final.place

section

variable {depth level : Nat} {expectation middle : Expectation} {feed rest : Feed}
  {error : ParseError}

theorem Blamed.of_path (blamed : Blamed depth middle rest error)
    (path : Path level expectation feed middle rest) : Blamed depth expectation feed error := by
  obtain ⟨last, final, demand, further, blames, same⟩ := blamed
  exact ⟨last, final, demand, (path.mono (Nat.zero_le _)).trans further, blames, same⟩

theorem Blamed.place_le (blamed : Blamed depth expectation feed error) (ordered : feed.Ordered) :
    feed.place.offset ≤ error.position.offset := by
  obtain ⟨last, final, demand, path, -, rfl⟩ := blamed
  exact path.place_le ordered

theorem Blames.blamed {demand : Demand} (blames : Blames depth expectation feed demand) :
    Blamed depth expectation feed (.mismatch demand.message feed.place) :=
  ⟨expectation, feed, demand, .here, blames, rfl⟩

end

/-! ## Stopping -/

/-- An expectation stands in front of a feed like what follows a part: it takes all that
this takes, and whatever else it takes of the feed is inside of some list. -/
structure Stands (level : Nat) (expectation : Expectation)
    (follows : Terminal → Option Expectation) (feed : Feed) : Prop where
  ordered : feed.Ordered
  wider : ∀ {terminal next}, follows terminal = some next → expectation.step terminal = some next
  greedy : ∀ {terminal next}, feed.head? = some terminal → expectation.step terminal = some next →
    follows terminal = some next ∨ Confined (max level 2) expectation feed

namespace Stands

variable {level : Nat} {expectation : Expectation} {follows fewer : Terminal → Option Expectation}
  {feed : Feed}

theorem refl (ordered : feed.Ordered) : Stands level expectation expectation.step feed :=
  ⟨ordered, id, fun _ stepped => .inl stepped⟩

/-- What nothing that follows can take is confined. -/
theorem refused (stands : Stands level expectation follows feed)
    (blocked : ∀ terminal, feed.head? = some terminal → follows terminal = none) :
    Confined (max level 2) expectation feed := by
  by_cases taken : ∃ terminal next, feed.head? = some terminal ∧ expectation.step terminal = some next
  · obtain ⟨terminal, next, front, stepped⟩ := taken
    rcases stands.greedy front stepped with same | confined
    · rw [blocked terminal front] at same
      cases same
    · exact confined
  · refine confined_of_blocked fun terminal front => ?_
    cases stepped : expectation.step terminal with
    | none => rfl
    | some next => exact absurd ⟨terminal, next, front, stepped⟩ taken

/-- A part that may be left out is left out where it does not begin. -/
theorem narrow (stands : Stands level expectation follows feed)
    (fits : ∀ {terminal next}, fewer terminal = some next → follows terminal = some next)
    (same : ∀ terminal, feed.head? = some terminal → follows terminal = fewer terminal) :
    Stands level expectation fewer feed where
  ordered := stands.ordered
  wider taken := stands.wider (fits taken)
  greedy front stepped := by rw [← same _ front]; exact stands.greedy front stepped

/-- A part that is given back leaves behind what it was confined to. -/
theorem giveBack (stands : Stands level expectation follows feed)
    (fits : ∀ {terminal next}, fewer terminal = some next → follows terminal = some next)
    (confined : Confined (max level 2) expectation feed) :
    Stands level expectation fewer feed where
  ordered := stands.ordered
  wider taken := stands.wider (fits taken)
  greedy _ _ := .inr confined

theorem blames {depth : Nat} {demand : Demand} (stands : Stands level expectation follows feed)
    (accepted : ∀ terminal, demand.accepts terminal = true →
      ∃ next, follows terminal = some next ∧ next.opened ≤ depth + 1)
    {terminal : Terminal} (front : feed.head? = some terminal)
    (refused : demand.accepts terminal = false) (blocked : follows terminal = none) :
    Blames depth expectation feed demand where
  accepted other wanted := by
    obtain ⟨next, taken, shallow⟩ := accepted other wanted
    exact ⟨next, stands.wider taken, shallow⟩
  refused := ⟨terminal, front, refused⟩
  confined := by
    refine (stands.refused fun other found => ?_).mono (Nat.le_max_right ..)
    cases front.symm.trans found
    exact blocked

end Stands

end Expectation

/-! ## Readings on a path -/

variable {α β : Type}

open Expectation

/-- A reading stays on the path from an expectation: with a value it stops where the next
part goes on, and after a failure everything on the path is confined. A failure that is
not fatal is to blame on some place of the path. -/
def Reading.Lands (reading : Reading α) (depth low high : Nat) (expectation : Expectation)
    (follows : Terminal → Option Expectation) (feed : Feed) : Prop :=
  match reading with
  | value _ rest => ∃ last, Path low expectation feed last rest ∧ Stands low last follows rest
  | failure error => Confined high expectation feed ∧
      (error.isFatal = false → Blamed depth expectation feed error)
  | exhausted => True

namespace Reading.Lands

variable {reading : Reading α} {depth shallow low high : Nat} {expectation last : Expectation}
  {follows behind : Terminal → Option Expectation} {feed rest : Feed}

theorem map (lands : reading.Lands depth low high expectation follows feed) (change : α → β) :
    (reading.map change).Lands depth low high expectation follows feed := by
  cases reading <;> exact lands

theorem mono {higher : Nat} (lands : reading.Lands depth low higher expectation follows feed)
    (less : high ≤ higher) : reading.Lands depth low high expectation follows feed := by
  cases reading with
  | value tree rest => exact lands
  | failure error => exact ⟨lands.1.mono less, lands.2⟩
  | exhausted => trivial

/-- A reading may be seen from further in front. -/
theorem of_path (lands : reading.Lands depth low high last follows rest)
    (path : Path high expectation feed last rest) (less : low ≤ high) :
    reading.Lands depth low high expectation follows feed := by
  cases reading with
  | value tree final =>
    obtain ⟨stop, further, stands⟩ := lands
    exact ⟨stop, (path.mono less).trans further, stands⟩
  | failure error => exact ⟨lands.1.of_path path, fun soft => (lands.2 soft).of_path path⟩
  | exhausted => trivial

/-- What goes on behind a part, whether it is there or not. -/
theorem resolve (lands : reading.Lands shallow high high expectation follows feed)
    {next : α → Feed → Reading β} {missing : ParseError → Reading β} (less : low ≤ high)
    (found : ∀ tree rest last, reading = .value tree rest → Stands high last follows rest →
      (next tree rest).Lands depth low high last behind rest)
    (missed : ∀ error, reading = .failure error → error.isFatal = false →
      Confined high expectation feed → Blamed shallow expectation feed error →
      (missing error).Lands depth low high expectation behind feed) :
    (reading.resolve next missing).Lands depth low high expectation behind feed := by
  cases reading with
  | value tree rest =>
    obtain ⟨last, path, stands⟩ := lands
    exact (found tree rest last rfl stands).of_path path less
  | failure error =>
    cases fatal : error.isFatal with
    | true =>
      simp only [Reading.resolve, fatal, if_true]
      exact ⟨lands.1, fun soft => by rw [fatal] at soft; cases soft⟩
    | false =>
      simp only [Reading.resolve, fatal, Bool.false_eq_true, if_false]
      exact missed error rfl fatal lands.1 (lands.2 fatal)
  | exhausted => trivial

theorem andThen (lands : reading.Lands depth high high expectation follows feed)
    {next : α → Feed → Reading β} (less : low ≤ high)
    (found : ∀ tree rest last, reading = .value tree rest → Stands high last follows rest →
      (next tree rest).Lands depth low high last behind rest) :
    (reading.andThen next).Lands depth low high expectation behind feed := by
  rw [Reading.andThen_eq]
  refine lands.resolve less found fun error _ soft confined blamed => ?_
  exact ⟨confined, fun _ => blamed⟩

end Reading.Lands

/-- Where a feed cannot be scanned, no path goes on. -/
theorem Reading.lands_fault {failure : LexError} {depth low high : Nat} {expectation : Expectation}
    {follows : Terminal → Option Expectation} :
    (Reading.failure (α := α) (.ofLexError failure)).Lands depth low high expectation follows
      (.fault failure) :=
  ⟨confined_of_size rfl, nofun⟩

/-- A demand that is not met where an expectation stands. -/
theorem Expectation.Stands.fails {depth level low high : Nat} {expectation : Expectation}
    {follows behind : Terminal → Option Expectation} {feed : Feed} {demand : Demand}
    {terminal : Terminal} (stands : Stands level expectation follows feed)
    (less : high ≤ max level 2)
    (accepted : ∀ terminal, demand.accepts terminal = true →
      ∃ next, follows terminal = some next ∧ next.opened ≤ depth + 1)
    (front : feed.head? = some terminal) (refused : demand.accepts terminal = false)
    (blocked : follows terminal = none) :
    (Reading.failure (α := α) (.mismatch demand.message feed.place)).Lands depth low high expectation
      behind feed := by
  refine ⟨(stands.refused fun other found => ?_).mono less, fun _ => ?_⟩
  · cases front.symm.trans found
    exact blocked
  · exact (stands.blames accepted front refused blocked).blamed

/-- Failure at the front of a feed. -/
def Reading.Refuses (reading : Reading α) (feed : Feed) : Prop :=
  ∃ message, reading = .failure (.mismatch message feed.place)

theorem Reading.Refuses.map {reading : Reading α} {feed : Feed} (refuses : reading.Refuses feed)
    (change : α → β) : (reading.map change).Refuses feed := by
  obtain ⟨message, rfl⟩ := refuses
  exact ⟨message, rfl⟩

theorem Reading.Refuses.andThen {reading : Reading α} {feed : Feed}
    (refuses : reading.Refuses feed) (next : α → Feed → Reading β) :
    (reading.andThen next).Refuses feed := by
  obtain ⟨message, rfl⟩ := refuses
  exact ⟨message, rfl⟩

namespace Reader

theorem token_refuses {kind : TokenKind} {feed : Feed} {terminal : Terminal}
    (front : feed.head? = some terminal) (other : terminal.kind ≠ kind) (depth : Nat) :
    token kind depth feed = .failure (.mismatch (Demand.only kind).message feed.place) := by
  obtain ⟨first, looked, rfl⟩ := Feed.look_of_head? front
  rw [Token.kind_terminal] at other
  simp [token, one, looked, other, Feed.place_of_look looked, Demand.message]

theorem keyword_refuses {word : String} {feed : Feed} {terminal : Terminal}
    (front : feed.head? = some terminal) (other : terminal ≠ .identifier word) (depth : Nat) :
    (keyword word depth feed).Refuses feed := by
  obtain ⟨first, looked, rfl⟩ := Feed.look_of_head? front
  rw [ne_eq, Token.terminal_identifier] at other
  exact ⟨_, by simp [keyword, one, looked, other, Feed.place_of_look looked]; rfl⟩

/-- Alternatives that fail in front of a feed never got further than any other failure. -/
theorem firstOf_refuses {depth : Nat} {feed : Feed} {furthest : ParseError}
    (further : feed.place.offset ≤ furthest.position.offset) (earlier : List (Reader α))
    (refuses : ∀ reader ∈ earlier, (reader depth feed).Refuses feed) (others : List (Reader α)) :
    firstOf furthest (earlier ++ others) depth feed = firstOf furthest others depth feed := by
  induction earlier with
  | nil => rfl
  | cons reader earlier ih =>
    obtain ⟨message, read⟩ := refuses reader List.mem_cons_self
    rw [List.cons_append, firstOf, read, Reading.resolve,
      ← ih fun other found => refuses other (List.mem_cons_of_mem _ found)]
    have kept : furthest.furthest (.mismatch message feed.place) = furthest :=
      if_neg (Nat.not_lt.2 further)
    simp [ParseError.isFatal, ParseError.mismatch] at kept ⊢
    rw [kept]

/-- A choice weighs its alternatives against its own message. -/
theorem choice_begins {depth : Nat} {feed : Feed} {terminal : Terminal}
    (front : feed.head? = some terminal) (message : String) (alternatives : List (Reader α)) :
    choice message alternatives depth feed =
      firstOf (.mismatch message feed.place) alternatives depth feed := by
  obtain ⟨first, looked, -⟩ := Feed.look_of_head? front
  simp [choice, looked, Feed.place_of_look looked]

theorem choice_refuses {depth : Nat} {feed : Feed} {terminal : Terminal}
    (front : feed.head? = some terminal) {alternatives : List (Reader α)}
    (refuses : ∀ reader ∈ alternatives, (reader depth feed).Refuses feed) (message : String) :
    choice message alternatives depth feed = .failure (.mismatch message feed.place) := by
  rw [choice_begins front, ← List.append_nil alternatives,
    firstOf_refuses (Nat.le_refl _) alternatives refuses, firstOf]

/-- Among alternatives that fail in front of a feed, the one that gets further decides. -/
theorem choice_alone {depth : Nat} {feed : Feed} {terminal : Terminal} {reader : Reader α}
    (front : feed.head? = some terminal) (earlier later : List (Reader α))
    (refuses : ∀ reader ∈ earlier ++ later, (reader depth feed).Refuses feed)
    (further : ∀ error, reader depth feed = .failure error → error.isFatal = false →
      feed.place.offset < error.position.offset) (message : String) :
    choice message (earlier ++ reader :: later) depth feed = reader depth feed := by
  rw [choice_begins front, firstOf_refuses (Nat.le_refl _) earlier fun other found =>
    refuses other (List.mem_append_left _ found), firstOf]
  cases read : reader depth feed with
  | value tree rest => rfl
  | failure error =>
    cases fatal : error.isFatal with
    | true => simp only [Reading.resolve, fatal, if_true]
    | false =>
      have ahead := further error read fatal
      have furthest : ParseError.furthest (.mismatch message feed.place) error = error :=
        if_pos ahead
      simp only [Reading.resolve, fatal, Bool.false_eq_true, if_false]
      rw [furthest, ← List.append_nil later, firstOf_refuses (Nat.le_of_lt ahead) later
        (fun other found => refuses other (List.mem_append_right _ found)), firstOf]
  | exhausted => rfl

end Reader

/-! ## Tokens on a path -/

/-- A value is only found behind a token at least. -/
def Reading.Advances (reading : Reading α) (feed : Feed) : Prop :=
  match reading with
  | value _ rest => rest.size < feed.size
  | _ => True

theorem Reading.Lands.map_advances {reading : Reading α} {depth low high : Nat}
    {expectation : Expectation} {follows : Terminal → Option Expectation} {feed : Feed}
    {change : α → β}
    (lands : reading.Lands depth low high expectation follows feed ∧ reading.Advances feed) :
    (reading.map change).Lands depth low high expectation follows feed ∧
      (reading.map change).Advances feed := by
  cases reading <;> exact lands

namespace Reader

section

variable {reader : Reader α} {kind : TokenKind} {make : Token → α} {demand : Demand}
  {depth level low high : Nat} {expectation next : Expectation}
  {follows behind : Terminal → Option Expectation} {feed : Feed}
  {following : α → Feed → Reading β}

/-- What goes on behind a token that is demanded. -/
theorem Takes.lands (takes : reader.Takes kind make)
    (refuses : ∀ {terminal}, feed.head? = some terminal → terminal.kind ≠ kind →
      reader depth feed = .failure (.mismatch demand.message feed.place))
    (stands : Stands high expectation follows feed)
    (agrees : ∀ terminal, feed.head? = some terminal →
      (follows terminal = if terminal.kind = kind then some next else none) ∧
        (demand.accepts terminal = true → terminal.kind = kind))
    (accepted : ∀ terminal, demand.accepts terminal = true →
      ∃ next, follows terminal = some next ∧ next.opened ≤ level + 1)
    (proper : kind ≠ .endOfInput) (room : next.opened ≤ Schema.maxCallDepth)
    (inside : high ≤ next.height) (less : low ≤ high)
    (lands : ∀ first rest, first.kind = kind → Stands high next next.step rest →
      (following (make first) rest).Lands level low high next behind rest) :
    ((reader depth feed).andThen following).Lands level low high expectation behind feed ∧
      ((reader depth feed).andThen following).Advances feed := by
  cases ahead : feed.head? with
  | none =>
    obtain ⟨failure, rfl⟩ := Feed.eq_fault_of_head? ahead
    rw [takes.fault]
    exact ⟨Reading.lands_fault, trivial⟩
  | some terminal =>
    obtain ⟨taken, only⟩ := agrees terminal ahead
    by_cases same : terminal.kind = kind
    · rw [if_pos same] at taken
      obtain ⟨first, _, rest, rfl, rfl⟩ := Feed.eq_token_of_head? ahead fun ended => by
        rw [ended] at same
        exact proper same.symm
      rw [Token.kind_terminal] at same
      rw [takes.taken depth _ rest same, Reading.andThen]
      have lands := lands first rest same (.refl stands.ordered.2)
      refine ⟨lands.of_path (.one (stands.wider taken) room inside) less, ?_⟩
      cases read : following (make first) rest with
      | value tree final =>
        rw [read] at lands
        obtain ⟨_, path, _⟩ := lands
        exact Nat.lt_succ_of_le path.size_le
      | failure | exhausted => trivial
    · rw [if_neg same] at taken
      rw [refuses ahead same]
      refine ⟨stands.fails (Nat.le_max_left ..) accepted ahead (Bool.eq_false_iff.2 fun wanted => ?_) taken, trivial⟩
      exact same (only wanted)

end

end Reader

end SchemaLang
