import SchemaLang.Proofs.Extent
import SchemaLang.Proofs.Placement

/-! How the nodes of a tree lie in a text. The tokens of a text stand one behind the
other, and a node is laid out over some of them in a row, its children over shorter rows
inside that one, one behind the other. So the span of a node encloses those of its
children, and these are disjoint and in the order of the text. -/
namespace SchemaLang

/-! ## Nodes -/

/-- A node of a tree, below the root. -/
inductive Node where
  | name (name : Identifier)
  | value (value : Expression)
  | type (type : FieldType)
  | marker (marker : Attribute)
  | field (field : Field)
  | option (option : ConfigOption)
  | block (block : Definition)

namespace Node

/-- Where a node stands. -/
def span : Node → Span
  | .name identifier => identifier.span
  | .value expression => expression.span
  | .type sort => sort.span
  | .marker mark => mark.span
  | .field line => line.span
  | .option line => line.span
  | .block definition => definition.span

/-- The nodes that a node is made from, in the order in which they are written. -/
def children : Node → List Node
  | .name _ => []
  | .value (.string ..) => []
  | .value (.boolean ..) => []
  | .value (.call callee arguments _) => .name callee :: arguments.map .value
  | .type sort => [.name sort.name]
  | .marker mark => mark.arguments.map .value
  | .field line => .name line.name :: .type line.type :: line.attributes.map .marker
  | .option line => [.name line.key, .value line.value]
  | .block (.model model) => .name model.name :: model.fields.map .field
  | .block (.config config) => .name config.name :: config.options.map .option

end Node

/-- The nodes of a tree: its blocks, and whatever a node of it is made from. -/
inductive Document.Has (document : Document) : Node → Prop where
  | block {block : Definition} (listed : block ∈ document.definitions) : Has document (.block block)
  | child {node child : Node} (has : Has document node) (part : child ∈ node.children) :
      Has document child

/-- A span that encloses others, which lie one behind the other. -/
structure Span.Nests (span : Span) (parts : List Span) : Prop where
  encloses : ∀ part ∈ parts, span.contains part = true
  ordered : parts.Pairwise fun first next => first.stop.offset ≤ next.start.offset

/-! ## Tokens in order -/

/-- Tokens that take some of a text each, every one behind those in front of it. -/
structure InOrder (tokens : List Token) : Prop where
  wide : ∀ token ∈ tokens, token.start.offset < token.stop.offset
  apart : tokens.Pairwise fun first next => first.stop.offset ≤ next.start.offset

namespace InOrder

variable {tokens own others : List Token} {first last token : Token}

theorem nil : InOrder [] := ⟨List.forall_mem_nil _, .nil⟩

theorem cons (wide : first.start.offset < first.stop.offset)
    (apart : ∀ token ∈ others, first.stop.offset ≤ token.start.offset) (ordered : InOrder others) :
    InOrder (first :: others) :=
  ⟨List.forall_mem_cons.2 ⟨wide, ordered.wide⟩, .cons apart ordered.apart⟩

theorem narrow (ordered : InOrder tokens) (inside : own <:+: tokens) : InOrder own :=
  ⟨fun token found => ordered.wide token (inside.subset found), ordered.apart.sublist inside.sublist⟩

/-- No token begins in front of the first one. -/
theorem first_le (ordered : InOrder tokens) (here : tokens.head? = some first)
    (found : token ∈ tokens) : first.start.offset ≤ token.start.offset := by
  obtain ⟨others, rfl⟩ := List.head?_eq_some_iff.1 here
  rcases List.mem_cons.1 found with rfl | later
  · exact Nat.le_refl _
  · have wide := ordered.wide first List.mem_cons_self
    have apart := (List.pairwise_cons.1 ordered.apart).1 token later
    omega

/-- No token ends behind the last one. -/
theorem le_last (ordered : InOrder tokens) (here : tokens.getLast? = some last)
    (found : token ∈ tokens) : token.stop.offset ≤ last.stop.offset := by
  obtain ⟨others, rfl⟩ := List.getLast?_eq_some_iff.1 here
  rcases List.mem_append.1 found with earlier | only
  · have wide := ordered.wide last (by simp)
    have apart := (List.pairwise_append.1 ordered.apart).2.2 token earlier last (by simp)
    omega
  · rw [List.mem_singleton.1 only]

end InOrder

/-- A token whose spelling stands in a text, between the ends of the token. -/
def Token.Stands (text : List Char) (token : Token) : Prop :=
  ∃ front back, text = front ++ token.text.toList ++ back ∧ token.start = .advance .start front ∧
    token.stop = .advance .start (front ++ token.text.toList)

theorem Token.Stands.stop_le {text : List Char} {token : Token} (stands : token.Stands text) :
    token.stop.offset ≤ (Position.start.advance text).offset := by
  obtain ⟨front, back, rfl, -, stop⟩ := stands
  rw [stop, Position.offset_advance_start, Position.offset_advance_start,
    Position.byteLength_append (front ++ token.text.toList)]
  exact Nat.le_add_right ..

namespace Scanner

/-- A scanner that reads a token behind the blanks in front of it, and what it is then. -/
structure Takes (scanner : Scanner) (token : Token) (after : Scanner) : Prop where
  lexeme : lexeme? scanner.skipBlanks.rest = some (token.kind, token.text.toList)
  rest : scanner.skipBlanks.rest = token.text.toList ++ after.rest
  start : token.start = scanner.skipBlanks.position
  stop : token.stop = token.start.advance token.text.toList
  moved : after.position = token.stop

theorem takes_of_next {scanner after : Scanner} {token : Token}
    (read : scanner.next = .ok (token, after)) (proper : token.kind ≠ .endOfInput) :
    scanner.Takes token after := by
  rcases scanner.next_cases with ⟨-, next⟩ | ⟨_, _, -, -, next⟩ | ⟨kind, spelling, found, next⟩
  · cases read.symm.trans next
    exact absurd rfl proper
  · cases read.symm.trans next
  · cases read.symm.trans next
    obtain ⟨back, rest⟩ := lexeme?_isPrefix found
    constructor
    all_goals simp only [String.toList_ofList]
    · exact found
    · rw [← rest, List.drop_left]

namespace Takes

variable {scanner after : Scanner} {token : Token} (takes : scanner.Takes token after)
include takes

/-- Every token takes at least one byte. -/
theorem wide : token.start.offset < token.stop.offset := by
  have progress := Position.byteLength_pos (lexeme?_ne_nil takes.lexeme)
  rw [takes.stop, Position.offset_advance]
  omega

theorem behind : scanner.position.offset ≤ token.start.offset := by
  rw [takes.start, skipBlanks, Position.offset_advance]
  exact Nat.le_add_right ..

theorem stands {text : List Char} (here : scanner.At text) :
    after.At text ∧ token.Stands text := by
  obtain ⟨front, whole, place⟩ := here.skipBlanks
  have stop : token.stop = .advance .start (front ++ token.text.toList) := by
    rw [takes.stop, takes.start, place, Position.advance_append]
  rw [takes.rest, ← List.append_assoc] at whole
  exact ⟨⟨_, whole, takes.moved.trans stop⟩, front, after.rest, whole, takes.start.trans place, stop⟩

end Takes

variable {text : List Char} {scanner : Scanner}

/-- The end of a text is the place behind all of it. -/
theorem At.ends (stands : scanner.At text) {token : Token} {after : Scanner}
    (read : scanner.next = .ok (token, after)) (ended : token.kind = .endOfInput) :
    token.start = .advance .start text := by
  rcases scanner.next_cases with ⟨blank, next⟩ | ⟨_, _, -, -, next⟩ | ⟨kind, spelling, found, next⟩
  · cases read.symm.trans next
    obtain ⟨front, whole, place⟩ := stands.skipBlanks
    rw [whole, blank, List.append_nil]
    exact place
  · cases read.symm.trans next
  · cases read.symm.trans next
    exact absurd ended (lexeme?_kind found)

/-- All tokens of a text that is scanned to its end stand in it, one behind the other. -/
theorem At.gives (stands : scanner.At text) {tokens : List Token} {place : Position}
    (gives : (Feed.ofScanner scanner).Gives tokens (.finish place)) :
    InOrder tokens ∧ (∀ token ∈ tokens, token.Stands text ∧
      scanner.position.offset ≤ token.start.offset) ∧ place = .advance .start text := by
  fun_induction Feed.ofScanner scanner generalizing tokens with
  | case1 scanner failure read => cases gives
  | case2 scanner token after read ended =>
    cases gives
    exact ⟨.nil, List.forall_mem_nil _, stands.ends read ended⟩
  | case3 scanner token after read proper ih =>
    cases gives with
    | token further =>
      have takes := takes_of_next read proper
      obtain ⟨behind, here⟩ := takes.stands stands
      obtain ⟨ordered, inside, ended⟩ := ih behind further
      rw [takes.moved] at inside
      refine ⟨.cons takes.wide (fun other found => (inside other found).2) ordered, ?_, ended⟩
      refine List.forall_mem_cons.2 ⟨⟨here, takes.behind⟩, fun other found => ?_⟩
      obtain ⟨there, apart⟩ := inside other found
      have start := takes.behind
      have wide := takes.wide
      exact ⟨there, by omega⟩

end Scanner

/-! ## Nodes over tokens -/

/-- A node that is laid out over these tokens. -/
def Node.LaidOver (tokens : List Token) : Node → Prop
  | .name identifier => Extent.Name tokens identifier
  | .value expression => Extent.Value tokens expression
  | .type sort => Extent.Typed tokens sort
  | .marker mark => Extent.Marker tokens mark
  | .field line => Extent.Line tokens line
  | .option line => Extent.Setting tokens line
  | .block definition => Extent.Block tokens definition

/-- Nodes that are laid out one behind the other, each over tokens of its own. -/
inductive Laid : List Token → List Node → Prop where
  | nil : Laid [] []
  | skip (token : Token) {tokens : List Token} {nodes : List Node} (others : Laid tokens nodes) :
      Laid (token :: tokens) nodes
  | node {own tokens : List Token} {node : Node} {nodes : List Node} (first : node.LaidOver own)
      (others : Laid tokens nodes) : Laid (own ++ tokens) (node :: nodes)

namespace Laid

variable {tokens others : List Token} {nodes more : List Node} {node : Node}

theorem none (tokens : List Token) : Laid tokens [] := by
  induction tokens with
  | nil => exact .nil
  | cons token tokens ih => exact .skip token ih

theorem single (laid : node.LaidOver tokens) : Laid tokens [node] := by
  rw [← List.append_nil tokens]
  exact .node laid .nil

theorem append (first : Laid tokens nodes) (second : Laid others more) :
    Laid (tokens ++ others) (nodes ++ more) := by
  induction first with
  | nil => exact second
  | skip token _ ih => exact .skip token ih
  | node first _ ih =>
    rw [List.append_assoc]
    exact .node first ih

theorem behind (laid : Laid tokens nodes) (others : List Token) : Laid (tokens ++ others) nodes := by
  have both := laid.append (none others)
  rwa [List.append_nil] at both

/-- Each of the nodes has some tokens in a row. -/
theorem exists_own (laid : Laid tokens nodes) (found : node ∈ nodes) :
    ∃ own, own <:+: tokens ∧ node.LaidOver own := by
  induction laid with
  | nil => cases found
  | skip token _ ih =>
    obtain ⟨own, inside, lies⟩ := ih found
    exact ⟨own, inside.trans (List.suffix_cons _ _).isInfix, lies⟩
  | @node own tokens _ _ first _ ih =>
    rcases List.mem_cons.1 found with rfl | later
    · exact ⟨own, (List.prefix_append own tokens).isInfix, first⟩
    · obtain ⟨inner, inside, lies⟩ := ih later
      exact ⟨inner, inside.trans (List.suffix_append own tokens).isInfix, lies⟩

end Laid

/-- A row of parts is a row of nodes, if each part is a node. -/
theorem Row.laid {α : Type} {part : List Token → α → Prop} {tokens : List Token} {values : List α}
    (row : Row part tokens values) (node : α → Node)
    (each : ∀ own value, part own value → (node value).LaidOver own) :
    Laid tokens (values.map node) := by
  induction row with
  | nil => exact .nil
  | cons first _ ih => exact .node (each _ _ first) ih

namespace Extent

variable {tokens : List Token}

theorem Further.laid {values : List Expression} (listed : Further tokens values) :
    Laid tokens (values.map .value) := by
  induction values generalizing tokens with
  | nil =>
    cases listed
    exact .nil
  | cons value values ih =>
    cases listed with
    | cons _ first rest => exact .skip _ (.node first (ih rest))

theorem Arguments.laid {values : List Expression} {close : Token}
    (listed : Arguments tokens values close) : Laid tokens (values.map .value) := by
  cases listed with
  | none => exact .none _
  | some _ first rest =>
    apply Laid.behind
    exact .skip _ (.node first rest.laid)

/-- Whatever a node is made from is laid out over the tokens of the node. -/
theorem laid_children {node : Node} (lies : node.LaidOver tokens) : Laid tokens node.children := by
  cases node with
  | name name => exact .none tokens
  | value value =>
    cases lies with
    | call named listed => exact .node named listed.laid
    | string => exact .none _
    | boolean => exact .none _
  | type type =>
    cases lies with
    | plain named => exact .single named
    | signed named =>
      apply Laid.behind
      exact .single named
  | marker mark =>
    cases lies with
    | plain => exact .none _
    | applied _ listed => exact .skip _ listed.laid
  | field line =>
    cases lies with
    | mk named sort listed => exact .node named (.node sort (listed.laid .marker fun _ _ => id))
  | option line =>
    cases lies with
    | mk named _ given => exact .node named (.skip _ (.single given))
  | block block =>
    cases lies with
    | model _ named _ lines =>
      exact .skip _ (.node named (.skip _ (.behind (lines.laid .field fun _ _ => id) _)))
    | config _ named _ settings =>
      exact .skip _ (.node named (.skip _ (.behind (settings.laid .option fun _ _ => id) _)))

end Extent

/-! ## Spans over tokens -/

/-- A span that runs from the first to the last of some tokens. -/
structure Span.Over (tokens : List Token) (span : Span) : Prop where
  begins : tokens.head?.map Token.start = some span.start
  ends : tokens.getLast?.map Token.stop = some span.stop

namespace Extent

variable {own tokens others : List Token} {place : Position}

private theorem begins_append (begins : own.head?.map Token.start = some place)
    (others : List Token) : (own ++ others).head?.map Token.start = some place := by
  rw [List.head?_append, Option.map_or, begins, Option.some_or]

private theorem ends_append (own : List Token)
    (ends : others.getLast?.map Token.stop = some place) :
    (own ++ others).getLast?.map Token.stop = some place := by
  rw [List.getLast?_append, Option.map_or, ends, Option.some_or]

/-- A row ends where its last part does. -/
private theorem row_ends {α : Type} {part : List Token → α → Prop} {spanOf : α → Span}
    {values : List α} {last : α} (row : Row part tokens values)
    (lies : ∀ own value, part own value → (spanOf value).Over own)
    (here : values.getLast? = some last) :
    tokens.getLast?.map Token.stop = some (spanOf last).stop := by
  induction row with
  | nil => cases here
  | @cons own others value values first rest ih =>
    cases values with
    | nil =>
      cases here
      cases rest
      rw [List.append_nil]
      exact (lies _ _ first).ends
    | cons next values =>
      rw [List.getLast?_cons_cons] at here
      exact ends_append own (ih here)

theorem Name.over {name : Identifier} (named : Name tokens name) : name.span.Over tokens := by
  cases named
  exact ⟨rfl, rfl⟩

theorem Arguments.ends {values : List Expression} {close : Token}
    (listed : Arguments tokens values close) :
    tokens.getLast?.map Token.stop = Option.some close.stop := by
  cases listed with
  | none => rfl
  | some => exact ends_append _ rfl

theorem Value.over {value : Expression} (given : Value tokens value) :
    value.span.Over tokens := by
  cases given with
  | call named listed =>
    exact ⟨begins_append named.over.begins _, ends_append _ listed.ends⟩
  | string => exact ⟨rfl, rfl⟩
  | boolean => exact ⟨rfl, rfl⟩

theorem Typed.over {type : FieldType} (sort : Typed tokens type) : type.span.Over tokens := by
  cases sort with
  | plain named => exact named.over
  | signed named => exact ⟨begins_append named.over.begins _, ends_append _ rfl⟩

theorem Marker.over {mark : Attribute} (marked : Marker tokens mark) : mark.span.Over tokens := by
  cases marked with
  | plain => exact ⟨rfl, rfl⟩
  | applied _ listed => exact ⟨rfl, ends_append [_] listed.ends⟩

theorem Line.over {line : Field} (lined : Line tokens line) : line.span.Over tokens := by
  obtain @⟨own, typed, marked, name, type, markers, named, sort, listed⟩ := lined
  refine ⟨begins_append named.over.begins _, ends_append own ?_⟩
  cases here : markers.getLast? with
  | none =>
    cases List.getLast?_eq_none_iff.1 here
    cases listed
    rw [List.append_nil]
    exact sort.over.ends
  | some last =>
    have ended : marked.getLast?.map Token.stop = some last.span.stop :=
      row_ends listed (fun _ _ => Marker.over) here
    simpa [Schema.fieldOf, here] using ends_append typed ended

theorem Setting.over {line : ConfigOption} (set : Setting tokens line) : line.span.Over tokens := by
  obtain ⟨named, _, given⟩ := set
  exact ⟨begins_append named.over.begins _, ends_append _ (ends_append [_] given.over.ends)⟩

theorem Block.over {block : Definition} (blocked : Block tokens block) :
    block.span.Over tokens := by
  cases blocked with
  | model =>
    exact ⟨rfl, ends_append [_] (ends_append _ (ends_append [_] (ends_append _ rfl)))⟩
  | config =>
    exact ⟨rfl, ends_append [_] (ends_append _ (ends_append [_] (ends_append _ rfl)))⟩

/-- A node stands over the tokens it is laid out over. -/
theorem over_of_laidOver {node : Node} (lies : node.LaidOver tokens) :
    node.span.Over tokens := by
  cases node with
  | name => exact Name.over lies
  | value => exact Value.over lies
  | type => exact Typed.over lies
  | marker => exact Marker.over lies
  | field => exact Line.over lies
  | option => exact Setting.over lies
  | block => exact Block.over lies

end Extent

/-! ## Nesting -/

namespace Span.Over

variable {tokens own : List Token} {span part : Span}

theorem first_mem (lies : span.Over tokens) :
    ∃ first, tokens.head? = some first ∧ first ∈ tokens ∧ first.start = span.start := by
  obtain ⟨first, here, start⟩ := Option.map_eq_some_iff.1 lies.begins
  exact ⟨first, here, List.mem_of_head? here, start⟩

theorem last_mem (lies : span.Over tokens) :
    ∃ last, tokens.getLast? = some last ∧ last ∈ tokens ∧ last.stop = span.stop := by
  obtain ⟨last, here, stop⟩ := Option.map_eq_some_iff.1 lies.ends
  exact ⟨last, here, List.mem_of_getLast? here, stop⟩

/-- A span over tokens in order is not empty. -/
theorem isEmpty (lies : span.Over tokens) (ordered : InOrder tokens) : span.isEmpty = false := by
  obtain ⟨first, here, found, start⟩ := lies.first_mem
  obtain ⟨last, -, last_mem, stop⟩ := lies.last_mem
  have begins := ordered.first_le here last_mem
  have wide := ordered.wide last last_mem
  rw [start] at begins
  rw [stop] at wide
  simp only [Span.isEmpty, Span.length, beq_eq_false_iff_ne]
  omega

/-- A span over some of the tokens in a row lies inside the span over all of them. -/
theorem contains (lies : span.Over tokens) (inner : part.Over own) (inside : own <:+: tokens)
    (ordered : InOrder tokens) : span.contains part = true := by
  obtain ⟨first, here, -, start⟩ := lies.first_mem
  obtain ⟨last, there, -, stop⟩ := lies.last_mem
  obtain ⟨front, -, found, start'⟩ := inner.first_mem
  obtain ⟨back, -, found', stop'⟩ := inner.last_mem
  have begins := ordered.first_le here (inside.subset found)
  have ends := ordered.le_last there (inside.subset found')
  rw [start, start'] at begins
  rw [stop, stop'] at ends
  simp [Span.contains, begins, ends]

end Span.Over

/-- Nodes that are laid out one behind the other stand one behind the other. -/
theorem Laid.pairwise {tokens : List Token} {nodes : List Node} (laid : Laid tokens nodes)
    (ordered : InOrder tokens) :
    (nodes.map Node.span).Pairwise fun first next => first.stop.offset ≤ next.start.offset := by
  induction laid with
  | nil => exact .nil
  | skip token _ ih => exact ih (ordered.narrow (List.suffix_cons _ _).isInfix)
  | @node own tokens node nodes first others ih =>
    refine .cons ?_ (ih (ordered.narrow (List.suffix_append own tokens).isInfix))
    rintro _ listed
    obtain ⟨later, found, rfl⟩ := List.mem_map.1 listed
    obtain ⟨inner, inside, lies⟩ := others.exists_own found
    obtain ⟨last, -, here, stop⟩ := (Extent.over_of_laidOver first).last_mem
    obtain ⟨front, -, there, start⟩ := (Extent.over_of_laidOver lies).first_mem
    rw [← stop, ← start]
    exact (List.pairwise_append.1 ordered.apart).2.2 last here front (inside.subset there)

/-- A node over tokens in order is not empty, and its children are nested in it. -/
theorem Node.LaidOver.nests {tokens : List Token} {node : Node} (lies : node.LaidOver tokens)
    (ordered : InOrder tokens) :
    node.span.isEmpty = false ∧ node.span.Nests (node.children.map Node.span) := by
  have laid := Extent.laid_children lies
  have whole := Extent.over_of_laidOver lies
  refine ⟨whole.isEmpty ordered, ?_, laid.pairwise ordered⟩
  rintro _ listed
  obtain ⟨child, found, rfl⟩ := List.mem_map.1 listed
  obtain ⟨own, inside, inner⟩ := laid.exists_own found
  exact whole.contains (Extent.over_of_laidOver inner) inside ordered

/-- The blocks of a row lie between the start of the first of them and any place that no
token goes beyond. -/
theorem Extent.contains_block {tokens : List Token} {first block : Definition}
    {others : List Definition} {place : Position}
    (blocks : Row Extent.Block tokens (first :: others)) (ordered : InOrder tokens)
    (bounded : ∀ token ∈ tokens, token.stop.offset ≤ place.offset)
    (found : block ∈ first :: others) :
    Span.contains ⟨first.span.start, place⟩ block.span = true := by
  have laid := blocks.laid .block fun _ _ => id
  obtain ⟨own, inside, lies⟩ := laid.exists_own (List.mem_map_of_mem found)
  obtain ⟨front, -, here, start⟩ := (Extent.over_of_laidOver lies).first_mem
  obtain ⟨back, -, there, stop⟩ := (Extent.over_of_laidOver lies).last_mem
  cases blocks with
  | cons opening rest =>
    obtain ⟨head, leads, start'⟩ :=
      Option.map_eq_some_iff.1 (begins_append (Block.over opening).begins _)
    have begins := ordered.first_le leads (inside.subset here)
    have ends := bounded back (inside.subset there)
    rw [start', start] at begins
    rw [stop] at ends
    exact Bool.and_eq_true_iff.2 ⟨decide_eq_true begins, decide_eq_true ends⟩

namespace Document

/-- Every node of a tree is laid out over some tokens in a row, if its blocks are. -/
theorem Has.exists_own {document : Document} {tokens : List Token} {node : Node}
    (has : document.Has node) (blocks : Row Extent.Block tokens document.definitions) :
    ∃ own, own <:+: tokens ∧ node.LaidOver own := by
  induction has with
  | block listed =>
    exact (blocks.laid .block fun _ _ => id).exists_own (List.mem_map_of_mem listed)
  | child _ part ih =>
    obtain ⟨own, inside, lies⟩ := ih
    obtain ⟨inner, within, laid⟩ := (Extent.laid_children lies).exists_own part
    exact ⟨inner, within.trans inside, laid⟩

/-- In the tree of a text no node is empty, and every node, the root included, encloses its
children, which lie one behind the other. The root runs from its first block to the end of
the text. -/
theorem nested_of_parse {source : String} {document : Document}
    (parsed : parse source = .ok document) :
    (∀ node, document.Has node →
      node.span.isEmpty = false ∧ node.span.Nests (node.children.map Node.span)) ∧
    document.span.Nests (document.definitions.map Definition.span) ∧
    ∀ first ∈ document.definitions.head?,
      document.span = ⟨first.span.start, .advance .start source.toList⟩ := by
  obtain ⟨tokens, place, gives, blocks, tree⟩ := extent_of_parse parsed
  obtain ⟨ordered, stands, rfl⟩ := (Scanner.at_ofText source.toList).gives gives
  have root : ∀ first ∈ document.definitions.head?,
      document.span = ⟨first.span.start, .advance .start source.toList⟩ := by
    intro first here
    obtain ⟨others, listed⟩ := List.head?_eq_some_iff.1 here
    rw [tree, listed]
    rfl
  refine ⟨fun node has => ?_, ⟨?_, ?_⟩, root⟩
  · obtain ⟨own, inside, lies⟩ := has.exists_own blocks
    exact lies.nests (ordered.narrow inside)
  · rintro _ listed
    obtain ⟨block, found, rfl⟩ := List.mem_map.1 listed
    cases split : document.definitions with
    | nil =>
      rw [split] at found
      cases found
    | cons first others =>
      rw [split] at found blocks
      rw [root first (by rw [split]; rfl)]
      exact Extent.contains_block blocks ordered (fun token here => (stands token here).1.stop_le)
        found
  · have apart := (blocks.laid .block fun _ _ => id).pairwise ordered
    rwa [List.map_map] at apart

theorem nested_of_parse_calls :
    ∃ document, parse "model A\x7bb C?@d(e(\"é\"),true)\x7d " = .ok document ∧
      (∀ node, document.Has node →
        node.span.isEmpty = false ∧ node.span.Nests (node.children.map Node.span)) ∧
      document.span.Nests (document.definitions.map Definition.span) ∧
      ∀ first ∈ document.definitions.head?, document.span =
        ⟨first.span.start, .advance .start "model A\x7bb C?@d(e(\"é\"),true)\x7d ".toList⟩ := by
  have accepted : (parse "model A\x7bb C?@d(e(\"é\"),true)\x7d ").toBool = true := by
    decide +kernel
  cases parsed : parse "model A\x7bb C?@d(e(\"é\"),true)\x7d " with
  | error error => rw [parsed] at accepted; cases accepted
  | ok document => exact ⟨document, rfl, nested_of_parse parsed⟩

end Document
end SchemaLang
