import SchemaLang.Proofs.Nesting
import SchemaLang.Proofs.RoundTrip

/-! What stands in a text under a node. The two ends of a node are places that a reader of
the text comes through, and what lies between them is a name, a literal or a marker as the
tree has it; the part under a block is a text of its own, with that block as its tree. A
part is scanned as it is in its text, since no lexeme depends on what is cut off behind it
but for its own end. -/
namespace SchemaLang

/-! ## Lexemes that are cut off -/

/-- A dotted name goes no further if less stands behind it. -/
private theorem dottedTail_of_append {name front back : List Char}
    (ended : dottedTail (name ++ (front ++ back)) = name) : dottedTail (name ++ front) = name := by
  induction name with
  | nil =>
    cases front with
    | nil => rfl
    | cons char front =>
      simp only [List.nil_append, List.cons_append, dottedTail] at ended ⊢
      by_cases part : isNamePart char = true
      · simp [part] at ended
      · cases front with
        | nil => simp [part]
        | cons next front => simpa [part] using ended
  | cons char name ih =>
    simp only [List.cons_append, dottedTail] at ended ⊢
    by_cases part : isNamePart char = true
    · simp only [part, if_true, List.cons.injEq, true_and] at ended ⊢
      exact ih ended
    · rw [if_neg part] at ended ⊢
      split at ended
      · rename_i ahead
        obtain ⟨dot, start⟩ := Bool.and_eq_true_iff.1 ahead
        have others := (List.cons.inj ended).2
        cases name with
        | nil =>
          -- The name would not end at a dot that a letter follows.
          cases further : front ++ back with
          | nil => simp [further] at start
          | cons next rest =>
            have letter : isNameStart next = true := by simpa [further] using start
            rw [List.nil_append, further, dottedTail, if_pos (isNamePart_of_start letter)] at others
            cases others
        | cons next name =>
          have letter : (next :: name ++ front).head?.any isNameStart = true := start
          rw [ih others, if_pos (Bool.and_eq_true_iff.2 ⟨dot, letter⟩)]
      · cases ended

/-- A plain name goes no further if less stands behind it. -/
private theorem takeWhile_of_append {name front back : List Char}
    (ended : (name ++ (front ++ back)).takeWhile isNamePart = name) :
    (name ++ front).takeWhile isNamePart = name := by
  induction name with
  | nil =>
    cases front with
    | nil => rfl
    | cons char front => simpa [List.takeWhile_cons] using ended
  | cons char name ih =>
    simp only [List.cons_append, List.takeWhile_cons] at ended ⊢
    split at ended
    · rename_i part
      rw [if_pos part, ih (List.cons.inj ended).2]
    · cases ended

/-- A lexeme stays what it is if less stands behind it. -/
theorem lexeme?_of_append {kind : TokenKind} {spelling front back : List Char}
    (found : lexeme? (spelling ++ (front ++ back)) = some (kind, spelling)) :
    lexeme? (spelling ++ front) = some (kind, spelling) := by
  have spelled := spelled_lexeme .start .start found
  obtain ⟨char, others, rfl⟩ := List.exists_cons_of_ne_nil (lexeme?_ne_nil found)
  rw [List.cons_append] at found ⊢
  unfold lexeme? at found
  split at found
  · cases found
  · rename_i first rest same
    split at found <;> cases found
    rename_i start
    have ended : dottedTail rest ++ (front ++ back) = rest := (List.cons.inj (List.cons.inj same).2).2
    rw [List.cons_append, lexeme?, if_pos start, dottedTail_of_append (congrArg dottedTail ended)]
  · cases found
    rfl
  · obtain ⟨tail, -, same⟩ := Option.map_eq_some_iff.1 found
    cases same
    have quoted : QuotedText (String.ofList ('"' :: others)).toList := spelled
    rw [String.toList_ofList] at quoted
    exact lexeme?_quoted quoted
  · rename_i first rest marker bracket quote same
    split at found
    · rename_i start
      cases found
      have ended : rest.takeWhile isNamePart ++ (front ++ back) = rest := (List.cons.inj same).2
      rw [lexeme?_cons (by rintro rfl; cases start) (by rintro rfl; cases start)
        (by rintro rfl; cases start), if_pos start,
        takeWhile_of_append (congrArg (List.takeWhile isNamePart) ended)]
    · obtain ⟨kind, known, same⟩ := Option.map_eq_some_iff.1 found
      cases same
      exact lexeme?_punctuation known front

/-! ## Parts of a text -/

theorem Yields.blanks {blanks text : List Char} {terminals : List Terminal}
    (yields : Yields text terminals) (blank : ∀ char ∈ blanks, isBlank char = true) :
    Yields (blanks ++ text) terminals := by
  induction blanks with
  | nil => exact yields
  | cons char blanks ih =>
    obtain ⟨here, others⟩ := List.forall_mem_cons.1 blank
    exact (ih others).blank char here

/-- Whatever is scanned can be written. -/
theorem Yields.spelled {text : List Char} {terminals : List Terminal}
    (yields : Yields text terminals) : ∀ terminal ∈ terminals, terminal.Spelled := by
  obtain ⟨-, same⟩ := yields .start
  rw [← same]
  exact List.forall_mem_map.2 (spelled_stream _)

/-- The part of a text that some tokens make up, from the first of them to the last. It
holds those tokens when it stands alone. -/
structure Excerpt (tokens : List Token) (part : List Char) : Prop where
  begins : ∀ first ∈ tokens.head?, first.text.toList <+: part
  single : ∀ token, tokens = [token] → part = token.text.toList
  yields : Yields part (tokens.map Token.terminal ++ [.endOfInput])

/-- The terminal of a token does not depend on where the token stands. -/
theorem Token.terminal_moved (token : Token) (start stop : Position) :
    Token.terminal ⟨token.kind, .ofList token.text.toList, start, stop⟩ = token.terminal := by
  rw [String.ofList_toList]
  rfl

namespace Scanner

variable {scanner after : Scanner} {token : Token}

/-- A token alone is read from its spelling. -/
theorem Takes.excerpt (takes : scanner.Takes token after) :
    Excerpt [token] token.text.toList := by
  have found : lexeme? (token.text.toList ++ ([] ++ after.rest)) = _ := takes.rest ▸ takes.lexeme
  have yields := yields_nil.lexeme (lexeme?_of_append found) token.terminal_moved
  rw [List.append_nil] at yields
  refine ⟨?_, ?_, yields⟩
  · rintro _ ⟨⟩
    exact List.prefix_rfl
  · rintro _ ⟨⟩
    rfl

/-- A token in front of others is read in front of them, with the blanks between them. -/
theorem Takes.excerpt_cons (takes : scanner.Takes token after) {tokens : List Token}
    {part back : List Char} (excerpt : Excerpt tokens part) (nonempty : tokens ≠ [])
    (rest : after.skipBlanks.rest = part ++ back) :
    Excerpt (token :: tokens) (token.text.toList ++ (after.rest.takeWhile isBlank ++ part)) := by
  have blank : ∀ char ∈ after.rest.takeWhile isBlank, isBlank char = true :=
    fun _ found => List.mem_takeWhile_imp found
  have split : after.rest = (after.rest.takeWhile isBlank ++ part) ++ back := by
    rw [List.append_assoc, ← rest]
    exact List.takeWhile_append_dropWhile.symm
  have found := takes.lexeme
  rw [takes.rest, split] at found
  refine ⟨?_, ?_, (excerpt.yields.blanks blank).lexeme (lexeme?_of_append found) token.terminal_moved⟩
  · rintro _ ⟨⟩
    exact List.prefix_append ..
  · rintro _ ⟨⟩
    exact absurd rfl nonempty

end Scanner

namespace Feed

open Scanner

/-- The first token of a feed is read by its scanner, and the others by the next one. -/
theorem Gives.takes {scanner : Scanner} {first : Token} {others : List Token} {feed : Feed}
    (gives : (ofScanner scanner).Gives (first :: others) feed) :
    ∃ after, scanner.Takes first after ∧ (ofScanner after).Gives others feed := by
  cases read : scanner.next with
  | error failure =>
    rw [ofScanner_error read] at gives
    cases gives
  | ok result =>
    obtain ⟨token, after⟩ := result
    rw [ofScanner_ok read] at gives
    by_cases ended : token.kind = .endOfInput
    · rw [dif_pos ended] at gives
      cases gives
    · rw [dif_neg ended] at gives
      cases gives with
      | token further => exact ⟨after, takes_of_next read ended, further⟩

theorem Gives.nil {feed final : Feed} (gives : feed.Gives [] final) : final = feed := by
  cases gives
  rfl

/-- Behind the tokens that a text begins with the text goes on. -/
theorem Gives.scanner {text : List Char} {tokens : List Token} {scanner : Scanner} {feed : Feed}
    (gives : (ofScanner scanner).Gives tokens feed) (stands : scanner.At text) :
    ∃ after : Scanner, after.At text ∧ feed = ofScanner after := by
  induction tokens generalizing scanner with
  | nil => exact ⟨scanner, stands, gives.nil⟩
  | cons first others ih =>
    obtain ⟨after, takes, further⟩ := gives.takes
    exact ih further (takes.stands stands).1

/-- The tokens that a scanner reads first make up the part of the text from the blanks in
front of them to the end of the last one. -/
theorem Gives.excerpt {tokens : List Token} {scanner : Scanner} {feed : Feed}
    (gives : (ofScanner scanner).Gives tokens feed) (nonempty : tokens ≠ []) :
    ∃ part back, Excerpt tokens part ∧ scanner.skipBlanks.rest = part ++ back ∧
      tokens.head?.map Token.start = some scanner.skipBlanks.position ∧
      tokens.getLast?.map Token.stop = some (scanner.skipBlanks.position.advance part) := by
  induction tokens generalizing scanner with
  | nil => exact absurd rfl nonempty
  | cons first others ih =>
    obtain ⟨after, takes, further⟩ := gives.takes
    have begins := congrArg some takes.start
    cases others with
    | nil =>
      refine ⟨_, after.rest, takes.excerpt, takes.rest, begins, ?_⟩
      rw [← takes.start, ← takes.stop]
      rfl
    | cons next others =>
      obtain ⟨part, back, excerpt, rest, -, ends⟩ := ih further (List.cons_ne_nil _ _)
      refine ⟨_, back, takes.excerpt_cons excerpt (List.cons_ne_nil _ _) rest, ?_, begins, ?_⟩
      · rw [takes.rest, List.append_assoc, List.append_assoc, ← rest]
        exact congrArg _ List.takeWhile_append_dropWhile.symm
      · rw [List.getLast?_cons_cons, ends, Position.advance_append, Position.advance_append,
          ← takes.start, ← takes.stop, ← takes.moved]
        rfl

end Feed

/-! ## Phrases -/

namespace Extent

theorem Name.terminals {own : List Token} {name : Identifier} (named : Name own name) :
    own.map Token.terminal = [.identifier name.name] := by
  obtain ⟨named⟩ := named
  rw [List.map_singleton, named]

mutual

/-- The extent of a value is a phrase for it, whatever stands behind. -/
theorem Value.phrase {own : List Token} {value : Expression} :
    Value own value → ∀ after, Phrase.Value (own.map Token.terminal ++ after)
      (value.mapSpans unplaced) after
  | .call named listed, after => by
    rw [List.map_append, named.terminals, List.append_assoc]
    exact .call (Arguments.phrase listed after)
  | .string quoted, after => by
    rw [List.map_singleton, quoted]
    exact .string
  | .boolean truth named, after => by
    rw [List.map_singleton, named]
    cases truth
    · exact .no
    · exact .yes

/-- The extent of an argument list is a phrase for it. -/
theorem Arguments.phrase {own : List Token} {values : List Expression} {close : Token} :
    Arguments own values close → ∀ after, Phrase.Arguments (own.map Token.terminal ++ after)
      (Expression.mapSpansList unplaced values) after
  | .none opens closes, after => by
    rw [List.map_cons, List.map_singleton, opens, closes]
    exact .none
  | .some opens first rest closes, after => by
    have listed := Further.phrase rest (Value.phrase first) (.rightParen :: after)
    simp only [List.map_cons, List.map_append, List.map_nil, opens, closes, List.cons_append,
      List.append_assoc, List.nil_append]
    exact .some listed

/-- Values behind a first one are a list with it. -/
theorem Further.phrase {others : List Token} {values : List Expression} :
    Further others values → ∀ {before : List Terminal} {value : Expression},
      (∀ after, Phrase.Value (before ++ after) value after) → ∀ after,
        Phrase.Values (before ++ (others.map Token.terminal ++ after))
          (value :: Expression.mapSpansList unplaced values) after
  | .nil, _, _, front, after => .one (front after)
  | .cons apart first rest, _, _, front, after => by
    have listed := Further.phrase rest (Value.phrase first) after
    simp only [List.map_cons, List.map_append, apart, List.cons_append, List.append_assoc]
    exact .more (front _) listed

end

/-- Parts in a row are phrases in a row. -/
private theorem many_of_row {α : Type} {part : List Token → α → Prop}
    {phrase : List Terminal → α → List Terminal → Prop} {change : α → α} {tokens : List Token}
    {values : List α} (row : Row part tokens values)
    (each : ∀ own value, part own value →
      ∀ after, phrase (own.map Token.terminal ++ after) (change value) after)
    (after : List Terminal) :
    Phrase.Many phrase (tokens.map Token.terminal ++ after) (values.map change) after := by
  induction row with
  | nil => exact .none
  | cons first _ ih =>
    rw [List.map_append, List.append_assoc]
    exact .more (each _ _ first _) ih

theorem Typed.phrase {own : List Token} {type : FieldType} (sort : Typed own type)
    (after : List Terminal) :
    Phrase.Typed (own.map Token.terminal ++ after) (type.mapSpans unplaced) after := by
  cases sort with
  | plain named =>
    rw [named.terminals]
    exact .mk .none
  | signed named signs =>
    rw [List.map_append, named.terminals, List.map_singleton]
    rcases signs with question | brackets
    · have kind := Token.kind_of_terminal question
      simp only [Schema.fieldTypeOf, question, kind, Terminal.kind, if_true]
      exact .mk .optional
    · have kind := Token.kind_of_terminal brackets
      simp only [Schema.fieldTypeOf, brackets, kind, Terminal.kind, reduceCtorEq, if_false]
      exact .mk .array

theorem Marker.phrase {own : List Token} {mark : Attribute} (marked : Marker own mark)
    (after : List Terminal) :
    Phrase.Marker (own.map Token.terminal ++ after) (mark.mapSpans unplaced) after := by
  cases marked with
  | plain named =>
    rw [List.map_singleton, named]
    exact .plain
  | applied named listed =>
    rw [List.map_cons, named]
    exact .applied (listed.phrase after)

theorem Line.phrase {own : List Token} {line : Field} (lined : Line own line)
    (after : List Terminal) :
    Phrase.Line (own.map Token.terminal ++ after) (line.mapSpans unplaced) after := by
  obtain ⟨named, sort, listed⟩ := lined
  rw [List.map_append, named.terminals, List.map_append, List.append_assoc, List.append_assoc]
  exact .mk (sort.phrase _) (many_of_row listed (fun _ _ marked => marked.phrase) after)

theorem Setting.phrase {own : List Token} {line : ConfigOption} (set : Setting own line)
    (after : List Terminal) :
    Phrase.Setting (own.map Token.terminal ++ after) (line.mapSpans unplaced) after := by
  obtain ⟨named, equal, given⟩ := set
  rw [List.map_append, named.terminals, List.map_cons, equal]
  exact .mk (given.phrase after)

/-- The extent of a block is a phrase for it. -/
theorem Block.phrase {own : List Token} {block : Definition} (blocked : Block own block)
    (after : List Terminal) :
    Phrase.Block (own.map Token.terminal ++ after) (block.mapSpans unplaced) after := by
  cases blocked with
  | model worded named opens lines closes =>
    have listed := many_of_row lines (fun _ _ lined => lined.phrase) (.rightBrace :: after)
    simp only [List.map_cons, List.map_append, List.map_nil, worded, named.terminals, opens, closes,
      List.cons_append, List.append_assoc, List.nil_append]
    exact .model listed
  | config worded named opens settings closes =>
    have listed := many_of_row settings (fun _ _ set => set.phrase) (.rightBrace :: after)
    simp only [List.map_cons, List.map_append, List.map_nil, worded, named.terminals, opens, closes,
      List.cons_append, List.append_assoc, List.nil_append]
    exact .config listed

end Extent

/-! ## Quotations -/

/-- A place in a text: behind some of its beginning, as many bytes as its offset says. -/
def Position.InText (text : List Char) (place : Position) : Prop :=
  ∃ front, front <+: text ∧ Position.byteLength front = place.offset ∧
    place = .advance .start front

/-- A span with both ends in a text. -/
def Span.InText (text : List Char) (span : Span) : Prop :=
  span.start.InText text ∧ span.stop.InText text

/-- What a text has where a node stands. Names and literals are written out, markers have
their name in front, and a block is a text by itself. -/
def Node.Quotes (part : List Char) : Node → Prop
  | .name identifier => part = identifier.name.toList
  | .value (.boolean truth _) => part = (if truth then "true" else "false").toList
  | .value (.string text _) => part = Literal.write text.toList
  | .marker mark => mark.name.toList <+: part
  | .block definition => ∃ alone single, Document.parse (String.ofList part) = .ok alone ∧
      alone.definitions = [single] ∧ definition.sameStructure single = true
  | _ => True

theorem Position.inText_of_append (front back : List Char) :
    (Position.start.advance front).InText (front ++ back) :=
  ⟨front, List.prefix_append .., (offset_advance_start front).symm, rfl⟩

namespace Excerpt

variable {own : List Token} {part : List Char}

/-- A literal is written as its value is. -/
theorem write_read {token : Token} {text : String} (excerpt : Excerpt [token] part)
    (quoted : token.terminal = .string text) : part = Literal.write (Literal.read text.toList) := by
  have spelled : QuotedText text.toList := by
    have scanned := excerpt.yields.spelled token.terminal (by simp)
    rwa [quoted] at scanned
  have same := (Token.terminal_string.1 quoted).2
  rw [excerpt.single token rfl, same]
  generalize text.toList = literal at spelled
  obtain ⟨fits⟩ := spelled
  simp [Literal.write, Literal.read, Literal.escape_unescape fits]

/-- A block is the tree of its own part of a text. -/
theorem parse_block {block : Definition} (excerpt : Excerpt own part)
    (blocked : Extent.Block own block) (shallow : (block.mapSpans unplaced).Shallow) :
    ∃ alone single, Document.parse (String.ofList part) = .ok alone ∧
      alone.definitions = [single] ∧ block.sameStructure single = true := by
  obtain ⟨scanned, listed⟩ := excerpt.yields .start
  have said : Phrase.Sentence (own.map Token.terminal ++ [.endOfInput])
      ⟨[block.mapSpans unplaced], nowhere⟩ := .mk (.more (blocked.phrase _) .none)
  have nested := said.shallow.2 (List.forall_mem_singleton.2 shallow)
  have same : Document.terminals (String.ofList part) =
      own.map Token.terminal ++ [.endOfInput] := by
    rw [Document.terminals, String.toList_ofList]
    exact listed
  rw [← same] at said nested
  obtain ⟨alone, parsed, erased⟩ :=
    Document.parse_of_sentence (by rw [String.toList_ofList]; exact scanned) said nested
  have single : alone.definitions.map (Definition.mapSpans unplaced) =
      [block.mapSpans unplaced] := congrArg Document.definitions erased
  obtain ⟨other, only, kept⟩ := List.map_eq_singleton_iff.1 single
  exact ⟨alone, other, parsed, only, (Definition.sameStructure_iff block other).2 kept.symm⟩

/-- Over its extent a node is quoted as it is, if it is no block that nests too deeply. -/
theorem quotes {node : Node} (excerpt : Excerpt own part) (lies : node.LaidOver own)
    (shallow : ∀ block, node = .block block → (block.mapSpans unplaced).Shallow) :
    node.Quotes part := by
  cases node with
  | name identifier =>
    obtain ⟨named⟩ := lies
    have same := (Token.terminal_identifier.1 named).2
    rw [Node.Quotes, excerpt.single _ rfl, same]
  | value expression =>
    cases lies with
    | call => trivial
    | string quoted =>
      rw [Node.Quotes, String.toList_ofList]
      exact excerpt.write_read quoted
    | boolean truth named =>
      have same := (Token.terminal_identifier.1 named).2
      rw [Node.Quotes, excerpt.single _ rfl, same]
  | marker mark =>
    cases lies with
    | plain => exact excerpt.begins _ rfl
    | applied => exact excerpt.begins _ rfl
  | block block => exact excerpt.parse_block lies (shallow block rfl)
  | type | field | option => trivial

end Excerpt

/-- A span over tokens in a row of a text cuts out the part that they make up. -/
theorem Feed.Gives.exists_part {text : List Char} {own tokens : List Token} {scanner : Scanner}
    {feed : Feed} {span : Span} (gives : (ofScanner scanner).Gives tokens feed)
    (stands : scanner.At text) (inside : own <:+: tokens) (lies : span.Over own) :
    ∃ front part back, text = front ++ part ++ back ∧
      span = ⟨.advance .start front, .advance .start (front ++ part)⟩ ∧ Excerpt own part := by
  obtain ⟨before, behind, rfl⟩ := inside
  obtain ⟨_, leading, -⟩ := gives.split
  obtain ⟨_, skipped, here⟩ := leading.split
  obtain ⟨after, stands, rfl⟩ := skipped.scanner stands
  have nonempty : own ≠ [] := by
    rintro rfl
    cases lies.begins
  obtain ⟨part, back, excerpt, rest, begins, ends⟩ := here.excerpt nonempty
  obtain ⟨front, whole, place⟩ := stands.skipBlanks
  have start : span.start = .advance .start front :=
    (Option.some.inj (lies.begins.symm.trans begins)).trans place
  have stop : span.stop = .advance .start (front ++ part) := by
    rw [Position.advance_append, ← place]
    exact Option.some.inj (lies.ends.symm.trans ends)
  refine ⟨front, part, back, ?_, ?_, excerpt⟩
  · rw [whole, rest, List.append_assoc]
  · rw [← start, ← stop]

namespace Document

/-- No block is part of another node. -/
theorem Has.mem_definitions {document : Document} {block : Definition}
    (has : document.Has (.block block)) : block ∈ document.definitions := by
  cases has with
  | block listed => exact listed
  | @child node _ _ part =>
    cases node with
    | name | type | option => simp [Node.children] at part
    | marker | field => simp [Node.children] at part
    | value value => cases value <;> simp [Node.children] at part
    | block block => cases block <;> simp [Node.children] at part

/-- Both ends of every node of a tree, the root included, are places of the text. What the
text has between them is the node as it is written: a name is itself, a literal is written
as its value, a marker begins with its name, and a block alone is a text with that block
for its tree. -/
theorem quoted_of_parse {source : String} {document : Document}
    (parsed : parse source = .ok document) :
    (∀ node, document.Has node → node.span.InText source.toList ∧
      ∃ part, Position.slice? source.toList node.span.start.offset node.span.stop.offset =
        some part ∧ node.Quotes part) ∧
    document.span.InText source.toList := by
  have formed := (wellFormed_eraseSpans document).2 (wellFormed_of_parse parsed)
  obtain ⟨tokens, place, gives, blocks, tree⟩ := extent_of_parse parsed
  have stands := Scanner.at_ofText source.toList
  have nodes : ∀ node, document.Has node → node.span.InText source.toList ∧
      ∃ part, Position.slice? source.toList node.span.start.offset node.span.stop.offset =
        some part ∧ node.Quotes part := by
    intro node has
    obtain ⟨own, inside, lies⟩ := has.exists_own blocks
    obtain ⟨front, part, back, whole, span, excerpt⟩ :=
      gives.exists_part stands inside (Extent.over_of_laidOver lies)
    have shallow : ∀ block, node = .block block → (block.mapSpans unplaced).Shallow := by
      rintro block rfl
      exact formed.shallow _ (List.mem_map_of_mem has.mem_definitions)
    rw [whole, span]
    refine ⟨⟨?_, Position.inText_of_append ..⟩, part, ?_, excerpt.quotes lies shallow⟩
    · rw [List.append_assoc]
      exact Position.inText_of_append ..
    · simp only [Position.offset_advance_start]
      exact Position.slice?_append front part back
  refine ⟨nodes, ?_⟩
  cases split : document.definitions with
  | nil =>
    have origin := Position.inText_of_append [] source.toList
    rw [tree, split]
    exact ⟨origin, origin⟩
  | cons first others =>
    have listed : first ∈ document.definitions := by simp [split]
    obtain ⟨-, -, ended⟩ := stands.gives gives
    rw [tree, split, ended]
    have behind := Position.inText_of_append source.toList []
    rw [List.append_nil] at behind
    exact ⟨(nodes _ (.block listed)).1.1, behind⟩

theorem quoted_of_parse_escape :
    ∃ document, parse "\r\n\x0cdatasource a \x7bb=c(\"é\\\"\",true)\x7d\n" = .ok document ∧
      (∀ node, document.Has node →
        node.span.InText "\r\n\x0cdatasource a \x7bb=c(\"é\\\"\",true)\x7d\n".toList ∧
        ∃ part, Position.slice? "\r\n\x0cdatasource a \x7bb=c(\"é\\\"\",true)\x7d\n".toList
          node.span.start.offset node.span.stop.offset = some part ∧ node.Quotes part) ∧
      document.span.InText "\r\n\x0cdatasource a \x7bb=c(\"é\\\"\",true)\x7d\n".toList := by
  have accepted : (parse "\r\n\x0cdatasource a \x7bb=c(\"é\\\"\",true)\x7d\n").toBool = true := by
    decide +kernel
  cases parsed : parse "\r\n\x0cdatasource a \x7bb=c(\"é\\\"\",true)\x7d\n" with
  | error error => rw [parsed] at accepted; cases accepted
  | ok document => exact ⟨document, rfl, quoted_of_parse parsed⟩

end Document

end SchemaLang
