import SchemaLang.Token.Lexeme

/-! Scanning turns a text into tokens one at a time. The scanner stands between
two tokens and knows its place; a step skips blanks and reads one lexeme. A
scanner that cannot read does not move, so asking again gives the same answer,
and after the last token it answers with the end of input for ever. -/
namespace SchemaLang

/-- A character at which no lexeme begins, and where it stands. -/
structure LexError where
  position : Position
  found : Char
deriving DecidableEq

/-- The place between two tokens: where it is and what is still to be read. -/
structure Scanner where
  position : Position
  rest : List Char
deriving DecidableEq

namespace Scanner

/-- The scanner before the first character of a text. -/
def ofText (text : List Char) : Scanner := ⟨.start, text⟩

/-- The scanner behind the blanks in front of it. -/
def skipBlanks (scanner : Scanner) : Scanner where
  position := scanner.position.advance (scanner.rest.takeWhile isBlank)
  rest := scanner.rest.dropWhile isBlank

/-- Reads the next token, and gives the scanner behind it. -/
def next (scanner : Scanner) : Except LexError (Token × Scanner) :=
  let here := scanner.skipBlanks
  match here.rest with
  | [] => .ok (.endAt here.position, here)
  | found :: _ =>
    match lexeme? here.rest with
    | none => .error ⟨here.position, found⟩
    | some (kind, text) =>
      let stop := here.position.advance text
      .ok (⟨kind, String.ofList text, here.position, stop⟩, ⟨stop, here.rest.drop text.length⟩)

end Scanner

/-- A spelling is never empty, so reading one makes progress. -/
theorem lexeme?_ne_nil {text : List Char} {kind : TokenKind} {spelling : List Char}
    (found : lexeme? text = some (kind, spelling)) : spelling ≠ [] := by
  unfold lexeme? at found
  split at found <;> try split at found
  all_goals simp at found
  all_goals grind

/-- A token other than the end of input shortens what is still to be read. -/
theorem Scanner.next_shortens {scanner after : Scanner} {token : Token}
    (read : scanner.next = .ok (token, after)) (more : token.kind ≠ .endOfInput) :
    after.rest.length < scanner.rest.length := by
  unfold Scanner.next at read
  simp only at read
  have skipped : scanner.skipBlanks.rest.length ≤ scanner.rest.length :=
    (List.dropWhile_sublist isBlank).length_le
  split at read
  · cases read
    exact absurd rfl more
  · rename_i found others here
    split at read
    · cases read
    · rename_i kind spelling spelled
      cases read
      have progress := List.length_pos_iff.2 (lexeme?_ne_nil spelled)
      have nonempty : 0 < scanner.skipBlanks.rest.length := by simp [here]
      simp only [List.length_drop]
      omega

/-- Everything a text has to offer: its tokens up to the end of input, or up to
the first character that begins no lexeme. -/
structure TokenStream where
  tokens : List Token
  failure : Option LexError
deriving DecidableEq

namespace TokenStream

/-- All tokens from a place on, read once and in order. -/
def ofScanner (scanner : Scanner) : TokenStream :=
  match _read : scanner.next with
  | .error failure => ⟨[], some failure⟩
  | .ok (token, after) =>
    if _more : token.kind = .endOfInput then ⟨[token], none⟩
    else
      let others := ofScanner after
      ⟨token :: others.tokens, others.failure⟩
termination_by scanner.rest.length
decreasing_by exact Scanner.next_shortens _read _more

/-- All tokens of a text. -/
def ofText (text : List Char) : TokenStream := .ofScanner (.ofText text)

end TokenStream

end SchemaLang
