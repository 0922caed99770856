import SchemaLang.Proofs.Feed

/-! Where the elements of a feed stand. Every token takes at least one byte, so each
element begins strictly behind the one in front of it, the end of input and a fault
included. Comparing offsets therefore comes to the same as comparing ordinals. -/
namespace SchemaLang

namespace Position

theorem advance_append (position : Position) (first others : List Char) :
    position.advance (first ++ others) = (position.advance first).advance others :=
  List.foldl_append

theorem offset_step (position : Position) (char : Char) :
    (position.step char).offset = position.offset + char.utf8Size := by
  unfold step
  split <;> rfl

theorem offset_advance (position : Position) (text : List Char) :
    (position.advance text).offset = position.offset + byteLength text := by
  induction text generalizing position with
  | nil => rfl
  | cons char text ih =>
    show ((position.step char).advance text).offset = _
    rw [ih, offset_step, byteLength, byteLength, List.foldr_cons, Nat.add_assoc]

theorem utf8ByteSize_ofList (text : List Char) :
    (String.ofList text).utf8ByteSize = byteLength text := by
  induction text with
  | nil => rfl
  | cons char text ih =>
    rw [String.ofList_cons, String.utf8ByteSize_append, String.utf8ByteSize_singleton, ih]
    rfl

theorem byteLength_pos {text : List Char} (nonempty : text ≠ []) : 0 < byteLength text := by
  obtain ⟨char, others, rfl⟩ := List.exists_cons_of_ne_nil nonempty
  exact Nat.lt_of_lt_of_le char.utf8Size_pos (Nat.le_add_right ..)

end Position

/-- All that one step of a scanner can do: find the end behind the blanks, or a
character that begins no lexeme, or take the lexeme that begins there. -/
theorem Scanner.next_cases (scanner : Scanner) :
    (scanner.skipBlanks.rest = [] ∧
      scanner.next = .ok (.endAt scanner.skipBlanks.position, scanner.skipBlanks)) ∨
    (∃ found others, scanner.skipBlanks.rest = found :: others ∧
      lexeme? scanner.skipBlanks.rest = none ∧
      scanner.next = .error ⟨scanner.skipBlanks.position, found⟩) ∨
    ∃ kind text, lexeme? scanner.skipBlanks.rest = some (kind, text) ∧
      scanner.next = .ok
        (⟨kind, .ofList text, scanner.skipBlanks.position,
            scanner.skipBlanks.position.advance text⟩,
          ⟨scanner.skipBlanks.position.advance text,
            scanner.skipBlanks.rest.drop text.length⟩) := by
  unfold next
  cases rest : scanner.skipBlanks.rest with
  | nil => exact .inl ⟨rfl, by simp [rest]⟩
  | cons found others =>
    cases read : lexeme? (found :: others) with
    | none => exact .inr (.inl ⟨found, others, rfl, rfl, by simp [rest, read]⟩)
    | some result => exact .inr (.inr ⟨result.1, result.2, rfl, by simp [rest, read]⟩)

namespace Feed

/-- Where the front of a feed stands. -/
def place : Feed → Position
  | token first _ _ => first.start
  | finish place => place
  | fault failure => failure.position

/-- Every element begins behind the one in front of it. -/
def Ordered : Feed → Prop
  | token first _ rest => first.start.offset < rest.place.offset ∧ rest.Ordered
  | finish _ => True
  | fault _ => True

theorem place_of_look {feed : Feed} {first : Token} (looked : feed.look = .ok first) :
    feed.place = first.start := by
  cases feed <;> cases looked <;> rfl

/-- A scanner reads from behind the blanks in front of it. -/
theorem place_ofScanner (scanner : Scanner) :
    (ofScanner scanner).place = scanner.skipBlanks.position := by
  rcases scanner.next_cases with ⟨-, read⟩ | ⟨found, others, -, -, read⟩ | ⟨kind, text, found, read⟩
  · rw [ofScanner_ok read]
    rfl
  · rw [ofScanner_error read]
    rfl
  · rw [ofScanner_ok read, dif_neg (lexeme?_kind found)]
    rfl

/-- Each token takes a byte at least, so what is read behind it begins further on. -/
theorem ordered_ofScanner (scanner : Scanner) : (ofScanner scanner).Ordered := by
  fun_induction ofScanner scanner with
  | case1 | case2 => trivial
  | case3 scanner first after read proper ih =>
    refine ⟨?_, ih⟩
    rw [place_ofScanner, Scanner.skipBlanks, Position.offset_advance]
    rcases scanner.next_cases with ⟨-, next⟩ | ⟨_, _, -, -, next⟩ | ⟨kind, text, found, next⟩
    · cases read.symm.trans next
      exact absurd rfl proper
    · cases read.symm.trans next
    · cases read.symm.trans next
      have progress := Position.byteLength_pos (lexeme?_ne_nil found)
      simp only [Position.offset_advance]
      omega

theorem ordered_ofText (text : List Char) : (ofText text).Ordered := ordered_ofScanner _

end Feed

end SchemaLang
