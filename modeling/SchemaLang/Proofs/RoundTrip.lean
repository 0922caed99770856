import SchemaLang.Proofs.Acceptance
import SchemaLang.Proofs.Rendering

/-! Printing and parsing undo each other, up to places. The trees that survive a round
are the well-formed ones, and every tree of a text is among them, so formatting a text
is safe and changes nothing the second time. -/
namespace SchemaLang.Document

open Phrase

/-- The tree of a text is well-formed. -/
theorem wellFormed_of_parse {source : String} {document : Document}
    (parsed : parse source = .ok document) : document.WellFormed := by
  obtain ⟨-, said, shallow⟩ := sentence_of_parse parsed
  have spelled : AllSpelled (terminals source) :=
    List.forall_mem_map.2 (spelled_stream (.ofText source.toList))
  exact (wellFormed_eraseSpans document).1 ⟨said.writable spelled, said.shallow.1 shallow⟩

/-- The canonical text of a well-formed tree has that tree, places apart. -/
theorem parse_of_wellFormed {document : Document} (wellFormed : document.WellFormed) :
    ∃ text read, document.print = .ok text ∧ parse text = .ok read ∧
      read.eraseSpans = document.eraseSpans := by
  obtain ⟨text, listed, wrote, yields, said⟩ := Layout.print_yields wellFormed.writable
  obtain ⟨scanned, same⟩ := yields .start
  have shallow : nesting listed ≤ Schema.maxCallDepth :=
    said.shallow.2 ((wellFormed_eraseSpans document).2 wellFormed).shallow
  have here : terminals text = listed := same
  rw [← here] at said shallow
  obtain ⟨read, parsed, erased⟩ := parse_of_sentence scanned said shallow
  exact ⟨text, read, wrote, parsed, erased⟩

/-- A tree has a canonical text that is read as the same tree again just when it is
well-formed. -/
theorem print_parse_iff (document : Document) :
    (∃ text read, document.print = .ok text ∧ parse text = .ok read ∧
      document.sameStructure read = true) ↔ document.WellFormed := by
  constructor
  · rintro ⟨text, read, -, parsed, same⟩
    have wellFormed := (wellFormed_eraseSpans read).2 (wellFormed_of_parse parsed)
    rw [← (sameStructure_iff document read).1 same] at wellFormed
    exact (wellFormed_eraseSpans document).1 wellFormed
  · intro wellFormed
    obtain ⟨text, read, wrote, parsed, erased⟩ := parse_of_wellFormed wellFormed
    exact ⟨text, read, wrote, parsed, (sameStructure_iff document read).2 erased.symm⟩

/-- The tree of every text has a canonical text, which is read as the same tree and
written as itself. -/
theorem print_stable {source : String} {document : Document}
    (parsed : parse source = .ok document) :
    ∃ canonical read, document.print = .ok canonical ∧ parse canonical = .ok read ∧
      document.sameStructure read = true ∧ read.print = .ok canonical := by
  obtain ⟨canonical, read, wrote, reparsed, erased⟩ :=
    parse_of_wellFormed (wellFormed_of_parse parsed)
  refine ⟨canonical, read, wrote, reparsed, (sameStructure_iff document read).2 erased.symm, ?_⟩
  rw [← print_eraseSpans, erased, print_eraseSpans, wrote]

theorem print_stable_field :
    ∃ document, parse "model A\x7bb C?@d()@e(f(\"\"),true)\x7d" = .ok document ∧
      ∃ canonical read, document.print = .ok canonical ∧ parse canonical = .ok read ∧
        document.sameStructure read = true ∧ read.print = .ok canonical := by
  have accepted : (parse "model A\x7bb C?@d()@e(f(\"\"),true)\x7d").toBool = true := by
    decide +kernel
  cases parsed : parse "model A\x7bb C?@d()@e(f(\"\"),true)\x7d" with
  | error error => rw [parsed] at accepted; cases accepted
  | ok document => exact ⟨document, rfl, print_stable parsed⟩

/-- Well-formed trees have the same canonical text just when they have the same
structure, wherever their parts stand. -/
theorem print_eq_iff {first second : Document} (formed : first.WellFormed)
    (formed' : second.WellFormed) :
    (∃ text, first.print = .ok text ∧ second.print = .ok text) ↔
      first.sameStructure second = true := by
  obtain ⟨text, read, wrote, parsed, erased⟩ := parse_of_wellFormed formed
  constructor
  · rintro ⟨common, printed, printed'⟩
    obtain ⟨text', read', wrote', parsed', erased'⟩ := parse_of_wellFormed formed'
    -- The common text is read as both trees at once.
    cases wrote.symm.trans printed
    cases wrote'.symm.trans printed'
    cases parsed.symm.trans parsed'
    exact (sameStructure_iff first second).2 (erased.symm.trans erased')
  · intro same
    have erased := (sameStructure_iff first second).1 same
    refine ⟨text, wrote, ?_⟩
    rw [← print_eraseSpans, ← erased, print_eraseSpans, wrote]

theorem print_eq_iff_spaced :
    ∃ first second, parse "model A\x7bb C?@d()@e(f(\"\"),true)\x7d" = .ok first ∧
      parse " model A \x7b\n b C ? @d @e ( f ( \"\" ) , true )\n\x7d " = .ok second ∧
      first ≠ second ∧ first.WellFormed ∧ second.WellFormed ∧
      ((∃ text, first.print = .ok text ∧ second.print = .ok text) ↔
        first.sameStructure second = true) := by
  have facts : (parse "model A\x7bb C?@d()@e(f(\"\"),true)\x7d").toBool = true ∧
      (parse " model A \x7b\n b C ? @d @e ( f ( \"\" ) , true )\n\x7d ").toBool = true ∧
      parse "model A\x7bb C?@d()@e(f(\"\"),true)\x7d" ≠
        parse " model A \x7b\n b C ? @d @e ( f ( \"\" ) , true )\n\x7d " := by decide +kernel
  obtain ⟨accepted, accepted', apart⟩ := facts
  cases parsed : parse "model A\x7bb C?@d()@e(f(\"\"),true)\x7d" with
  | error error => rw [parsed] at accepted; cases accepted
  | ok first =>
    cases parsed' : parse " model A \x7b\n b C ? @d @e ( f ( \"\" ) , true )\n\x7d " with
    | error error => rw [parsed'] at accepted'; cases accepted'
    | ok second =>
      have formed := wellFormed_of_parse parsed
      have formed' := wellFormed_of_parse parsed'
      refine ⟨first, second, rfl, rfl, ?_, formed, formed', print_eq_iff formed formed'⟩
      rintro rfl
      exact apart (parsed.trans parsed'.symm)

end SchemaLang.Document
