import RibMap.Proofs.Declaration.Meaning
import RibMap.Proofs.Reference.Json.Library

/-! # Writing and reading declaration records

A written record is read as the record that was written, so writing what was read from any text and
reading it again changes nothing more.
-/

namespace RibMap.Declaration

/-- What is written of a record spells its value, and the record is read back from it. -/
theorem exists_toJson [Json.Library] (reads : Json.ReadsByRules)
    (writes : Json.WritesByRules Json.Library.write) (declaration : Declaration) :
    ∃ text, declaration.toJson = .ok text ∧ declaration.value.IsSpelledBy text ∧
      ofJson text = .ok declaration := by
  obtain ⟨text, written, spelled⟩ := declaration.writes_value writes
  exact ⟨text, written, spelled, (ofJson_eq_ok_iff reads spelled _).mpr declaration.decode_value⟩

/-- Records survive being written and read again. However a text is written that is read as a
record, reading what is written of that record gives the same record, and the same text when it is
written once more. Of the spellings of a value, either all are read as a record or none is. -/
theorem ofJson_roundTrip [Json.Library] (reads : Json.ReadsByRules)
    (writes : Json.WritesByRules Json.Library.write) :
    (∀ declaration : Declaration, ∃ text, declaration.toJson = .ok text ∧
        declaration.value.IsSpelledBy text ∧ ofJson text = .ok declaration) ∧
      (∀ text declaration, ofJson text = .ok declaration →
        ∃ written again rewritten, declaration.toJson = .ok written ∧ ofJson written = .ok again ∧
          again = declaration ∧ again.toJson = .ok rewritten ∧ rewritten = written) ∧
      ∀ value text declaration, value.IsSpelledBy text →
        (ofJson text = .ok declaration ↔ decode value = some declaration) := by
  refine ⟨exists_toJson reads writes, fun _ declaration _ => ?_,
    fun _ _ declaration spelled => ofJson_eq_ok_iff reads spelled declaration⟩
  obtain ⟨written, done, -, again⟩ := exists_toJson reads writes declaration
  exact ⟨written, declaration, written, done, again, rfl, done, rfl⟩

section Other

open scoped Reference

/-- A kind with the keyword of another kind, escaped, in a record that is written as a list. -/
theorem ofJson_roundTrip_other :
    ofJson "[\x7b\"other\" : \"\\u0063lass\"\x7d,null,[]]" = .ok ⟨.other "class", none, []⟩ ∧
      (toJson ⟨.other "class", none, []⟩).bind ofJson = .ok ⟨.other "class", none, []⟩ := by
  have empty := Json.layout_nil
  have blank := Json.layout_space
  have digits : Json.SpellsDigit '0' 0 ∧ Json.SpellsDigit '6' 6 ∧ Json.SpellsDigit '3' 3 := by
    decide
  have escaped : Json.SpellsChar _ 'c' :=
    .number (by decide) (.digits digits.1 digits.1 digits.2.1 digits.2.2)
  have plain {c : Char} (proper : c ≠ '"' ∧ c ≠ '\\' ∧ 0x20 ≤ c.toNat) : Json.SpellsChar [c] c :=
    .plain proper.1 proper.2.1 proper.2.2
  have keyword : Json.SpellsText _ "class" := .quotes (.cons escaped (.cons (plain (by decide))
    (.cons (plain (by decide)) (.cons (plain (by decide)) (.cons (plain (by decide)) .nil)))))
  have kind : Json.Spells _ (.object [("other", .string "class")]) :=
    .object (.next (.first empty) (Json.spellsText_writtenText _) blank blank (.string keyword)
      (.done empty))
  have spelled : Json.IsSpelledBy _ _ :=
    .blanks empty (.array (.next (.first empty) kind (.next Json.lead_comma .null
      (.next Json.lead_comma (.array (.done empty)) (.done empty))))) empty
  obtain ⟨-, again, reads⟩ :=
    ofJson_roundTrip Reference.readsByRules Reference.writesByRules
  have read := (reads _ _ ⟨.other "class", none, []⟩ spelled).mpr rfl
  obtain ⟨written, _, -, done, found, rfl, -⟩ := again _ _ read
  rw [done]
  exact ⟨read, found⟩

end Other

end RibMap.Declaration
