import Mathlib.Tactic.SplitIfs
import RibMap.Reference.Json.Printer
import RibMap.Proofs.Json.Spelling

/-! # Compact spellings

What is written of a value spells the value, provided that its numbers have the form of numbers.
-/

namespace RibMap.Json

/-- Every number within a value has the form of a number. -/
inductive Proper : Json → Prop
  | null : Proper .null
  | boolean {value : Bool} : Proper (.boolean value)
  | number {spelling : String} : IsNumber spelling.toList → Proper (.number spelling)
  | string {value : String} : Proper (.string value)
  | array {items : List Json} : (∀ item ∈ items, Proper item) → Proper (.array items)
  | object {members : List (String × Json)} :
    (∀ key value, (key, value) ∈ members → Proper value) → Proper (.object members)

theorem spellsDigit_hexDigit {digit : Nat} (small : digit < 16) :
    SpellsDigit (hexDigit digit) digit :=
  ⟨small, .inl rfl⟩

theorem spellsChar_escapedChar (c : Char) : SpellsChar (escapedChar c) c := by
  unfold escapedChar
  split_ifs with quote backslash feed back tab eight twelve control
  · subst quote
    exact .letter (by decide)
  · subst backslash
    exact .letter (by decide)
  · subst feed
    exact .letter (by decide)
  · subst back
    exact .letter (by decide)
  · subst tab
    exact .letter (by decide)
  · obtain rfl : c = '\x08' := Char.toNat_inj.mp eight
    exact .letter (by decide)
  · obtain rfl : c = '\x0c' := Char.toNat_inj.mp twelve
    exact .letter (by decide)
  · have zero : SpellsDigit '0' 0 := by decide
    have high : SpellsDigit (hexDigit (c.toNat / 16)) (c.toNat / 16) :=
      spellsDigit_hexDigit (by omega)
    have low : SpellsDigit (hexDigit (c.toNat % 16)) (c.toNat % 16) :=
      spellsDigit_hexDigit (by omega)
    have number := SpellsNumber.digits zero zero high low
    have value : ((0 * 16 + 0) * 16 + c.toNat / 16) * 16 + c.toNat % 16 = c.toNat := by omega
    rw [value] at number
    exact .number (by omega) number
  · exact .plain quote backslash (Nat.not_lt.mp control)

theorem spellsText_writtenText (value : String) : SpellsText (writtenText value) value := by
  have chars (cs : List Char) : SpellsChars (cs.flatMap escapedChar) cs := by
    induction cs with
    | nil => exact .nil
    | cons c cs ih =>
      rw [List.flatMap_cons]
      exact .cons (spellsChar_escapedChar c) ih
  exact .quotes (chars value.toList)

/-- Written without blanks, a comma is all that stands between two items or members. -/
theorem lead_comma : Lead false [','] :=
  .later layout_nil layout_nil

theorem spellsItems_compactItems {items : List Json}
    (spelled : ∀ item ∈ items, Spells item.compact item) (proper : items ≠ []) {first : Bool}
    {lead : List Char} (leads : Lead first lead) :
    SpellsItems first (lead ++ compactItems items) items := by
  induction items generalizing first lead with
  | nil => contradiction
  | cons item items ih =>
    have here := spelled item List.mem_cons_self
    cases items with
    | nil =>
      have whole := SpellsItems.next leads here (.done layout_nil)
      rwa [List.append_nil] at whole
    | cons next items =>
      have others := ih (fun other mem => spelled other (List.mem_cons_of_mem _ mem))
        (List.cons_ne_nil _ _) lead_comma
      exact .next leads here others

theorem spellsMembers_compactMembers {members : List (String × Json)}
    (spelled : ∀ key value, (key, value) ∈ members → Spells value.compact value)
    (proper : members ≠ []) {first : Bool} {lead : List Char} (leads : Lead first lead) :
    SpellsMembers first (lead ++ compactMembers members) members := by
  induction members generalizing first lead with
  | nil => contradiction
  | cons entry members ih =>
    obtain ⟨key, value⟩ := entry
    have name := spellsText_writtenText key
    have here := spelled key value List.mem_cons_self
    cases members with
    | nil =>
      have whole := SpellsMembers.next leads name layout_nil layout_nil here (.done layout_nil)
      rwa [List.append_nil] at whole
    | cons next members =>
      have others := ih (fun key value mem => spelled key value (List.mem_cons_of_mem _ mem))
        (List.cons_ne_nil _ _) lead_comma
      exact .next leads name layout_nil layout_nil here others

/-- The compact form of a value spells it. -/
theorem spells_compact {value : Json} (proper : value.Proper) : Spells value.compact value := by
  induction proper with
  | null => exact .null
  | @boolean value => cases value <;> constructor
  | number number => exact .number number
  | @string value => exact .string (spellsText_writtenText value)
  | @array items _ ih =>
    apply Spells.array
    by_cases empty : items = []
    · subst empty
      exact .done layout_nil
    · exact spellsItems_compactItems ih empty (.first layout_nil)
  | @object members _ ih =>
    apply Spells.object
    by_cases empty : members = []
    · subst empty
      exact .done layout_nil
    · exact spellsMembers_compactMembers ih empty (.first layout_nil)

theorem isSpelledBy_render {value : Json} (proper : value.Proper) :
    value.IsSpelledBy value.render := by
  have whole := IsSpelledBy.blanks layout_nil (spells_compact proper) layout_nil
  rwa [List.append_nil] at whole

end RibMap.Json
