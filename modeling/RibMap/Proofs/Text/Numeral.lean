import Mathlib.Data.Nat.Digits.Defs
import RibMap.Text.Numeral

/-! # Numerals and their values

A numeral is a possible plus sign and at least one ASCII digit, with any number of leading zeros.
Its value counts every digit by the power of ten for its place. A word is read from exactly those
numerals whose value fits, and is then this value.
-/

namespace RibMap

/-- The value of digits, the last of them being the units. -/
def decimalValue (digits : List Char) : Nat :=
  Nat.ofDigits 10 (digits.reverse.map fun c => c.toNat - '0'.toNat)

/-- A text is a numeral for a value: at least one digit, behind a plus sign or not. -/
inductive IsNumeral : List Char → Nat → Prop
  | plain {digits : List Char} : digits ≠ [] → (∀ c ∈ digits, c.isDigit = true) →
    IsNumeral digits (decimalValue digits)
  | signed {digits : List Char} : digits ≠ [] → (∀ c ∈ digits, c.isDigit = true) →
    IsNumeral ('+' :: digits) (decimalValue digits)

theorem decimalValue_cons (c : Char) (digits : List Char) :
    decimalValue (c :: digits) =
      (c.toNat - '0'.toNat) * 10 ^ digits.length + decimalValue digits := by
  simp only [decimalValue, List.reverse_cons, List.map_append, List.map_cons, List.map_nil,
    Nat.ofDigits_append, Nat.ofDigits_singleton, List.length_map, List.length_reverse]
  rw [Nat.add_comm, Nat.mul_comm]

/-- Digits are read onto the value of those before them as if all had been read at once. -/
theorem digitsValue?_eq_some_iff {start value : Nat} {digits : List Char} :
    digitsValue? start digits = some value ↔
      (∀ c ∈ digits, c.isDigit = true) ∧
        value = start * 10 ^ digits.length + decimalValue digits := by
  induction digits generalizing start with
  | nil =>
    have nothing : decimalValue [] = 0 := rfl
    rw [digitsValue?, Option.some.injEq, nothing, List.length_nil, pow_zero, Nat.mul_one,
      Nat.add_zero, eq_comm]
    exact (and_iff_right (List.forall_mem_nil _)).symm
  | cons c digits ih =>
    have shift (digit : Nat) : (10 * start + digit) * 10 ^ digits.length =
        start * 10 ^ (digits.length + 1) + digit * 10 ^ digits.length := by
      ring
    by_cases digit : c.isDigit = true
    · simp [digitsValue?, digitValue?_eq, digit, ih, decimalValue_cons, shift, Nat.add_assoc]
    · simp [digitsValue?, digitValue?_eq, digit]

/-- Digits that make a word: at least one, and a value that fits. -/
theorem digitsWord_eq_some_iff {digits : List Char} {value : Nat} :
    (if digits.isEmpty then none
      else do
        let value ← digitsValue? 0 digits
        if value < wordBound then some value else none) = some value ↔
      ((digits ≠ [] ∧ ∀ c ∈ digits, c.isDigit = true) ∧ value = decimalValue digits) ∧
        value < 2 ^ 64 := by
  have bound : wordBound = 2 ^ 64 := rfl
  cases digits with
  | nil => simp
  | cons c digits =>
    simp only [List.isEmpty_cons, Bool.false_eq_true, ↓reduceIte, Option.bind_eq_bind,
      Option.bind_eq_some_iff, digitsValue?_eq_some_iff, Option.ite_none_right_eq_some,
      Option.some.injEq, Nat.zero_mul, Nat.zero_add, bound]
    constructor
    · rintro ⟨_, ⟨all, rfl⟩, fits, rfl⟩
      exact ⟨⟨⟨List.cons_ne_nil c digits, all⟩, rfl⟩, fits⟩
    · rintro ⟨⟨⟨-, all⟩, rfl⟩, fits⟩
      exact ⟨_, ⟨all, rfl⟩, fits, rfl⟩

theorem isNumeral_signed_iff {digits : List Char} {value : Nat} :
    IsNumeral ('+' :: digits) value ↔
      (digits ≠ [] ∧ ∀ c ∈ digits, c.isDigit = true) ∧ value = decimalValue digits := by
  constructor
  · intro numeral
    cases numeral with
    | plain _ all => exact absurd (all '+' List.mem_cons_self) (by decide)
    | signed proper all => exact ⟨⟨proper, all⟩, rfl⟩
  · rintro ⟨⟨proper, all⟩, rfl⟩
    exact .signed proper all

theorem isNumeral_iff_of_unsigned {text : List Char} {value : Nat}
    (unsigned : ∀ digits, text ≠ '+' :: digits) :
    IsNumeral text value ↔
      (text ≠ [] ∧ ∀ c ∈ text, c.isDigit = true) ∧ value = decimalValue text := by
  constructor
  · intro numeral
    cases numeral with
    | plain proper all => exact ⟨⟨proper, all⟩, rfl⟩
    | signed => exact absurd rfl (unsigned _)
  · rintro ⟨⟨proper, all⟩, rfl⟩
    exact .plain proper all

/-- A word is read from a text exactly if the text is a numeral for it. -/
theorem wordOf?_eq_some_iff {text : List Char} {value : Nat} :
    wordOf? text = some value ↔ IsNumeral text value ∧ value < 2 ^ 64 := by
  unfold wordOf?
  split
  · rw [digitsWord_eq_some_iff, isNumeral_signed_iff]
  · rename_i unsigned
    rw [digitsWord_eq_some_iff, isNumeral_iff_of_unsigned unsigned]

end RibMap
