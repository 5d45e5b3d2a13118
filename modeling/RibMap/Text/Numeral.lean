/-! # Natural numbers in decimal digits

A numeral is an optional plus sign and at least one ASCII digit. Machine words bound the value:
a numeral for `2 ^ 64` or more is refused, however many leading zeros the others may have.
-/

namespace RibMap

def digitValue? (c : Char) : Option Nat :=
  if '0' ≤ c ∧ c ≤ '9' then some (c.toNat - '0'.toNat) else none

theorem digitValue?_eq (c : Char) :
    digitValue? c = if c.isDigit = true then some (c.toNat - '0'.toNat) else none := by
  have digit : ('0' ≤ c ∧ c ≤ '9') ↔ c.isDigit = true := by
    simp [Char.isDigit, Char.le_def]
  simp only [digitValue?, digit]

/-- Read digits onto the value of those before them. -/
def digitsValue? (value : Nat) : List Char → Option Nat
  | [] => some value
  | c :: rest => do
    let digit ← digitValue? c
    digitsValue? (10 * value + digit) rest

/-- Values at or above this bound do not fit into a machine word. -/
def wordBound : Nat := Nat.pow 2 64

/-- Read a numeral that fits into a machine word. -/
def wordOf? (text : List Char) : Option Nat := do
  let digits := match text with
    | '+' :: rest => rest
    | _ => text
  if digits.isEmpty then none
  else
    let value ← digitsValue? 0 digits
    if value < wordBound then some value else none

end RibMap
