/-! # Shortest decimals that read back

A binary number stands for every real number that rounds to it. Among the decimals in that window
`Window.shortest` takes one with the fewest digits, and of those the nearest to the number itself.
All comparisons are made on natural numbers, so no digit depends on a rounding.
-/

namespace RibMap

/-- The reals that round to a positive binary number, as numerators over one denominator. -/
structure Window where
  low : Nat
  value : Nat
  high : Nat
  denominator : Nat
  /-- Whether both ends belong to the window. -/
  closed : Bool

namespace Window

/-- The window of `mantissa * 2 ^ exponent`; below a power of two the gap is half as wide. -/
def ofBinary (mantissa : Nat) (exponent : Int) (nearBelow : Bool) : Window :=
  let unit := if 2 ≤ exponent then Nat.pow 2 (exponent - 2).toNat else 1
  { low := (4 * mantissa - if nearBelow then 1 else 2) * unit
    value := 4 * mantissa * unit
    high := (4 * mantissa + 2) * unit
    denominator := Nat.pow 2 (2 - exponent).toNat
    closed := mantissa % 2 == 0 }

def digitCount (n : Nat) : Nat :=
  (Nat.toDigits 10 n).length

def magnitude (window : Window) : Int :=
  if window.denominator ≤ window.value then
    (digitCount (window.value / window.denominator) : Int) - 1
  else
    -(digitCount ((window.denominator - 1) / window.value) : Int)

/-- A decimal `digits * 10 ^ exponent`. -/
structure Decimal where
  digits : Nat
  exponent : Int
  deriving DecidableEq, Repr

def powerOfTen (exponent : Int) : Nat × Nat :=
  (Nat.pow 10 exponent.toNat, Nat.pow 10 (-exponent).toNat)

def contains (window : Window) (decimal : Decimal) : Bool :=
  let (up, down) := powerOfTen decimal.exponent
  let scaled := decimal.digits * up * window.denominator
  if window.closed then window.low * down ≤ scaled && scaled ≤ window.high * down
  else window.low * down < scaled && scaled < window.high * down

/-- The best decimal in the window whose last digit counts `10 ^ exponent`, if there is one. -/
def onGrid? (window : Window) (exponent : Int) : Option Decimal :=
  let (up, down) := powerOfTen exponent
  let step := window.denominator * up
  let below : Decimal := ⟨window.value * down / step, exponent⟩
  let above : Decimal := ⟨below.digits + 1, exponent⟩
  match window.contains below, window.contains above with
  | true, true =>
    let twice := 2 * (window.value * down - below.digits * step)
    some (if twice < step ∨ (twice = step ∧ below.digits % 2 = 0) then below else above)
  | true, false => some below
  | false, true => some above
  | false, false => none

/-- Try grids from `count` digits on, `tries` of them. -/
def search (window : Window) (count : Nat) : Nat → Decimal
  | 0 => ⟨window.value / window.denominator, 0⟩
  | tries + 1 =>
    match window.onGrid? (window.magnitude - count + 1) with
    | some decimal => decimal
    | none => window.search (count + 1) tries

/-- A decimal of the window with the fewest digits; seventeen always suffice for a double. -/
def shortest (window : Window) : Decimal :=
  window.search 1 17

/-- The window of a positive finite double. -/
def ofDouble (x : Float) : Window :=
  let bits : Nat := x.toBits.toNat
  let fraction : Nat := bits % Nat.pow 2 52
  let biased : Nat := bits / Nat.pow 2 52 % Nat.pow 2 11
  if biased = 0 then ofBinary fraction (-1074) false
  else ofBinary (Nat.pow 2 52 + fraction) ((biased : Int) - 1075) (fraction == 0 && 1 < biased)

end Window

end RibMap
