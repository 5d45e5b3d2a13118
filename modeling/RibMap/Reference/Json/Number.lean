import RibMap.Reference.Json.Scalar
import RibMap.Text.Numeral

/-! # Reading and skipping numbers

A number is read only to be named in a message, for no value of interest is one. Up to nineteen or
twenty digits are kept exactly; further ones count as zeros before the point and as nothing after
it. The kept digits are then scaled by powers of ten in double precision. Skipping a number checks
its form alone.
-/

namespace RibMap.Json

/-- The largest decimal exponent that is still counted. -/
def exponentBound : Nat := Nat.pow 2 31

/-- Read digits onto a value as long as it fits into a word, counting them. -/
def absorbDigits (value taken : Nat) : List Char → Nat × Nat × List Char
  | [] => (value, taken, [])
  | c :: rest =>
    match digitValue? c with
    | none => (value, taken, c :: rest)
    | some digit =>
      if 10 * value + digit < wordBound then absorbDigits (10 * value + digit) (taken + 1) rest
      else (value, taken, c :: rest)

/-- Whether the next character is a digit. -/
def startsWithDigit : List Char → Bool
  | [] => false
  | c :: _ => (digitValue? c).isSome

def dropDigits (text : List Char) : List Char :=
  text.dropWhile fun c => (digitValue? c).isSome

/-- A power of ten that a double can hold. -/
def tenTo (exponent : Nat) : Float :=
  OfScientific.ofScientific 1 false exponent

/-- Multiply a double by a power of ten, a step at a time; nothing if it grows too large. -/
def scaled? (x : Float) (exponent : Int) : Option Float :=
  if 0 ≤ exponent then
    if exponent ≤ 308 then
      let product := x * tenTo exponent.toNat
      if product.isInf then none else some product
    else if x == 0 then some x else none
  else if -308 ≤ exponent then some (x / tenTo exponent.natAbs)
  else if x == 0 then some x
  else scaled? (x / tenTo 308) (exponent + 308)
termination_by exponent.natAbs

def realOf (positive : Bool) (digits : Nat) (exponent : Int) (rest : List Char) : Reading Found :=
  match scaled? (Float.ofNat digits) exponent with
  | some x => .ok (.real (if positive then x else -x), rest)
  | none => .error (.at .numberOutOfRange rest)

/-- Read exponent digits; `true` if the last one read made the value too large to count. -/
def exponentDigits (value : Nat) : List Char → Nat × Bool × List Char
  | [] => (value, false, [])
  | c :: rest =>
    match digitValue? c with
    | none => (value, false, c :: rest)
    | some digit =>
      if 10 * value + digit < exponentBound then exponentDigits (10 * value + digit) rest
      else (value, true, rest)

/-- Read an exponent after its letter and its sign. -/
def readExponentValue (positive grows : Bool) (digits : Nat) (start : Int) :
    List Char → Reading Found
  | [] => .error (.at .endInValue [])
  | c :: rest =>
    match digitValue? c with
    | none => .error (.on .invalidNumber (c :: rest))
    | some first =>
      match exponentDigits first rest with
      | (value, false, left) =>
        realOf positive digits (if grows then start + value else start - value) left
      | (_, true, left) =>
        if grows ∧ digits ≠ 0 then .error (.at .numberOutOfRange left)
        else .ok (.real (if positive then 0.0 else -0.0), dropDigits left)

/-- Read an exponent after its letter. -/
def readExponent (positive : Bool) (digits : Nat) (start : Int) (text : List Char) :
    Reading Found :=
  match text with
  | '+' :: rest => readExponentValue positive true digits start rest
  | '-' :: rest => readExponentValue positive false digits start rest
  | rest => readExponentValue positive true digits start rest

/-- Go on to an exponent, or end the number. -/
def readTail (positive : Bool) (digits : Nat) (exponent : Int) (text : List Char) :
    Reading Found :=
  match text with
  | 'e' :: rest => readExponent positive digits exponent rest
  | 'E' :: rest => readExponent positive digits exponent rest
  | rest => realOf positive digits exponent rest

/-- Read a fraction after its point. -/
def readFraction (positive : Bool) (digits : Nat) (exponent : Int) (text : List Char) :
    Reading Found :=
  let (digits, taken, rest) := absorbDigits digits 0 text
  if startsWithDigit rest then readTail positive digits (exponent - taken) (dropDigits rest)
  else if taken = 0 then
    .error (.on (if rest.isEmpty then .endInValue else .invalidNumber) rest)
  else readTail positive digits (exponent - taken) rest

/-- Go on after the digits of an integer. -/
def readAfterInteger (positive : Bool) (digits : Nat) (text : List Char) : Reading Found :=
  match text with
  | '.' :: rest => readFraction positive digits 0 rest
  | 'e' :: rest => readExponent positive digits 0 rest
  | 'E' :: rest => readExponent positive digits 0 rest
  | rest =>
    if positive then .ok (.integer digits, rest)
    else if 0 < digits ∧ digits ≤ Nat.pow 2 63 then .ok (.integer (-digits), rest)
    else .ok (.real (-(Float.ofNat digits)), rest)

def readNumber (positive : Bool) : List Char → Reading Found
  | [] => .error (.at .endInValue [])
  | '0' :: rest =>
    if startsWithDigit rest then .error (.on .invalidNumber rest)
    else readAfterInteger positive 0 rest
  | c :: rest =>
    match digitValue? c with
    | none => .error (.on .invalidNumber (c :: rest))
    | some first =>
      let (digits, _, left) := absorbDigits first 0 rest
      if startsWithDigit left then
        let after := dropDigits left
        let dropped := left.length - after.length
        match after with
        | '.' :: fraction => readFraction positive digits dropped fraction
        | _ => readTail positive digits dropped after
      else readAfterInteger positive digits left

/-- Drop the sign of an exponent. -/
def dropSign : List Char → List Char
  | '+' :: rest => rest
  | '-' :: rest => rest
  | rest => rest

/-- Skip an exponent after its letter. -/
def skipExponent (text : List Char) : Except Fault (List Char) :=
  if startsWithDigit (dropSign text) then .ok (dropDigits (dropSign text))
  else .error (.on .invalidNumber (dropSign text))

def skipTail : List Char → Except Fault (List Char)
  | 'e' :: rest => skipExponent rest
  | 'E' :: rest => skipExponent rest
  | rest => .ok rest

/-- Skip a fraction and an exponent if there are any. -/
def skipAfterInteger : List Char → Except Fault (List Char)
  | '.' :: rest =>
    if startsWithDigit rest then skipTail (dropDigits rest) else .error (.on .invalidNumber rest)
  | rest => skipTail rest

def skipNumber : List Char → Except Fault (List Char)
  | [] => .error (.at .invalidNumber [])
  | '0' :: rest =>
    if startsWithDigit rest then .error (.on .invalidNumber rest) else skipAfterInteger rest
  | c :: rest =>
    if (digitValue? c).isSome then skipAfterInteger (dropDigits rest)
    else .error (.on .invalidNumber (c :: rest))

theorem length_dropDigits (text : List Char) : (dropDigits text).length ≤ text.length :=
  (List.dropWhile_sublist _).length_le

theorem length_dropSign (text : List Char) : (dropSign text).length ≤ text.length := by
  unfold dropSign
  split <;> simp

theorem length_skipExponent {text rest : List Char} (skip : skipExponent text = .ok rest) :
    rest.length ≤ text.length := by
  unfold skipExponent at skip
  split at skip
  · cases skip
    exact Nat.le_trans (length_dropDigits _) (length_dropSign text)
  · cases skip

theorem length_skipTail {text rest : List Char} (skip : skipTail text = .ok rest) :
    rest.length ≤ text.length := by
  unfold skipTail at skip
  split at skip
  · have := length_skipExponent skip
    simp only [List.length_cons]
    omega
  · have := length_skipExponent skip
    simp only [List.length_cons]
    omega
  · cases skip
    exact Nat.le_refl _

theorem length_skipAfterInteger {text rest : List Char} (skip : skipAfterInteger text = .ok rest) :
    rest.length ≤ text.length := by
  unfold skipAfterInteger at skip
  split at skip
  · split at skip
    · have := length_skipTail skip
      have := length_dropDigits
      simp only [List.length_cons]
      grind
    · cases skip
  · exact length_skipTail skip

theorem length_skipNumber {text rest : List Char} (skip : skipNumber text = .ok rest) :
    rest.length < text.length := by
  unfold skipNumber at skip
  split at skip
  · cases skip
  · split at skip
    · cases skip
    · have := length_skipAfterInteger skip
      simp only [List.length_cons]
      omega
  · rename_i after _
    split at skip
    · have := length_skipAfterInteger skip
      have := length_dropDigits after
      simp only [List.length_cons]
      omega
    · cases skip

end RibMap.Json
