import RibMap.Reference.Json.Error

/-! # Reading words, texts and numbers

Readers take the characters not yet read and give back those left over. A text is read in two ways:
decoded, when its value is wanted, or skipped, when only its end is. Skipping is laxer: the numbers
of its escapes need not form characters.
-/

namespace RibMap.Json

/-- A value that was read, and what is left of the text. -/
abbrev Reading (α : Type) := Except Fault (α × List Char)

/-- The blanks allowed between the tokens of a text. -/
def isLayout (c : Char) : Bool :=
  c = ' ' || c = '\n' || c = '\t' || c = '\r'

/-- Drop the blanks in front of the next token. -/
def skipLayout (text : List Char) : List Char :=
  text.dropWhile isLayout

/-- Read the rest of `null`, `true` or `false`. -/
def readWord : List Char → List Char → Except Fault (List Char)
  | [], rest => .ok rest
  | _ :: _, [] => .error (.at .endInValue [])
  | expected :: more, c :: rest =>
    if c = expected then readWord more rest else .error (.on .expectedIdent (c :: rest))

/-- The value of a hexadecimal digit in either case. -/
def hexValue? (c : Char) : Option Nat :=
  if '0' ≤ c ∧ c ≤ '9' then some (c.toNat - '0'.toNat)
  else if 'a' ≤ c ∧ c ≤ 'f' then some (c.toNat - 'a'.toNat + 10)
  else if 'A' ≤ c ∧ c ≤ 'F' then some (c.toNat - 'A'.toNat + 10)
  else none

def hexNumber? (a b c d : Char) : Option Nat := do
  return (((← hexValue? a) * 16 + (← hexValue? b)) * 16 + (← hexValue? c)) * 16 + (← hexValue? d)

/-- An escape takes the next four bytes, whatever they are, before they turn out to be no digits. -/
def Fault.inHex (text : List Char) : Fault :=
  if byteLength text < 4 then .placed .endInText 0
  else .placed .invalidEscape (byteLength text - 4)

def readHex : List Char → Reading Nat
  | a :: b :: c :: d :: rest =>
    match hexNumber? a b c d with
    | some n => .ok (n, rest)
    | none => .error (.inHex (a :: b :: c :: d :: rest))
  | text => .error (.inHex text)

theorem length_readHex {text rest : List Char} {n : Nat} (read : readHex text = .ok (n, rest)) :
    rest.length < text.length := by
  unfold readHex at read
  split at read
  · split at read
    · cases read
      simp only [List.length_cons]
      omega
    · cases read
  · cases read

/-- Whether a number is the second half of a surrogate pair. -/
def isTrailingSurrogate (n : Nat) : Bool :=
  0xdc00 ≤ n && n ≤ 0xdfff

/-- Whether a number is the first half of a surrogate pair. -/
def isLeadingSurrogate (n : Nat) : Bool :=
  0xd800 ≤ n && n ≤ 0xdbff

/-- Read the second escape of a surrogate pair. -/
def readTrailingSurrogate (leading : Nat) : List Char → Reading Char
  | [] => .error (.at .endInText [])
  | '\\' :: [] => .error (.at .endInText [])
  | '\\' :: 'u' :: digits =>
    match readHex digits with
    | .error fault => .error fault
    | .ok (trailing, rest) =>
      if isTrailingSurrogate trailing then
        .ok (Char.ofNat ((leading - 0xd800) * 0x400 + (trailing - 0xdc00) + 0x10000), rest)
      else .error (.at .loneSurrogate rest)
  | '\\' :: rest => .error (.on .endOfHexEscape rest)
  | rest => .error (.on .endOfHexEscape rest)

theorem length_readTrailingSurrogate {leading : Nat} {text rest : List Char} {c : Char}
    (read : readTrailingSurrogate leading text = .ok (c, rest)) : rest.length < text.length := by
  unfold readTrailingSurrogate at read
  split at read <;> try cases read
  split at read
  · cases read
  · rename_i hex
    split at read
    · simp only [Except.ok.injEq, Prod.mk.injEq] at read
      have := length_readHex hex
      rw [← read.2]
      simp only [List.length_cons]
      omega
    · cases read

/-- Read the number of an escape, or the two numbers of a surrogate pair. -/
def readNumberEscape (text : List Char) : Reading Char :=
  match readHex text with
  | .error fault => .error fault
  | .ok (n, rest) =>
    if isTrailingSurrogate n then .error (.at .loneSurrogate rest)
    else if isLeadingSurrogate n then readTrailingSurrogate n rest
    else .ok (Char.ofNat n, rest)

/-- The character of an escape that is a single letter. -/
def letterEscape? (c : Char) : Option Char :=
  if c = '"' then some '"'
  else if c = '\\' then some '\\'
  else if c = '/' then some '/'
  else if c = 'b' then some '\x08'
  else if c = 'f' then some '\x0c'
  else if c = 'n' then some '\n'
  else if c = 'r' then some '\r'
  else if c = 't' then some '\t'
  else none

/-- Read what follows a backslash. -/
def readEscape : List Char → Reading Char
  | [] => .error (.at .endInText [])
  | c :: rest =>
    match letterEscape? c with
    | some decoded => .ok (decoded, rest)
    | none => if c = 'u' then readNumberEscape rest else .error (.on .invalidEscape (c :: rest))

theorem length_readEscape {text rest : List Char} {c : Char}
    (read : readEscape text = .ok (c, rest)) : rest.length < text.length := by
  unfold readEscape at read
  split at read
  · cases read
  · split at read
    · cases read
      simp
    · split at read
      · unfold readNumberEscape at read
        split at read
        · cases read
        · rename_i hex
          have shorter := length_readHex hex
          split at read
          · cases read
          · split at read
            · have := length_readTrailingSurrogate read
              simp only [List.length_cons]
              omega
            · cases read
              simp only [List.length_cons]
              omega
      · cases read

/-- Read the rest of a text after its opening quote, onto the characters before, last first. -/
def readText (before : List Char) : List Char → Reading String
  | [] => .error (.at .endInText [])
  | '"' :: rest => .ok (String.ofList before.reverse, rest)
  | '\\' :: rest =>
    match _read : readEscape rest with
    | .error fault => .error fault
    | .ok (c, left) => readText (c :: before) left
  | c :: rest =>
    if c.toNat < 0x20 then .error (.at .controlCharacter rest) else readText (c :: before) rest
termination_by text => text.length
decreasing_by
  · have := length_readEscape _read
    simp only [List.length_cons]
    omega
  · simp

theorem length_readText {before text rest : List Char} {value : String}
    (read : readText before text = .ok (value, rest)) : rest.length < text.length := by
  induction before, text using readText.induct with
  | case1 => simp [readText] at read
  | case2 before left =>
    simp only [readText] at read
    cases read
    simp
  | case3 before left fault escape =>
    rw [readText, escape] at read
    cases read
  | case4 before left c more escape ih =>
    rw [readText, escape] at read
    have := ih read
    have := length_readEscape escape
    simp only [List.length_cons]
    omega
  | case5 before c left _ _ control =>
    rw [readText, if_pos control] at read
    · cases read
    all_goals assumption
  | case6 before c left _ _ plain ih =>
    rw [readText, if_neg plain] at read
    · have := ih read
      simp only [List.length_cons]
      omega
    all_goals assumption

def skipEscape : List Char → Except Fault (List Char)
  | [] => .error (.at .endInText [])
  | c :: rest =>
    match letterEscape? c with
    | some _ => .ok rest
    | none =>
      if c = 'u' then
        match readHex rest with
        | .error fault => .error fault
        | .ok (_, left) => .ok left
      else .error (.on .invalidEscape (c :: rest))

theorem length_skipEscape {text rest : List Char} (skip : skipEscape text = .ok rest) :
    rest.length < text.length := by
  unfold skipEscape at skip
  split at skip
  · cases skip
  · split at skip
    · cases skip
      simp
    · split at skip
      · split at skip
        · cases skip
        · rename_i hex
          cases skip
          have := length_readHex hex
          simp only [List.length_cons]
          omega
      · cases skip

/-- Skip the rest of a text after its opening quote. -/
def skipText : List Char → Except Fault (List Char)
  | [] => .error (.at .endInText [])
  | '"' :: rest => .ok rest
  | '\\' :: rest =>
    match _skip : skipEscape rest with
    | .error fault => .error fault
    | .ok left => skipText left
  | c :: rest =>
    if c.toNat < 0x20 then .error (.at .controlCharacter (c :: rest)) else skipText rest
termination_by text => text.length
decreasing_by
  · have := length_skipEscape _skip
    simp only [List.length_cons]
    omega
  · simp

theorem length_skipText {text rest : List Char} (skip : skipText text = .ok rest) :
    rest.length < text.length := by
  induction text using skipText.induct with
  | case1 => simp [skipText] at skip
  | case2 left =>
    simp only [skipText] at skip
    cases skip
    simp
  | case3 left fault escape =>
    rw [skipText, escape] at skip
    cases skip
  | case4 left more escape ih =>
    rw [skipText, escape] at skip
    have := ih skip
    have := length_skipEscape escape
    simp only [List.length_cons]
    omega
  | case5 c left _ _ control =>
    rw [skipText, if_pos control] at skip
    · cases skip
    all_goals assumption
  | case6 c left _ _ plain ih =>
    rw [skipText, if_neg plain] at skip
    · have := ih skip
      simp only [List.length_cons]
      omega
    all_goals assumption

end RibMap.Json
