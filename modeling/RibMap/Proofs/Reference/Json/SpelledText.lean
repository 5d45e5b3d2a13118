import RibMap.Reference.Json.Scalar
import RibMap.Proofs.Json.Spelling

/-! # Reading spelled texts

A text is read, and likewise skipped, exactly up to its closing quote, and reading decodes every
escape. Both readers take the spelling of one character at a time.
-/

namespace RibMap.Json

theorem hexValue?_of_spellsDigit {c : Char} {digit : Nat} (spelled : SpellsDigit c digit) :
    hexValue? c = some digit := by
  obtain ⟨small, spelled⟩ := spelled
  have lower : ∀ n < 16, hexValue? (Nat.digitChar n) = some n := by decide
  have upper : ∀ n < 16, hexValue? (Nat.digitChar n).toUpper = some n := by decide
  rcases spelled with rfl | rfl
  · exact lower digit small
  · exact upper digit small

/-- The digits behind `\u` are read as their number. -/
theorem readHex_of_spellsNumber {text : List Char} {number : Nat}
    (spelled : SpellsNumber text number) :
    ∃ digits, text = '\\' :: 'u' :: digits ∧
      ∀ rest, readHex (digits ++ rest) = .ok (number, rest) := by
  obtain ⟨first, second, third, fourth⟩ := spelled
  refine ⟨_, rfl, fun rest => ?_⟩
  simp only [List.cons_append, List.nil_append, readHex, hexNumber?,
    hexValue?_of_spellsDigit first, hexValue?_of_spellsDigit second,
    hexValue?_of_spellsDigit third, hexValue?_of_spellsDigit fourth, Option.bind_eq_bind,
    Option.bind_some, Option.pure_def]

theorem letterEscape?_of_mem {letter c : Char} (mem : (letter, c) ∈ letterEscapes) :
    letterEscape? letter = some c := by
  simp only [letterEscapes, List.mem_cons, Prod.mk.injEq, List.not_mem_nil, or_false] at mem
  rcases mem with ⟨rfl, rfl⟩ | ⟨rfl, rfl⟩ | ⟨rfl, rfl⟩ | ⟨rfl, rfl⟩ | ⟨rfl, rfl⟩ | ⟨rfl, rfl⟩ |
    ⟨rfl, rfl⟩ | ⟨rfl, rfl⟩ <;> rfl

theorem toNat_valid (c : Char) :
    c.toNat < 0xd800 ∨ 0xdfff < c.toNat ∧ c.toNat < 0x110000 :=
  c.valid

/-- An escape by number is read as the character with that number. -/
theorem readEscape_of_number {text : List Char} {c : Char} (spelled : SpellsNumber text c.toNat) :
    ∃ escape, text = '\\' :: escape ∧ ∀ rest, readEscape (escape ++ rest) = .ok (c, rest) := by
  obtain ⟨digits, rfl, read⟩ := readHex_of_spellsNumber spelled
  have trailing : isTrailingSurrogate c.toNat = false := by
    have := toNat_valid c
    simp only [isTrailingSurrogate, Bool.and_eq_false_iff, decide_eq_false_iff_not]
    omega
  have leading : isLeadingSurrogate c.toNat = false := by
    have := toNat_valid c
    simp only [isLeadingSurrogate, Bool.and_eq_false_iff, decide_eq_false_iff_not]
    omega
  refine ⟨_, rfl, fun rest => ?_⟩
  have letter : letterEscape? 'u' = none := rfl
  simp only [List.cons_append, readEscape, letter, readNumberEscape, read, trailing, leading,
    Char.ofNat_toNat, Bool.false_eq_true, ↓reduceIte]

/-- The two halves of a surrogate pair are read as one character. -/
theorem readEscape_of_pair {leading trailing : List Char} {c : Char} (beyond : 0x10000 ≤ c.toNat)
    (spelled : SpellsNumber leading (0xd800 + (c.toNat - 0x10000) / 0x400))
    (spelled' : SpellsNumber trailing (0xdc00 + (c.toNat - 0x10000) % 0x400)) :
    ∃ escape, leading ++ trailing = '\\' :: escape ∧
      ∀ rest, readEscape (escape ++ rest) = .ok (c, rest) := by
  obtain ⟨digits, rfl, read⟩ := readHex_of_spellsNumber spelled
  obtain ⟨digits', rfl, read'⟩ := readHex_of_spellsNumber spelled'
  have valid := toNat_valid c
  have notTrailing : isTrailingSurrogate (0xd800 + (c.toNat - 0x10000) / 0x400) = false := by
    simp only [isTrailingSurrogate, Bool.and_eq_false_iff, decide_eq_false_iff_not]
    omega
  have isLeading : isLeadingSurrogate (0xd800 + (c.toNat - 0x10000) / 0x400) = true := by
    simp only [isLeadingSurrogate, Bool.and_eq_true, decide_eq_true_eq]
    omega
  have isTrailing : isTrailingSurrogate (0xdc00 + (c.toNat - 0x10000) % 0x400) = true := by
    simp only [isTrailingSurrogate, Bool.and_eq_true, decide_eq_true_eq]
    omega
  -- The halves hold the two parts of the number less the first one that needs a pair.
  have together : (0xd800 + (c.toNat - 0x10000) / 0x400 - 0xd800) * 0x400 +
      (0xdc00 + (c.toNat - 0x10000) % 0x400 - 0xdc00) + 0x10000 = c.toNat := by
    omega
  refine ⟨'u' :: (digits ++ '\\' :: 'u' :: digits'), rfl, fun rest => ?_⟩
  have letter : letterEscape? 'u' = none := rfl
  simp only [List.cons_append, List.append_assoc, readEscape, letter, readNumberEscape, read,
    notTrailing, isLeading, readTrailingSurrogate, read', isTrailing, together, Char.ofNat_toNat,
    Bool.false_eq_true, ↓reduceIte]

theorem readText_of_readEscape {before escape rest : List Char} {c : Char}
    (read : readEscape escape = .ok (c, rest)) :
    readText before ('\\' :: escape) = readText (c :: before) rest := by
  rw [readText, read]

theorem readText_of_plain {before rest : List Char} {c : Char} (quote : c ≠ '"')
    (backslash : c ≠ '\\') (printable : 0x20 ≤ c.toNat) :
    readText before (c :: rest) = readText (c :: before) rest := by
  rw [readText, if_neg (Nat.not_lt.mpr printable)]
  · exact quote
  · exact backslash

theorem skipText_of_skipEscape {escape rest : List Char} (skip : skipEscape escape = .ok rest) :
    skipText ('\\' :: escape) = skipText rest := by
  rw [skipText, skip]

theorem skipText_of_plain {rest : List Char} {c : Char} (quote : c ≠ '"') (backslash : c ≠ '\\')
    (printable : 0x20 ≤ c.toNat) : skipText (c :: rest) = skipText rest := by
  rw [skipText, if_neg (Nat.not_lt.mpr printable)]
  · exact quote
  · exact backslash

/-- Reading takes the spelling of a character as a whole. -/
theorem readText_of_spellsChar {text : List Char} {c : Char} (spelled : SpellsChar text c)
    (before rest : List Char) : readText before (text ++ rest) = readText (c :: before) rest := by
  cases spelled with
  | plain quote backslash printable => exact readText_of_plain quote backslash printable
  | @letter letter _ mem =>
    have read : readEscape (letter :: rest) = .ok (c, rest) := by
      simp only [readEscape, letterEscape?_of_mem mem]
    exact readText_of_readEscape read
  | number _ number =>
    obtain ⟨escape, rfl, read⟩ := readEscape_of_number number
    exact readText_of_readEscape (read rest)
  | pair beyond leading trailing =>
    obtain ⟨escape, same, read⟩ := readEscape_of_pair beyond leading trailing
    rw [same]
    exact readText_of_readEscape (read rest)

theorem skipText_of_spellsNumber {text : List Char} {number : Nat}
    (spelled : SpellsNumber text number) (rest : List Char) :
    skipText (text ++ rest) = skipText rest := by
  obtain ⟨digits, rfl, read⟩ := readHex_of_spellsNumber spelled
  have letter : letterEscape? 'u' = none := rfl
  have skip : skipEscape ('u' :: (digits ++ rest)) = .ok rest := by
    simp only [skipEscape, letter, read, ↓reduceIte]
  exact skipText_of_skipEscape skip

/-- Skipping takes the two halves of a surrogate pair one after the other. -/
theorem skipText_of_spellsChar {text : List Char} {c : Char} (spelled : SpellsChar text c)
    (rest : List Char) : skipText (text ++ rest) = skipText rest := by
  cases spelled with
  | plain quote backslash printable => exact skipText_of_plain quote backslash printable
  | @letter letter _ mem =>
    have skip : skipEscape (letter :: rest) = .ok rest := by
      simp only [skipEscape, letterEscape?_of_mem mem]
    exact skipText_of_skipEscape skip
  | number _ number => exact skipText_of_spellsNumber number rest
  | pair _ leading trailing =>
    rw [List.append_assoc, skipText_of_spellsNumber leading, skipText_of_spellsNumber trailing]

theorem readText_of_spellsChars {body cs : List Char} (spelled : SpellsChars body cs)
    (before rest : List Char) :
    readText before (body ++ '"' :: rest) = .ok (String.ofList (before.reverse ++ cs), rest) := by
  induction spelled generalizing before with
  | nil => rw [List.nil_append, readText, List.append_nil]
  | cons first _ ih =>
    rw [List.append_assoc, readText_of_spellsChar first, ih, List.reverse_cons, List.append_assoc]
    rfl

theorem skipText_of_spellsChars {body cs : List Char} (spelled : SpellsChars body cs)
    (rest : List Char) : skipText (body ++ '"' :: rest) = .ok rest := by
  induction spelled with
  | nil => rw [List.nil_append, skipText]
  | cons first _ ih => rw [List.append_assoc, skipText_of_spellsChar first, ih]

/-- A spelled text is read as the text and taken up to its closing quote, also by skipping. -/
theorem read_of_spellsText {text : List Char} {value : String} (spelled : SpellsText text value) :
    ∃ body, text = '"' :: body ∧ ∀ rest,
      readText [] (body ++ rest) = .ok (value, rest) ∧ skipText (body ++ rest) = .ok rest := by
  obtain ⟨spelled⟩ := spelled
  refine ⟨_, rfl, fun rest => ?_⟩
  rw [List.append_assoc, List.singleton_append, readText_of_spellsChars spelled,
    skipText_of_spellsChars spelled, List.reverse_nil, List.nil_append, String.ofList_toList]
  exact ⟨rfl, rfl⟩

end RibMap.Json
