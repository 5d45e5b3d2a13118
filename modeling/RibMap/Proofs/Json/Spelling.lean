import RibMap.Json.Value

/-! # The grammar of JSON

Which texts spell a value, said without any reader. Blanks may stand around every token, every
character of a text may be escaped in several ways, and a number is spelled as it stands in the
value. A list or an object is spelled item by item; what separates an item from the one before it
belongs to the item.
-/

namespace RibMap.Json

/-- Blanks as they may stand around tokens. -/
def Layout (text : List Char) : Prop :=
  ∀ c ∈ text, c ∈ [' ', '\n', '\t', '\r']

theorem layout_nil : Layout [] :=
  List.forall_mem_nil _

theorem layout_space : Layout [' '] :=
  List.forall_mem_singleton.mpr List.mem_cons_self

/-- A digit of base sixteen, in either case. -/
def SpellsDigit (c : Char) (digit : Nat) : Prop :=
  digit < 16 ∧ (c = Nat.digitChar digit ∨ c = (Nat.digitChar digit).toUpper)

instance (c : Char) (digit : Nat) : Decidable (SpellsDigit c digit) :=
  inferInstanceAs (Decidable (_ ∧ _))

/-- An escape by number: four digits of base sixteen. -/
inductive SpellsNumber : List Char → Nat → Prop
  | digits {a b c d : Char} {first second third fourth : Nat} :
    SpellsDigit a first → SpellsDigit b second → SpellsDigit c third → SpellsDigit d fourth →
    SpellsNumber ['\\', 'u', a, b, c, d] (((first * 16 + second) * 16 + third) * 16 + fourth)

/-- The letters that stand for a character behind a backslash. -/
def letterEscapes : List (Char × Char) :=
  [('"', '"'), ('\\', '\\'), ('/', '/'), ('b', '\x08'), ('f', '\x0c'), ('n', '\n'), ('r', '\r'),
    ('t', '\t')]

/-- The spellings of a character within a text. One beyond the first 65536 is escaped by the two
numbers of a surrogate pair. -/
inductive SpellsChar : List Char → Char → Prop
  | plain {c : Char} : c ≠ '"' → c ≠ '\\' → 0x20 ≤ c.toNat → SpellsChar [c] c
  | letter {letter c : Char} : (letter, c) ∈ letterEscapes → SpellsChar ['\\', letter] c
  | number {c : Char} {text : List Char} :
    c.toNat < 0x10000 → SpellsNumber text c.toNat → SpellsChar text c
  | pair {c : Char} {leading trailing : List Char} :
    0x10000 ≤ c.toNat →
    SpellsNumber leading (0xd800 + (c.toNat - 0x10000) / 0x400) →
    SpellsNumber trailing (0xdc00 + (c.toNat - 0x10000) % 0x400) →
    SpellsChar (leading ++ trailing) c

/-- The spellings of characters one after the other. -/
inductive SpellsChars : List Char → List Char → Prop
  | nil : SpellsChars [] []
  | cons {text rest cs : List Char} {c : Char} :
    SpellsChar text c → SpellsChars rest cs → SpellsChars (text ++ rest) (c :: cs)

/-- The spellings of a text, between quotes. -/
inductive SpellsText : List Char → String → Prop
  | quotes {body : List Char} {value : String} :
    SpellsChars body value.toList → SpellsText ('"' :: (body ++ ['"'])) value

/-- At least one digit. -/
def Digits (text : List Char) : Prop :=
  text ≠ [] ∧ ∀ c ∈ text, c.isDigit = true

/-- The digits of a number before its point; a zero stands alone. -/
inductive IsWhole : List Char → Prop
  | zero : IsWhole ['0']
  | digits {first : Char} {rest : List Char} :
    first ≠ '0' → Digits (first :: rest) → IsWhole (first :: rest)

/-- The fraction of a number, if it has one. -/
inductive IsFraction : List Char → Prop
  | none : IsFraction []
  | point {digits : List Char} : Digits digits → IsFraction ('.' :: digits)

/-- The exponent of a number, if it has one. -/
inductive IsExponent : List Char → Prop
  | none : IsExponent []
  | letter {letter : Char} {sign digits : List Char} :
    letter ∈ ['e', 'E'] → sign ∈ [[], ['+'], ['-']] → Digits digits →
    IsExponent (letter :: (sign ++ digits))

/-- The form of numbers. -/
inductive IsNumber : List Char → Prop
  | parts {sign whole fraction exponent : List Char} :
    sign ∈ [[], ['-']] → IsWhole whole → IsFraction fraction → IsExponent exponent →
    IsNumber (sign ++ (whole ++ (fraction ++ exponent)))

/-- What stands in front of the first item or member of a container, or of a later one. -/
inductive Lead : Bool → List Char → Prop
  | first {blank : List Char} : Layout blank → Lead true blank
  | later {before after : List Char} :
    Layout before → Layout after → Lead false (before ++ ',' :: after)

mutual

/-- The spellings of a value, from its first character to its last. -/
inductive Spells : List Char → Json → Prop
  | null : Spells "null".toList .null
  | yes : Spells "true".toList (.boolean true)
  | no : Spells "false".toList (.boolean false)
  | number {spelling : String} :
    IsNumber spelling.toList → Spells spelling.toList (.number spelling)
  | string {text : List Char} {value : String} : SpellsText text value → Spells text (.string value)
  | array {text : List Char} {items : List Json} :
    SpellsItems true text items → Spells ('[' :: (text ++ [']'])) (.array items)
  | object {text : List Char} {members : List (String × Json)} :
    SpellsMembers true text members → Spells ('\x7b' :: (text ++ ['\x7d'])) (.object members)

/-- The spellings of items up to the closing bracket, from the first item or from a later one on. -/
inductive SpellsItems : Bool → List Char → List Json → Prop
  | done {first : Bool} {blank : List Char} : Layout blank → SpellsItems first blank []
  | next {first : Bool} {lead text rest : List Char} {item : Json} {items : List Json} :
    Lead first lead → Spells text item → SpellsItems false rest items →
    SpellsItems first (lead ++ (text ++ rest)) (item :: items)

/-- The spellings of members up to the closing bracket. -/
inductive SpellsMembers : Bool → List Char → List (String × Json) → Prop
  | done {first : Bool} {blank : List Char} : Layout blank → SpellsMembers first blank []
  | next {first : Bool} {lead name before after text rest : List Char} {key : String}
      {value : Json} {members : List (String × Json)} :
    Lead first lead → SpellsText name key → Layout before → Layout after → Spells text value →
    SpellsMembers false rest members →
    SpellsMembers first (lead ++ (name ++ (before ++ ':' :: (after ++ (text ++ rest)))))
      ((key, value) :: members)

end

/-- A whole text spells a value with nothing but blanks around it. -/
inductive IsSpelledBy : Json → String → Prop
  | blanks {value : Json} {before spelling after : List Char} :
    Layout before → Spells spelling value → Layout after →
    IsSpelledBy value (String.ofList (before ++ (spelling ++ after)))

theorem Layout.append {blank blank' : List Char} (layout : Layout blank) (layout' : Layout blank') :
    Layout (blank ++ blank') :=
  List.forall_mem_append.mpr ⟨layout, layout'⟩

/-- Blanks behind a text change nothing. -/
theorem IsSpelledBy.append {value : Json} {text after : String} (spelled : value.IsSpelledBy text)
    (layout : Layout after.toList) : value.IsSpelledBy (text ++ after) := by
  obtain ⟨before, here, behind⟩ := spelled
  have whole := IsSpelledBy.blanks before here (behind.append layout)
  rwa [← List.append_assoc, ← List.append_assoc, String.ofList_append, String.ofList_toList,
    List.append_assoc] at whole

/-- The characters with which the spellings of a value start. -/
def StartsWith : Json → Char → Prop
  | null, c => c = 'n'
  | boolean true, c => c = 't'
  | boolean false, c => c = 'f'
  | number _, c => c = '-' ∨ c.isDigit = true
  | string _, c => c = '"'
  | array _, c => c = '['
  | object _, c => c = '\x7b'

theorem IsWhole.exists_cons {text : List Char} (whole : IsWhole text) :
    ∃ c rest, text = c :: rest ∧ c.isDigit = true := by
  cases whole with
  | zero => exact ⟨_, _, rfl, rfl⟩
  | digits _ digits => exact ⟨_, _, rfl, digits.2 _ List.mem_cons_self⟩

theorem IsNumber.exists_cons {text : List Char} (number : IsNumber text) :
    ∃ c rest, text = c :: rest ∧ (c = '-' ∨ c.isDigit = true) := by
  obtain ⟨signed, whole, -, -⟩ := number
  simp only [List.mem_cons, List.not_mem_nil, or_false] at signed
  rcases signed with rfl | rfl
  · obtain ⟨c, rest, rfl, digit⟩ := whole.exists_cons
    exact ⟨c, _, rfl, .inr digit⟩
  · exact ⟨_, _, rfl, .inl rfl⟩

/-- No spelling is empty, and its first character tells the kind of the value. -/
theorem Spells.exists_cons {text : List Char} {value : Json} (spelled : Spells text value) :
    ∃ c rest, text = c :: rest ∧ value.StartsWith c := by
  cases spelled with
  | number number => exact number.exists_cons
  | string spelled =>
    cases spelled
    exact ⟨_, _, rfl, rfl⟩
  | null | yes | no | array | object => exact ⟨_, _, rfl, rfl⟩

/-- No value starts with a blank or with a closing bracket. -/
theorem StartsWith.notMem {value : Json} {c : Char} (start : value.StartsWith c) :
    c ∉ [' ', '\n', '\t', '\r', ']', '\x7d'] := by
  intro mem
  cases value with
  | boolean value =>
    cases value <;> (cases start; contradiction)
  | number =>
    rcases start with rfl | digit
    · contradiction
    · simp only [List.mem_cons, List.not_mem_nil, or_false] at mem
      rcases mem with rfl | rfl | rfl | rfl | rfl | rfl <;> contradiction
  | null | string | array | object =>
    cases start
    contradiction

end RibMap.Json
