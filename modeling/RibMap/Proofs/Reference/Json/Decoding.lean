import RibMap.Reference.Json.Reader
import RibMap.Proofs.Json.Decoding
import RibMap.Proofs.Reference.Json.SpelledValue

/-! # Decoding values

A decoder takes a JSON value, where a reader takes its spelling. A reader agrees with a decoder if
on every spelling of a value it yields what the decoder does and stops behind the spelling, or fails
if the decoder refuses the value. Readers of parts that agree with decoders make readers of the
whole that do.
-/

namespace RibMap.Json

/-- A reader agrees with a decoder on everything that spells a value. -/
def Reader.Decodes (reader : Reader α) (decode : Decoder α) : Prop :=
  ∀ {blank text rest : List Char} {value : Json}, Layout blank → Spells text value →
    FollowsValue rest →
    (reader.read (blank ++ (text ++ rest))).toOption = (decode value).map (·, rest)

/-- A reading that agrees with a decoder fails where the decoder refuses, and else yields the same
value and stops at the same place. -/
theorem reading_cases {reading : Reading α} {value? : Option α} {rest : List Char}
    (agrees : reading.toOption = value?.map (·, rest)) :
    (∃ fault, reading = .error fault ∧ value? = none) ∨
      ∃ value, reading = .ok (value, rest) ∧ value? = some value := by
  cases reading with
  | error fault =>
    have refused : value? = none := Option.map_eq_none_iff.mp agrees.symm
    exact .inl ⟨fault, rfl, refused⟩
  | ok read =>
    obtain ⟨value, decoded, rfl⟩ := Option.map_eq_some_iff.mp agrees.symm
    exact .inr ⟨value, rfl, decoded⟩

/-- What a reader makes of a spelled value without blanks in front. -/
theorem Reader.Decodes.cases {reader : Reader α} {decode : Decoder α}
    (agrees : reader.Decodes decode) {text rest : List Char} {value : Json}
    (spelled : Spells text value) (follows : FollowsValue rest) :
    (∃ fault, reader.read (text ++ rest) = .error fault ∧ decode value = none) ∨
      ∃ found, reader.read (text ++ rest) = .ok (found, rest) ∧ decode value = some found :=
  reading_cases (agrees layout_nil spelled follows)

/-- Blanks in front of a spelled value are dropped. -/
theorem Spells.skipLayout_eq {blank text : List Char} {value : Json} (spelled : Spells text value)
    (layout : Layout blank) (rest : List Char) :
    skipLayout (blank ++ (text ++ rest)) = text ++ rest := by
  obtain ⟨c, left, rfl, start⟩ := spelled.exists_cons
  exact skipLayout_append_cons layout start.not_layout (left ++ rest)

/-- The first character of a spelling tells `null`, texts, lists and objects from all else. -/
theorem StartsWith.marks {value : Json} {c : Char} (start : value.StartsWith c) :
    (c = 'n' ↔ value = .null) ∧ (c = '"' ↔ ∃ text, value = .string text) ∧
      (c = '[' ↔ ∃ items, value = .array items) ∧
      (c = '\x7b' ↔ ∃ members, value = .object members) := by
  cases value with
  | boolean value => cases value <;> (cases start; simp)
  | number =>
    have ne {d : Char} (other : d ≠ '-') (noDigit : d.isDigit = false) : c ≠ d := by
      rintro rfl
      rcases start with same | digit
      · exact other same
      · exact absurd digit (Bool.eq_false_iff.mp noDigit)
    simp [ne (d := 'n') (by decide) rfl, ne (d := '"') (by decide) rfl,
      ne (d := '[') (by decide) rfl, ne (d := '\x7b') (by decide) rfl]
  | null | string | array | object =>
    cases start
    simp

theorem textReader_decodes : textReader.Decodes decodeText := by
  intro blank text rest value layout spelled follows
  obtain ⟨c, left, same, start⟩ := spelled.exists_cons
  obtain ⟨-, quote, -⟩ := start.marks
  change (readTextAs "a string" (blank ++ (text ++ rest))).toOption = _
  rw [readTextAs, spelled.skipLayout_eq layout]
  cases value with
  | string value =>
    cases spelled with
    | string spelled =>
      obtain ⟨body, rfl, read⟩ := read_of_spellsText spelled
      simp only [List.cons_append, (read rest).1]
      rfl
  | null | boolean | number | array | object =>
    have other : c ≠ '"' := by simp [quote]
    rw [same, List.cons_append]
    split
    · rename_i found
      cases found
      contradiction
    · rfl

theorem Reader.Decodes.optional {reader : Reader α} {decode : Decoder α}
    (agrees : reader.Decodes decode) : reader.optional.Decodes decode.optional := by
  intro blank text rest value layout spelled follows
  obtain ⟨c, left, same, start⟩ := spelled.exists_cons
  obtain ⟨null, -⟩ := start.marks
  simp only [Reader.optional, spelled.skipLayout_eq layout]
  by_cases isNull : c = 'n'
  · obtain rfl := null.mp isNull
    cases spelled
    rfl
  · have proper : decode.optional value = (decode value).map some := by
      cases value with
      | null => exact absurd rfl (mt null.mpr isNull)
      | _ => rfl
    rw [proper]
    split
    · rename_i found
      rw [same] at found
      cases found
      contradiction
    · rcases agrees.cases spelled follows with ⟨fault, failed, refused⟩ | ⟨found, done, decoded⟩
      · simp only [failed, refused]
        rfl
      · simp only [done, decoded]
        rfl

/-- What is in front of an item leads to its first character. -/
theorem nextItem_of_lead {first : Bool} {lead text : List Char} {item : Json}
    (leads : Lead first lead) (spelled : Spells text item) (rest : List Char) :
    nextItem first (lead ++ (text ++ rest)) = .ok (some (text ++ rest)) := by
  obtain ⟨c, left, rfl, start⟩ := spelled.exists_cons
  have proper := start.not_layout
  have notClosing : c ≠ ']' := start.ne (by decide)
  cases leads with
  | first layout =>
    simp only [List.cons_append, nextItem, skipLayout_append_cons layout proper, notClosing,
      ↓reduceIte]
  | later layout layout' =>
    have comma : ',' ∉ [' ', '\n', '\t', '\r'] ∧ ',' ≠ ']' := by decide
    simp only [List.append_assoc, List.cons_append, nextItem,
      skipLayout_append_cons layout comma.1, skipLayout_append_cons layout' proper, notClosing,
      comma.2, Bool.false_eq_true, ↓reduceIte]

theorem nextItem_of_layout {blank : List Char} (layout : Layout blank) (first : Bool)
    (rest : List Char) : nextItem first (blank ++ ']' :: rest) = .ok none := by
  simp only [nextItem, skipLayout_append_cons (c := ']') layout (by decide), ↓reduceIte]

/-- Items are read one by one up to the blanks in front of the closing bracket. -/
theorem readItems_of_spellsItems {reader : Reader α} {decode : Decoder α}
    (agrees : reader.Decodes decode) {first : Bool} {text : List Char} {items : List Json}
    (spelled : SpellsItems first text items) (rest : List Char) :
    ∃ blank, Layout blank ∧
      (readItems reader first (text ++ ']' :: rest)).toOption =
        (items.mapM decode).map (·, blank ++ ']' :: rest) := by
  induction items generalizing first text with
  | nil =>
    cases spelled with
    | done layout =>
      refine ⟨text, layout, ?_⟩
      rw [readItems, nextItem_of_layout layout]
      rfl
  | cons item items ih =>
    cases spelled with
    | @next _ lead text left _ _ leads spelled more =>
      obtain ⟨blank, layout, others⟩ := ih more
      refine ⟨blank, layout, ?_⟩
      rw [List.append_assoc, List.append_assoc, readItems, nextItem_of_lead leads spelled]
      dsimp only
      rcases agrees.cases spelled (more.followsValue rest) with
        ⟨fault, failed, refused⟩ | ⟨value, done, decoded⟩
      · rw [failed, List.mapM_cons, refused]
        rfl
      · rw [done, List.mapM_cons, decoded]
        rcases reading_cases others with ⟨fault, failed, refused⟩ | ⟨values, done', decoded'⟩
        · simp only [failed, refused]
          rfl
        · simp only [done', decoded']
          rfl

/-- Looking for a closing bracket ends a reading where the bracket stands. -/
theorem toOption_closeWith {close : List Char → Closing} {reading : Reading α} {value? : Option α}
    {text rest : List Char} (agrees : reading.toOption = value?.map (·, text))
    (closed : close text = (rest, none)) :
    (closeWith close reading).toOption = value?.map (·, rest) := by
  rcases reading_cases agrees with ⟨fault, rfl, rfl⟩ | ⟨value, rfl, rfl⟩
  · cases fault <;> rfl
  · rw [closeWith, closed]
    rfl

theorem closeList_of_layout {blank : List Char} (layout : Layout blank) (rest : List Char) :
    closeList (blank ++ ']' :: rest) = (rest, none) := by
  simp only [closeList, skipLayout_append_cons (c := ']') layout (by decide), ↓reduceIte]

theorem closeObject_of_layout {blank : List Char} (layout : Layout blank) (rest : List Char) :
    closeObject (blank ++ '\x7d' :: rest) = (rest, none) := by
  simp only [closeObject, skipLayout_append_cons (c := '\x7d') layout (by decide), ↓reduceIte]

theorem Reader.Decodes.list {reader : Reader α} {decode : Decoder α}
    (agrees : reader.Decodes decode) : reader.list.Decodes decode.list := by
  intro blank text rest value layout spelled follows
  obtain ⟨c, left, same, start⟩ := spelled.exists_cons
  obtain ⟨-, -, bracket, -⟩ := start.marks
  simp only [Reader.list, spelled.skipLayout_eq layout]
  cases value with
  | array items =>
    cases spelled with
    | array spelled =>
      obtain ⟨blank, layout, read⟩ := readItems_of_spellsItems agrees spelled rest
      simp only [List.cons_append, List.append_assoc, List.nil_append]
      exact toOption_closeWith read (closeList_of_layout layout rest)
  | null | boolean | number | string | object =>
    have other : c ≠ '[' := by simp [bracket]
    rw [same, List.cons_append]
    split
    · rename_i found
      cases found
      contradiction
    · rfl

/-- A whole text that spells a value is read as the value is decoded. -/
theorem Reader.Decodes.toOption_parse {reader : Reader α} {decode : Decoder α}
    (agrees : reader.Decodes decode) {value : Json} {text : String}
    (spelled : value.IsSpelledBy text) : (reader.parse text).toOption = decode value := by
  obtain ⟨layout, spelled, layout'⟩ := spelled
  rename_i after
  have ended : skipLayout after = [] := by
    rw [← List.append_nil after, skipLayout_append layout']
    rfl
  rw [Reader.parse, String.toList_ofList]
  rcases reading_cases (agrees layout spelled layout'.followsValue) with
    ⟨fault, failed, refused⟩ | ⟨found, done, decoded⟩
  · simp only [failed, refused]
    rfl
  · simp only [done, decoded, ended]
    rfl

end RibMap.Json
