import RibMap.Reference.Json.Skip
import RibMap.Proofs.Reference.Json.SpelledNumber
import RibMap.Proofs.Reference.Json.SpelledText

/-! # Skipping spelled values

Skipping a spelled value ends exactly behind it, however deeply the value is nested. A container is
followed from one item or member to the next, whose value is skipped inside of one bracket more.
-/

namespace RibMap.Json

theorem isLayout_eq_true_iff {c : Char} : isLayout c = true ↔ c ∈ [' ', '\n', '\t', '\r'] := by
  simp only [isLayout, Bool.or_eq_true, decide_eq_true_eq, List.mem_cons, List.not_mem_nil,
    or_false, or_assoc]

theorem skipLayout_append {blank : List Char} (layout : Layout blank) (rest : List Char) :
    skipLayout (blank ++ rest) = skipLayout rest :=
  List.dropWhile_append_of_pos fun c mem => isLayout_eq_true_iff.mpr (layout c mem)

theorem skipLayout_cons {c : Char} (proper : c ∉ [' ', '\n', '\t', '\r']) (rest : List Char) :
    skipLayout (c :: rest) = c :: rest :=
  List.dropWhile_cons_of_neg fun layout => proper (isLayout_eq_true_iff.mp layout)

/-- Blanks are dropped up to a character that is none. -/
theorem skipLayout_append_cons {blank : List Char} {c : Char} (layout : Layout blank)
    (proper : c ∉ [' ', '\n', '\t', '\r']) (rest : List Char) :
    skipLayout (blank ++ c :: rest) = c :: rest := by
  rw [skipLayout_append layout, skipLayout_cons proper]

/-- What does not start a value does not start its spelling either. -/
theorem StartsWith.ne {value : Json} {c d : Char} (start : value.StartsWith c)
    (mem : d ∈ [' ', '\n', '\t', '\r', ']', '\x7d']) : c ≠ d := by
  rintro rfl
  exact start.notMem mem

theorem StartsWith.not_layout {value : Json} {c : Char} (start : value.StartsWith c) :
    c ∉ [' ', '\n', '\t', '\r'] := fun mem =>
  start.notMem (List.mem_append_left [']', '\x7d'] mem)

theorem Layout.followsValue {blank : List Char} (layout : Layout blank) : FollowsValue blank :=
  fun c head => List.mem_append_left [',', ']', '\x7d'] (layout c (List.mem_of_mem_head? head))

theorem followsValue_append_cons {blank : List Char} {c : Char} (layout : Layout blank)
    (mark : c ∈ [',', ']', '\x7d']) (rest : List Char) : FollowsValue (blank ++ c :: rest) := by
  intro first head
  cases blank with
  | nil =>
    cases head
    exact List.mem_append_right [' ', '\n', '\t', '\r'] mark
  | cons =>
    cases head
    exact List.mem_append_left [',', ']', '\x7d'] (layout first List.mem_cons_self)

theorem SpellsItems.followsValue {text : List Char} {items : List Json}
    (spelled : SpellsItems false text items) (rest : List Char) :
    FollowsValue (text ++ ']' :: rest) := by
  cases spelled with
  | done layout => exact followsValue_append_cons layout (by decide) rest
  | next lead =>
    cases lead with
    | later before after =>
      rw [List.append_assoc, List.append_assoc]
      exact followsValue_append_cons before (by decide) _

theorem SpellsMembers.followsValue {text : List Char} {members : List (String × Json)}
    (spelled : SpellsMembers false text members) (rest : List Char) :
    FollowsValue (text ++ '\x7d' :: rest) := by
  cases spelled with
  | done layout => exact followsValue_append_cons layout (by decide) rest
  | next lead =>
    cases lead with
    | later before after =>
      rw [List.append_assoc, List.append_assoc]
      exact followsValue_append_cons before (by decide) _

theorem readColon_append {blank : List Char} (layout : Layout blank) (rest : List Char) :
    readColon (blank ++ ':' :: rest) = .ok rest := by
  simp only [readColon, skipLayout_append_cons layout (c := ':') (by decide), ↓reduceIte]

theorem skipHead_append {blank : List Char} (layout : Layout blank) (rest : List Char) :
    skipHead (blank ++ rest) = skipHead rest := by
  simp only [skipHead, skipLayout_append layout]

/-- Blanks in front of a value are skipped with it. -/
theorem skipFrom_value_append {blank : List Char} (layout : Layout blank) (around : List Bracket)
    (rest : List Char) :
    skipFrom .value around (blank ++ rest) = skipFrom .value around rest := by
  rw [skipFrom, skipFrom, skipHead_append layout]

/-- Skip from the place in front of an item or member that is the first one or a later one. -/
def skipMore (bracket : Bracket) (around : List Bracket) :
    Bool → List Char → Except Fault (List Char)
  | true => skipFrom (.opened bracket) around
  | false => skipFrom .after (bracket :: around)

/-- A closing bracket ends a container, whether it has items or not. -/
theorem skipMore_closing {blank : List Char} (layout : Layout blank) (bracket : Bracket)
    (around : List Bracket) (first : Bool) (rest : List Char) :
    skipMore bracket around first (blank ++ bracket.closing :: rest) =
      skipFrom .after around rest := by
  have proper : bracket.closing ∉ [' ', '\n', '\t', '\r'] := by cases bracket <;> decide
  have noComma : bracket.closing ≠ ',' := by cases bracket <;> decide
  cases first with
  | true =>
    have opening : skipOpening bracket (blank ++ bracket.closing :: rest) = .ok (.closed rest) := by
      simp only [skipOpening, skipLayout_append_cons layout proper, ↓reduceIte]
    rw [skipMore, skipFrom, opening]
  | false =>
    have separator :
        skipSeparator bracket (blank ++ bracket.closing :: rest) = .ok (.closed rest) := by
      simp only [skipSeparator, skipLayout_append_cons layout proper, noComma, ↓reduceIte]
    rw [skipMore, skipFrom, separator]

/-- What stands in front of an item or member leads to its value. -/
theorem skipMore_lead {first : Bool} {lead : List Char} (leads : Lead first lead)
    {bracket : Bracket} {c : Char} {left text : List Char}
    (proper : c ∉ [' ', '\n', '\t', '\r']) (notClosing : c ≠ bracket.closing)
    (toValue : ∀ blank, Layout blank →
      ∃ after, Layout after ∧ skipToValue bracket (blank ++ c :: left) = .ok (after ++ text))
    (around : List Bracket) :
    skipMore bracket around first (lead ++ c :: left) =
      skipFrom .value (bracket :: around) text := by
  cases leads with
  | first layout =>
    obtain ⟨after, layout', found⟩ := toValue [] layout_nil
    rw [List.nil_append] at found
    have opening : skipOpening bracket (lead ++ c :: left) = .ok (.value (after ++ text)) := by
      simp only [skipOpening, skipLayout_append_cons layout proper, notClosing, found, Except.map,
        ↓reduceIte]
    rw [skipMore, ← skipFrom_value_append layout' _ text]
    conv => lhs; rw [skipFrom, opening]
  | @later before between layout layout' =>
    obtain ⟨after, layout', found⟩ := toValue between layout'
    have comma : ',' ∉ [' ', '\n', '\t', '\r'] := by decide
    have separator :
        skipSeparator bracket (before ++ ',' :: between ++ c :: left) =
          .ok (.value (after ++ text)) := by
      rw [List.append_assoc, List.cons_append]
      simp only [skipSeparator, skipLayout_append_cons layout comma, found, Except.map, ↓reduceIte]
    rw [skipMore, ← skipFrom_value_append layout' _ text]
    conv => lhs; rw [skipFrom, separator]

/-- The value of an item follows what stands in front of the item. -/
theorem skipMore_item {first : Bool} {lead text : List Char} {item : Json}
    (leads : Lead first lead) (spelled : Spells text item) (around : List Bracket)
    (rest : List Char) :
    skipMore .list around first (lead ++ (text ++ rest)) =
      skipFrom .value (.list :: around) (text ++ rest) := by
  obtain ⟨c, left, rfl, start⟩ := spelled.exists_cons
  exact skipMore_lead leads start.not_layout (start.ne (by decide))
    (fun blank layout => ⟨blank, layout, rfl⟩) around

/-- The value of a member follows its key and a colon. -/
theorem skipMore_member {first : Bool} {lead name before after : List Char} {key : String}
    (leads : Lead first lead) (named : SpellsText name key) (layout : Layout before)
    (layout' : Layout after) (around : List Bracket) (rest : List Char) :
    skipMore .object around first (lead ++ (name ++ (before ++ ':' :: (after ++ rest)))) =
      skipFrom .value (.object :: around) rest := by
  obtain ⟨body, rfl, read⟩ := read_of_spellsText named
  have quote : '"' ∉ [' ', '\n', '\t', '\r'] := by decide
  rw [List.cons_append]
  refine skipMore_lead leads quote (by decide) (fun blank layout'' => ?_) around
  refine ⟨after, layout', ?_⟩
  simp only [skipToValue, skipLayout_append_cons layout'' quote, (read _).2,
    readColon_append layout, ↓reduceIte]

/-- Skipping goes on behind a scalar. -/
theorem skipFrom_of_skipHead {text rest : List Char} {around : List Bracket}
    (head : skipHead text = .ok (none, rest)) :
    skipFrom .value around text = skipFrom .after around rest := by
  rw [skipFrom, head]

theorem skipHead_word {c : Char} {word rest : List Char}
    (known : c = 'n' ∧ word = ['u', 'l', 'l'] ∨ c = 't' ∧ word = ['r', 'u', 'e'] ∨
      c = 'f' ∧ word = ['a', 'l', 's', 'e']) :
    skipHead (c :: (word ++ rest)) = .ok (none, rest) := by
  rcases known with ⟨rfl, rfl⟩ | ⟨rfl, rfl⟩ | ⟨rfl, rfl⟩ <;> rfl

theorem skipHead_number {text rest : List Char} (number : IsNumber text)
    (follows : FollowsValue rest) : skipHead (text ++ rest) = .ok (none, rest) := by
  obtain ⟨signed, whole, fraction, exponent⟩ := number
  have skip := skipNumber_of_parts whole fraction exponent follows
  obtain ⟨c, left, rfl, digit⟩ := whole.exists_cons
  simp only [List.mem_cons, List.not_mem_nil, or_false] at signed
  rcases signed with rfl | rfl
  · have ne {d : Char} (noDigit : d.isDigit = false) : c ≠ d := by
      rintro rfl
      rw [noDigit] at digit
      contradiction
    have layout : c ∉ [' ', '\n', '\t', '\r'] := by
      simp only [List.mem_cons, List.not_mem_nil, or_false, not_or]
      exact ⟨ne rfl, ne rfl, ne rfl, ne rfl⟩
    simp only [List.nil_append, List.cons_append, List.append_assoc] at skip ⊢
    simp only [skipHead, skipLayout_cons layout, isSome_digitValue?, digit, skip, Except.map,
      ne (d := 'n') rfl, ne (d := 't') rfl, ne (d := 'f') rfl, ne (d := '-') rfl, ↓reduceIte]
  · simp only [List.cons_append, List.nil_append, List.append_assoc] at skip ⊢
    have layout : '-' ∉ [' ', '\n', '\t', '\r'] := by decide
    have ne : '-' ≠ 'n' ∧ '-' ≠ 't' ∧ '-' ≠ 'f' := by decide
    simp only [skipHead, skipLayout_cons layout, ne, skip, Except.map, ↓reduceIte]

theorem skipHead_text {text rest : List Char} {value : String} (spelled : SpellsText text value) :
    skipHead (text ++ rest) = .ok (none, rest) := by
  obtain ⟨body, rfl, read⟩ := read_of_spellsText spelled
  have head : skipHead ('"' :: (body ++ rest)) = (skipText (body ++ rest)).map (none, ·) := rfl
  rw [List.cons_append, head, (read rest).2]
  rfl

mutual

/-- Skipping a value ends behind its spelling. -/
theorem skipFrom_of_spells {text : List Char} {value : Json} (spelled : Spells text value)
    (around : List Bracket) {rest : List Char} (follows : FollowsValue rest) :
    skipFrom .value around (text ++ rest) = skipFrom .after around rest := by
  cases spelled with
  | null => exact skipFrom_of_skipHead (skipHead_word (by decide))
  | yes => exact skipFrom_of_skipHead (skipHead_word (by decide))
  | no => exact skipFrom_of_skipHead (skipHead_word (by decide))
  | number number => exact skipFrom_of_skipHead (skipHead_number number follows)
  | string spelled => exact skipFrom_of_skipHead (skipHead_text spelled)
  | @array text items spelled =>
    have inside := skipMore_of_spellsItems spelled around rest
    have head : skipHead ('[' :: (text ++ ']' :: rest)) = .ok (some .list, text ++ ']' :: rest) :=
      rfl
    rw [List.cons_append, List.append_assoc, List.singleton_append, skipFrom, head]
    exact inside
  | @object text members spelled =>
    have inside := skipMore_of_spellsMembers spelled around rest
    have head : skipHead ('\x7b' :: (text ++ '\x7d' :: rest)) =
        .ok (some .object, text ++ '\x7d' :: rest) :=
      rfl
    rw [List.cons_append, List.append_assoc, List.singleton_append, skipFrom, head]
    exact inside

theorem skipMore_of_spellsItems {first : Bool} {text : List Char} {items : List Json}
    (spelled : SpellsItems first text items) (around : List Bracket) (rest : List Char) :
    skipMore .list around first (text ++ ']' :: rest) = skipFrom .after around rest := by
  cases spelled with
  | done layout => exact skipMore_closing layout .list around first rest
  | next lead item more =>
    -- The brackets around the item are those around the list and the one of the list itself.
    have value := skipFrom_of_spells item (.list :: around) (more.followsValue rest)
    have others := skipMore_of_spellsItems more around rest
    rw [List.append_assoc, List.append_assoc, skipMore_item lead item, value]
    exact others

theorem skipMore_of_spellsMembers {first : Bool} {text : List Char}
    {members : List (String × Json)} (spelled : SpellsMembers first text members)
    (around : List Bracket) (rest : List Char) :
    skipMore .object around first (text ++ '\x7d' :: rest) = skipFrom .after around rest := by
  cases spelled with
  | done layout => exact skipMore_closing layout .object around first rest
  | next lead named layout layout' value more =>
    have skipped := skipFrom_of_spells value (.object :: around) (more.followsValue rest)
    have others := skipMore_of_spellsMembers more around rest
    simp only [List.append_assoc, List.cons_append]
    rw [skipMore_member lead named layout layout', skipped]
    exact others

end

/-- A spelled value is skipped with the blanks in front of it. -/
theorem skipValue_of_spells {blank text rest : List Char} {value : Json} (layout : Layout blank)
    (spelled : Spells text value) (follows : FollowsValue rest) :
    skipValue (blank ++ (text ++ rest)) = .ok rest := by
  rw [skipValue, skipFrom_value_append layout, skipFrom_of_spells spelled [] follows, skipFrom]

end RibMap.Json
