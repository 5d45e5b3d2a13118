import RibMap.Proofs.Reference.Json.SpelledValue

/-! # The grammar is unambiguous

A text spells one value at most. Where a spelling ends does not depend on what it is taken to spell,
because skipping finds its end; so two readings of a list cut it into items at the same places, and
two readings of an object cut it into the same names and values.
-/

namespace RibMap.Json

/-- Two spellings of values at the start of one text end at the same place. -/
theorem Spells.eq_of_append {text text' rest rest' : List Char} {value value' : Json}
    (spelled : Spells text value) (spelled' : Spells text' value') (follows : FollowsValue rest)
    (follows' : FollowsValue rest') (same : text ++ rest = text' ++ rest') :
    text = text' ∧ rest = rest' := by
  have skipped := skipValue_of_spells layout_nil spelled follows
  have skipped' := skipValue_of_spells layout_nil spelled' follows'
  rw [List.nil_append, same] at skipped
  obtain rfl : rest' = rest := Except.ok.inj (skipped'.symm.trans skipped)
  exact ⟨List.append_cancel_right same, rfl⟩

/-- The same within a list or an object, whose closing bracket follows. -/
theorem Spells.eq_of_append_closing {text text' rest rest' : List Char} {value value' : Json}
    {bracket : Char} (spelled : Spells text value) (spelled' : Spells text' value')
    (follows : FollowsValue (rest ++ [bracket])) (follows' : FollowsValue (rest' ++ [bracket]))
    (same : text ++ rest = text' ++ rest') : text = text' ∧ rest = rest' := by
  have closed : text ++ (rest ++ [bracket]) = text' ++ (rest' ++ [bracket]) := by
    rw [← List.append_assoc, same, List.append_assoc]
  obtain ⟨here, behind⟩ := spelled.eq_of_append spelled' follows follows' closed
  exact ⟨here, List.append_cancel_right behind⟩

/-- Two spellings of texts at the start of one text spell the same and end at the same place. -/
theorem SpellsText.eq_of_append {text text' rest rest' : List Char} {value value' : String}
    (spelled : SpellsText text value) (spelled' : SpellsText text' value')
    (same : text ++ rest = text' ++ rest') : value = value' ∧ rest = rest' := by
  obtain ⟨body, rfl, read⟩ := read_of_spellsText spelled
  obtain ⟨body', rfl, read'⟩ := read_of_spellsText spelled'
  have behind : body ++ rest = body' ++ rest' := List.tail_eq_of_cons_eq same
  have reading := (read rest).1
  rw [behind, (read' rest').1] at reading
  cases reading
  exact ⟨rfl, rfl⟩

theorem SpellsText.unique {text : List Char} {value value' : String}
    (spelled : SpellsText text value) (spelled' : SpellsText text value') : value = value' := by
  have same : text ++ [] = text ++ [] := rfl
  exact (spelled.eq_of_append spelled' same).1

/-- Blanks end where something else starts. -/
theorem Layout.eq_of_append {blank blank' rest rest' : List Char} {c d : Char}
    (layout : Layout blank) (layout' : Layout blank') (proper : c ∉ [' ', '\n', '\t', '\r'])
    (proper' : d ∉ [' ', '\n', '\t', '\r']) (same : blank ++ c :: rest = blank' ++ d :: rest') :
    c :: rest = d :: rest' := by
  rw [← skipLayout_append_cons layout proper, same, skipLayout_append_cons layout' proper']

/-- What stands in front of an item or member ends where the item or member starts. -/
theorem Lead.eq_of_append {first : Bool} {lead lead' rest rest' : List Char} {c d : Char}
    (leads : Lead first lead) (leads' : Lead first lead') (proper : c ∉ [' ', '\n', '\t', '\r'])
    (proper' : d ∉ [' ', '\n', '\t', '\r']) (same : lead ++ c :: rest = lead' ++ d :: rest') :
    c :: rest = d :: rest' := by
  cases leads with
  | first layout =>
    cases leads' with
    | first layout' => exact layout.eq_of_append layout' proper proper' same
  | later before after =>
    cases leads' with
    | later before' after' =>
      have comma : ',' ∉ [' ', '\n', '\t', '\r'] := by decide
      rw [List.append_assoc, List.append_assoc] at same
      have behind := List.tail_eq_of_cons_eq (before.eq_of_append before' comma comma same)
      exact after.eq_of_append after' proper proper' behind

theorem Lead.value_eq_of_append {first : Bool} {lead lead' text text' rest rest' : List Char}
    {value value' : Json} (leads : Lead first lead) (leads' : Lead first lead')
    (spelled : Spells text value) (spelled' : Spells text' value')
    (same : lead ++ (text ++ rest) = lead' ++ (text' ++ rest')) :
    text ++ rest = text' ++ rest' := by
  obtain ⟨c, left, rfl, start⟩ := spelled.exists_cons
  obtain ⟨d, left', rfl, start'⟩ := spelled'.exists_cons
  exact leads.eq_of_append leads' start.not_layout start'.not_layout same

/-- Two spellings of members at the start of one text spell the same name, and the spellings of
their values start at the same place. -/
theorem Lead.member_eq_of_append {first : Bool}
    {lead lead' name name' before before' after after' text text' rest rest' : List Char}
    {key key' : String} {value value' : Json} (leads : Lead first lead) (leads' : Lead first lead')
    (named : SpellsText name key) (named' : SpellsText name' key') (layout : Layout before)
    (layout' : Layout before') (later : Layout after) (later' : Layout after')
    (spelled : Spells text value) (spelled' : Spells text' value')
    (same : lead ++ (name ++ (before ++ ':' :: (after ++ (text ++ rest)))) =
      lead' ++ (name' ++ (before' ++ ':' :: (after' ++ (text' ++ rest'))))) :
    key = key' ∧ text ++ rest = text' ++ rest' := by
  have colon : ':' ∉ [' ', '\n', '\t', '\r'] := by decide
  have names := leads.value_eq_of_append leads' (.string named) (.string named') same
  obtain ⟨rfl, behind⟩ := named.eq_of_append named' names
  have values := List.tail_eq_of_cons_eq (layout.eq_of_append layout' colon colon behind)
  exact ⟨rfl, (Lead.first later).value_eq_of_append (.first later') spelled spelled' values⟩

theorem Layout.mem_of_append {lead rest : List Char} {c : Char}
    (layout : Layout (lead ++ c :: rest)) : c ∈ [' ', '\n', '\t', '\r'] :=
  layout c (List.mem_append_right lead List.mem_cons_self)

theorem Spells.text_of_number {text : List Char} {spelling : String}
    (spelled : Spells text (.number spelling)) : text = spelling.toList := by
  cases spelled
  rfl

theorem Spells.text_of_string {text : List Char} {value : String}
    (spelled : Spells text (.string value)) : SpellsText text value := by
  cases spelled with
  | string spelled => exact spelled

theorem Spells.exists_of_array {text : List Char} {items : List Json}
    (spelled : Spells text (.array items)) :
    ∃ inner, text = '[' :: (inner ++ [']']) ∧ SpellsItems true inner items := by
  cases spelled with
  | array inside => exact ⟨_, rfl, inside⟩

theorem Spells.exists_of_object {text : List Char} {members : List (String × Json)}
    (spelled : Spells text (.object members)) :
    ∃ inner, text = '\x7b' :: (inner ++ ['\x7d']) ∧ SpellsMembers true inner members := by
  cases spelled with
  | object inside => exact ⟨_, rfl, inside⟩

theorem SpellsItems.layout_of_nil {first : Bool} {text : List Char}
    (spelled : SpellsItems first text []) : Layout text := by
  cases spelled with
  | done layout => exact layout

theorem SpellsMembers.layout_of_nil {first : Bool} {text : List Char}
    (spelled : SpellsMembers first text []) : Layout text := by
  cases spelled with
  | done layout => exact layout

theorem SpellsItems.exists_of_cons {first : Bool} {text : List Char} {item : Json}
    {items : List Json} (spelled : SpellsItems first text (item :: items)) :
    ∃ lead here rest, text = lead ++ (here ++ rest) ∧ Lead first lead ∧ Spells here item ∧
      SpellsItems false rest items := by
  cases spelled with
  | next lead here more => exact ⟨_, _, _, rfl, lead, here, more⟩

theorem SpellsMembers.exists_of_cons {first : Bool} {text : List Char} {key : String}
    {value : Json} {members : List (String × Json)}
    (spelled : SpellsMembers first text ((key, value) :: members)) :
    ∃ lead name before after here rest,
      text = lead ++ (name ++ (before ++ ':' :: (after ++ (here ++ rest)))) ∧ Lead first lead ∧
        SpellsText name key ∧ Layout before ∧ Layout after ∧ Spells here value ∧
          SpellsMembers false rest members := by
  cases spelled with
  | next lead name before after here more =>
    exact ⟨_, _, _, _, _, _, rfl, lead, name, before, after, here, more⟩

/-- Values of one kind: the same word, two numbers, two texts, two lists or two objects. -/
inductive SameKind : Json → Json → Prop
  | null : SameKind .null .null
  | boolean (value : Bool) : SameKind (.boolean value) (.boolean value)
  | number (spelling spelling' : String) : SameKind (.number spelling) (.number spelling')
  | string (value value' : String) : SameKind (.string value) (.string value')
  | array (items items' : List Json) : SameKind (.array items) (.array items')
  | object (members members' : List (String × Json)) : SameKind (.object members) (.object members')

/-- The first character of a spelling tells the kind of what is spelled. -/
theorem StartsWith.sameKind {value value' : Json} {c : Char} (start : value.StartsWith c)
    (start' : value'.StartsWith c) : SameKind value value' := by
  rcases value with _ | (_ | _) | _ | _ | _ | _ <;>
    rcases value' with _ | (_ | _) | _ | _ | _ | _
  -- A number starts with a sign or a digit, everything else with a character of its own.
  all_goals first
    | constructor
    | cases start <;> cases start' <;> contradiction

theorem Spells.sameKind {text : List Char} {value value' : Json} (spelled : Spells text value)
    (spelled' : Spells text value') : SameKind value value' := by
  obtain ⟨c, rest, rfl, start⟩ := spelled.exists_cons
  obtain ⟨_, _, same, start'⟩ := spelled'.exists_cons
  cases same
  exact start.sameKind start'

mutual

/-- A text spells one value at most. -/
theorem Spells.unique {text : List Char} {value value' : Json} (spelled : Spells text value)
    (spelled' : Spells text value') : value = value' := by
  have kind := spelled.sameKind spelled'
  cases spelled with
  | null =>
    cases kind
    rfl
  | yes =>
    cases kind
    rfl
  | no =>
    cases kind
    rfl
  | number =>
    cases kind
    rw [String.toList_inj.mp spelled'.text_of_number]
  | string text =>
    cases kind
    rw [text.unique spelled'.text_of_string]
  | array inside =>
    cases kind
    obtain ⟨inner', same, inside'⟩ := spelled'.exists_of_array
    obtain rfl := List.append_cancel_right (List.tail_eq_of_cons_eq same)
    rw [inside.unique inside']
  | object inside =>
    cases kind
    obtain ⟨inner', same, inside'⟩ := spelled'.exists_of_object
    obtain rfl := List.append_cancel_right (List.tail_eq_of_cons_eq same)
    rw [inside.unique inside']

theorem SpellsItems.unique {first : Bool} {text : List Char} {items items' : List Json}
    (spelled : SpellsItems first text items) (spelled' : SpellsItems first text items') :
    items = items' := by
  cases spelled with
  | done layout =>
    cases items' with
    | nil => rfl
    | cons item items' =>
      obtain ⟨lead, here, rest, rfl, -, item, -⟩ := spelled'.exists_of_cons
      obtain ⟨c, left, rfl, start⟩ := item.exists_cons
      exact absurd layout.mem_of_append start.not_layout
  | next lead item more =>
    cases items' with
    | nil =>
      obtain ⟨c, left, rfl, start⟩ := item.exists_cons
      exact absurd spelled'.layout_of_nil.mem_of_append start.not_layout
    | cons item' items' =>
      obtain ⟨lead', here', rest', same, lead', item', more'⟩ := spelled'.exists_of_cons
      have here := lead.value_eq_of_append lead' item item' same
      obtain ⟨rfl, rfl⟩ := item.eq_of_append_closing item' (more.followsValue [])
        (more'.followsValue []) here
      rw [item.unique item', more.unique more']

theorem SpellsMembers.unique {first : Bool} {text : List Char}
    {members members' : List (String × Json)} (spelled : SpellsMembers first text members)
    (spelled' : SpellsMembers first text members') : members = members' := by
  cases spelled with
  | done layout =>
    cases members' with
    | nil => rfl
    | cons member members' =>
      obtain ⟨lead, name, before, after, here, rest, rfl, -, named, -⟩ := spelled'.exists_of_cons
      cases named
      exact absurd layout.mem_of_append (by decide)
  | next lead named layout later value more =>
    cases members' with
    | nil =>
      cases named
      exact absurd spelled'.layout_of_nil.mem_of_append (by decide)
    | cons member members' =>
      obtain ⟨_, _, _, _, _, _, same, lead', named', layout', later', value', more'⟩ :=
        spelled'.exists_of_cons
      obtain ⟨key, here⟩ := lead.member_eq_of_append lead' named named' layout layout' later later'
        value value' same
      obtain ⟨rfl, rfl⟩ := value.eq_of_append_closing value' (more.followsValue [])
        (more'.followsValue []) here
      rw [key, value.unique value', more.unique more']

end

theorem IsSpelledBy.exists_toList {text : String} {value : Json}
    (spelled : value.IsSpelledBy text) :
    ∃ before here after, text.toList = before ++ (here ++ after) ∧ Layout before ∧
      Spells here value ∧ Layout after := by
  obtain ⟨before, here, after⟩ := spelled
  exact ⟨_, _, _, String.toList_ofList, before, here, after⟩

/-- A whole text spells one value at most. -/
theorem IsSpelledBy.unique {text : String} {value value' : Json} (spelled : value.IsSpelledBy text)
    (spelled' : value'.IsSpelledBy text) : value = value' := by
  obtain ⟨before, here, after, same, layout, value, later⟩ := spelled.exists_toList
  obtain ⟨before', here', after', same', layout', value', later'⟩ := spelled'.exists_toList
  have front := (Lead.first layout).value_eq_of_append (.first layout') value value'
    (same.symm.trans same')
  obtain ⟨rfl, -⟩ := value.eq_of_append value' later.followsValue later'.followsValue front
  exact value.unique value'

end RibMap.Json
