import RibMap.Proofs.Dump.Meaning
import RibMap.Proofs.Reference.Json.Library

/-! # Rearranged dumps

A dump says more than its reader wants to know. What it says besides, in fields of the dump, of its
entries or of their inherited types, has no say in what is read, and neither has the order of the
fields.
-/

namespace RibMap.Dump

open Json (Decoder optionalText)

/-- The parts of a dump that are records. -/
inductive Part where
  | dump
  | entry
  | inheritedType

namespace Part

/-- The fields that a part is read from, in order. -/
def fields : Part → List String
  | dump => ["key.substructure"]
  | entry => ["key.kind", "key.name", "key.inheritedtypes"]
  | inheritedType => ["key.name"]

/-- The parts that a part holds a list of, in the last one of its fields. -/
def inner? : Part → Option (String × Part)
  | dump => some ("key.substructure", entry)
  | entry => some ("key.inheritedtypes", inheritedType)
  | inheritedType => none

/-- What a part stands for. -/
abbrev Meaning : Part → Type
  | dump => List Entry
  | entry => Entry
  | inheritedType => InheritedType

/-- Decode a part. -/
def decode : (part : Part) → Decoder part.Meaning
  | dump => Dump.decode
  | entry => Entry.decode
  | inheritedType => InheritedType.decode

end Part

/-- Two values of a part differ in nothing but the order of the fields and in fields that the part
is not read from, in the part itself or in the parts that it holds. -/
inductive Rearranged : Part → Json → Json → Prop
  | refl {part : Part} {value : Json} : Rearranged part value value
  | symm {part : Part} {value value' : Json} :
    Rearranged part value value' → Rearranged part value' value
  | trans {part : Part} {value value' value'' : Json} :
    Rearranged part value value' → Rearranged part value' value'' → Rearranged part value value''
  | reorder {part : Part} {members members' : List (String × Json)} :
    members.Perm members' → Rearranged part (.object members) (.object members')
  | insert {part : Part} {before after : List (String × Json)} {key : String} {value : Json} :
    key ∉ part.fields →
    Rearranged part (.object (before ++ after)) (.object (before ++ (key, value) :: after))
  | inObject {part inner : Part} {field : String} {before after : List (String × Json)}
      {earlier later : List Json} {item item' : Json} :
    part.inner? = some (field, inner) → Rearranged inner item item' →
    Rearranged part (.object (before ++ (field, .array (earlier ++ item :: later)) :: after))
      (.object (before ++ (field, .array (earlier ++ item' :: later)) :: after))
  | inList {part inner : Part} {field : String} {fields earlier later : List Json}
      {item item' : Json} :
    part.inner? = some (field, inner) → fields.length + 1 = part.fields.length →
    Rearranged inner item item' →
    Rearranged part (.array (fields ++ [.array (earlier ++ item :: later)]))
      (.array (fields ++ [.array (earlier ++ item' :: later)]))

/-- An object is decoded by the fields of its part alone. -/
theorem Part.decode_object {part : Part} {members members' : List (String × Json)}
    (same : ∀ {α : Type} (decode : Decoder α), ∀ field ∈ part.fields,
      decode.field field members = decode.field field members') :
    part.decode (.object members) = part.decode (.object members') := by
  cases part with
  | dump =>
    have entries := same entries "key.substructure" (by decide)
    simp only [decode, Dump.decode, Decoder.record, Dump.ofMembers, entries]
  | entry =>
    have kind := same optionalText "key.kind" (by decide)
    have name := same optionalText "key.name" (by decide)
    have inherited := same Entry.inheritedTypes "key.inheritedtypes" (by decide)
    simp only [decode, Entry.decode, Decoder.record, Entry.ofMembers, kind, name, inherited]
  | inheritedType =>
    have name := same optionalText "key.name" (by decide)
    simp only [decode, InheritedType.decode, Decoder.record, InheritedType.ofMembers, name]

/-- Parts that stand for the same can take each other's place within the object of a part. -/
theorem Part.decode_inObject {part inner : Part} {field : String} {item item' : Json}
    (holds : part.inner? = some (field, inner)) (same : inner.decode item = inner.decode item')
    (before after : List (String × Json)) (earlier later : List Json) :
    part.decode (.object (before ++ (field, .array (earlier ++ item :: later)) :: after)) =
      part.decode (.object (before ++ (field, .array (earlier ++ item' :: later)) :: after)) := by
  cases part with
  | dump =>
    cases holds
    have items : entries _ = entries _ := Decoder.list_replace same earlier later
    have entries := Decoder.field_replace items "key.substructure" before after
    simp only [decode, Dump.decode, Decoder.record, Dump.ofMembers, entries]
  | entry =>
    cases holds
    have types : Entry.inheritedTypes _ = Entry.inheritedTypes _ :=
      Decoder.list_replace same earlier later
    have inherited := Decoder.field_replace types "key.inheritedtypes" before after
    simp only [decode, Entry.decode, Decoder.record, Entry.ofMembers,
      Decoder.field_insert _ (by decide : "key.inheritedtypes" ≠ "key.kind"),
      Decoder.field_insert _ (by decide : "key.inheritedtypes" ≠ "key.name"), inherited]
  | inheritedType => cases holds

/-- Parts that stand for the same can take each other's place within the list form of a part. -/
theorem Part.decode_inList {part inner : Part} {field : String} {item item' : Json}
    {fields : List Json} (holds : part.inner? = some (field, inner))
    (length : fields.length + 1 = part.fields.length)
    (same : inner.decode item = inner.decode item') (earlier later : List Json) :
    part.decode (.array (fields ++ [.array (earlier ++ item :: later)])) =
      part.decode (.array (fields ++ [.array (earlier ++ item' :: later)])) := by
  cases part with
  | dump =>
    cases holds
    obtain rfl : fields = [] := List.length_eq_zero_iff.mp (Nat.succ.inj length)
    exact Decoder.list_replace same earlier later
  | entry =>
    cases holds
    match fields, length with
    | [kind, name], _ =>
      have inherited : Entry.inheritedTypes _ = Entry.inheritedTypes _ :=
        Decoder.list_replace same earlier later
      simp only [decode, Entry.decode, Decoder.record, List.cons_append, List.nil_append,
        Entry.ofItems, inherited]
  | inheritedType => cases holds

/-- Rearranging a part does not change what it stands for. -/
theorem Rearranged.decode_eq {part : Part} {value value' : Json}
    (rearranged : Rearranged part value value') : part.decode value = part.decode value' := by
  induction rearranged with
  | refl => rfl
  | symm _ ih => exact ih.symm
  | trans _ _ ih ih' => exact ih.trans ih'
  | reorder perm => exact Part.decode_object fun decode field _ => decode.field_perm field perm
  | @insert _ _ _ key _ unknown =>
    -- An unknown field is none of those that the part is read from.
    refine Part.decode_object fun decode field known => ?_
    have other : key ≠ field := by
      rintro rfl
      exact unknown known
    exact (decode.field_insert other _ _ _).symm
  | inObject holds _ ih => exact Part.decode_inObject holds ih _ _ _ _
  | inList holds length _ ih => exact Part.decode_inList holds length ih _ _

/-- A text that spells a value is read if and only if the value is a dump, as the records of those
entries that have a kind, in order. However the value is rearranged, and however the result is
spelled, the same records are read or none at all. -/
theorem declarations_of_isSpelledBy [Json.Library] (rules : Json.ReadsByRules) {value : Json}
    {text : String} (spelled : value.IsSpelledBy text) :
    (∀ records, declarations text = .ok records ↔
      ∃ entries, decode value = some entries ∧
        records = entries.filterMap fun entry => entry.kind.map fun kind =>
          ⟨.ofDump kind, entry.name, entry.inherited.filterMap (·.name)⟩) ∧
    ∀ value' text', Rearranged .dump value value' → value'.IsSpelledBy text' → ∀ records,
      declarations text' = .ok records ↔ declarations text = .ok records := by
  have read := toOption_declarations rules spelled
  constructor
  · intro records
    rw [← Json.toOption_eq_some_iff, read, Option.map_eq_some_iff]
    exact exists_congr fun entries => and_congr_right fun _ => eq_comm
  · intro value' text' rearranged spelled' records
    have same : decode value = decode value' := rearranged.decode_eq
    rw [← Json.toOption_eq_some_iff, ← Json.toOption_eq_some_iff, read,
      toOption_declarations rules spelled', same]

section Nested

open scoped Reference

/-- An entry with an escaped name and a list nested in it, and the same entry without the list. -/
theorem declarations_of_isSpelledBy_nested :
    declarations ("[[\x7b\"key.substructure\": [null], " ++
          "\"key.name\": \"\\u0041\", \"key.kind\": \"B\"\x7d]]") =
        .ok [⟨.other "B", some "A", []⟩] ∧
      declarations "[[\x7b\"key.kind\":\"B\",\"key.name\":\"A\"\x7d]]" =
        .ok [⟨.other "B", some "A", []⟩] := by
  have empty := Json.layout_nil
  have blank := Json.layout_space
  have later : Json.Lead false _ := .later empty blank
  have digit : Json.SpellsDigit '0' 0 ∧ Json.SpellsDigit '4' 4 ∧ Json.SpellsDigit '1' 1 := by
    decide
  have number : Json.SpellsNumber _ 'A'.toNat := .digits digit.1 digit.1 digit.2.1 digit.2.2
  have escaped : Json.SpellsText _ "A" := .quotes (.cons (.number (by decide) number) .nil)
  have nested : Json.Spells _ (.array [.null]) :=
    .array (.next (.first empty) .null (.done empty))
  have kind : Json.SpellsMembers false _ [("key.kind", .string "B")] :=
    .next later (Json.spellsText_writtenText _) empty blank
      (.string (Json.spellsText_writtenText _)) (.done empty)
  have name : Json.SpellsMembers false _ (("key.name", .string "A") :: _) :=
    .next later (Json.spellsText_writtenText _) empty blank (.string escaped) kind
  have entry : Json.Spells _ (.object (("key.substructure", .array [.null]) :: _)) :=
    .object (.next (.first empty) (Json.spellsText_writtenText _) empty blank nested name)
  have spelled : Json.IsSpelledBy _ _ :=
    .blanks empty (.array (.next (.first empty)
      (.array (.next (.first empty) entry (.done empty))) (.done empty))) empty
  have same :
      Rearranged .entry _ (.object [("key.kind", .string "B"), ("key.name", .string "A")]) :=
    .trans (.symm (@Rearranged.insert .entry [] _ "key.substructure" (.array [.null]) (by decide)))
      (.reorder (.swap _ _ _))
  have rearranged := @Rearranged.inList .dump .entry _ [] [] [] _ _ rfl rfl same
  have proper : Json.Proper (.object [("key.kind", .string "B"), ("key.name", .string "A")]) := by
    refine .object fun key value mem => ?_
    simp only [List.mem_cons, List.not_mem_nil, or_false] at mem
    rcases mem with same | same <;> (cases same; exact .string)
  have spelled' := Json.isSpelledBy_render (.array fun _ mem => List.mem_singleton.mp mem ▸
    .array fun _ mem => List.mem_singleton.mp mem ▸ proper)
  obtain ⟨read, agrees⟩ := declarations_of_isSpelledBy Reference.readsByRules spelled
  have found := (read [⟨.other "B", some "A", []⟩]).mpr ⟨_, rfl, by decide⟩
  exact ⟨found, (agrees _ _ rearranged spelled' _).mpr found⟩

end Nested

end RibMap.Dump
