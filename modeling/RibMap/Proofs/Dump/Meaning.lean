import RibMap.Dump
import RibMap.Proofs.Json.Reading

/-! # What structure dumps mean

What the declarations of a dump are is said of the JSON value that it spells. Reading the text
agrees with that, so neither the layout and the escapes of the text nor fields that a declaration
does not need have a say in it, whatever is nested in them.
-/

namespace RibMap

namespace Dump

open Json (Decoder optionalText)

namespace InheritedType

/-- Decode the list form of an inherited type. -/
def ofItems : List Json → Option InheritedType
  | [name] => (optionalText name).map .mk
  | _ => none

/-- Decode the object form of an inherited type, in which the name may be missing. -/
def ofMembers (members : List (String × Json)) : Option InheritedType :=
  (optionalText.field "key.name" members).map fun name => ⟨name.join⟩

/-- Decode an inherited type. -/
def decode : Decoder InheritedType :=
  .record ofItems ofMembers

theorem decode_eq : decode = shape.decode.map ofFields := by
  funext value
  cases value with
  | array items =>
    rcases items with _ | ⟨name, _ | _⟩
    · rfl
    · change (optionalText name).map mk = ((optionalText name).bind fun _ => _).map _
      cases optionalText name <;> rfl
    · change none = ((optionalText name).bind fun _ => none).map _
      cases optionalText name <;> rfl
  | object members =>
    change (optionalText.field "key.name" members).map _ =
      ((optionalText.field "key.name" members).bind fun _ => _).map _
    rcases optionalText.field "key.name" members with _ | _ | _ <;> rfl
  | null | boolean | number | string => rfl

end InheritedType

namespace Entry

/-- Decode the inherited types of an entry. -/
def inheritedTypes : Decoder (List InheritedType) :=
  .list InheritedType.decode

/-- Decode the list form of an entry, from whose end the inherited types may be missing. -/
def ofItems : List Json → Option Entry
  | [kind, name] => do return ⟨← optionalText kind, ← optionalText name, []⟩
  | [kind, name, inherited] => do
    return ⟨← optionalText kind, ← optionalText name, ← inheritedTypes inherited⟩
  | _ => none

/-- Decode the object form of an entry, in which every field may be missing. -/
def ofMembers (members : List (String × Json)) : Option Entry := do
  let kind ← optionalText.field "key.kind" members
  let name ← optionalText.field "key.name" members
  let inherited ← inheritedTypes.field "key.inheritedtypes" members
  return ⟨kind.join, name.join, inherited.getD []⟩

/-- Decode an entry. -/
def decode : Decoder Entry :=
  .record ofItems ofMembers

theorem inheritedTypes_eq :
    inheritedTypes = (Decoder.list InheritedType.shape.decode).map (List.map InheritedType.ofFields)
    := by
  funext value
  rw [inheritedTypes, InheritedType.decode_eq, Decoder.list_map]
  rfl

theorem list_eq : (Json.Shape.list InheritedType.shape).decode =
    .list InheritedType.shape.decode := rfl

theorem decode_eq : decode = shape.decode.map ofFields := by
  funext value
  cases value with
  | array items =>
    change ofItems items = (fields.ofItems items).map ofFields
    rcases items with _ | ⟨kind, _ | ⟨name, _ | ⟨inherited, _ | _⟩⟩⟩ <;>
      simp only [ofItems, fields, Json.Fields.ofItems, inheritedTypes_eq,
        Json.Shape.decode_optional_text, list_eq, Decoder.map]
    · rfl
    · cases optionalText kind <;> rfl
    · cases optionalText kind <;> cases optionalText name <;> rfl
    · cases optionalText kind <;> cases optionalText name <;>
        cases Decoder.list InheritedType.shape.decode inherited <;> rfl
    · cases optionalText kind <;> cases optionalText name <;>
        cases Decoder.list InheritedType.shape.decode inherited <;> rfl
  | object members =>
    change ofMembers members = (fields.ofMembers members).map ofFields
    simp only [ofMembers, fields, Json.Fields.ofMembers, inheritedTypes_eq,
      Json.Shape.decode_optional_text, list_eq, Decoder.field_map]
    rcases optionalText.field "key.kind" members with _ | _ | _ <;>
      rcases optionalText.field "key.name" members with _ | _ | _ <;>
      rcases (Decoder.list InheritedType.shape.decode).field "key.inheritedtypes" members with
        _ | _ | _ <;> rfl
  | null | boolean | number | string => rfl

end Entry

/-- Decode the entries of a dump. -/
def entries : Decoder (List Entry) :=
  .list Entry.decode

/-- Decode the list form of a dump, which may be empty. -/
def ofItems : List Json → Option (List Entry)
  | [] => some []
  | [items] => entries items
  | _ => none

/-- Decode the object form of a dump, in which the entries may be missing. -/
def ofMembers (members : List (String × Json)) : Option (List Entry) :=
  (entries.field "key.substructure" members).map (·.getD [])

/-- Decode a dump. -/
def decode : Decoder (List Entry) :=
  .record ofItems ofMembers

theorem entries_eq :
    entries = (Json.Shape.list Entry.shape).decode.map (List.map Entry.ofFields) := by
  funext value
  rw [entries, Entry.decode_eq, Decoder.list_map]
  rfl

theorem decode_eq : decode = shape.decode.map fun (entries, ()) => entries.map Entry.ofFields := by
  funext value
  cases value with
  | array items =>
    change ofItems items = (fields.ofItems items).map _
    rcases items with _ | ⟨listed, _ | _⟩ <;>
      simp only [ofItems, fields, Json.Fields.ofItems, entries_eq, Decoder.map]
    · rfl
    · cases (Json.Shape.list Entry.shape).decode listed <;> rfl
    · cases (Json.Shape.list Entry.shape).decode listed <;> rfl
  | object members =>
    change ofMembers members = (fields.ofMembers members).map _
    simp only [ofMembers, fields, Json.Fields.ofMembers, entries_eq, Decoder.field_map]
    rcases Decoder.field (Json.Shape.list Entry.shape).decode "key.substructure" members with
      _ | _ | _ <;> rfl
  | null | boolean | number | string => rfl

/-- The declarations of a dump are those of the entries that its value decodes to. -/
theorem toOption_declarations [Json.Library] (rules : Json.ReadsByRules) {value : Json}
    {text : String} (spelled : value.IsSpelledBy text) :
    (declarations text).toOption = (decode value).map (·.filterMap Entry.declaration?) := by
  have readable : shape.Readable := by decide
  have read := shape.reads rules readable value text spelled
  rw [decode_eq, Decoder.map, ← read, declarations]
  cases Json.Library.read shape text <;> rfl

end Dump

end RibMap
