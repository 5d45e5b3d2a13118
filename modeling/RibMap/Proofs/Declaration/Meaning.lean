import Mathlib.Tactic.SplitIfs
import RibMap.Declaration.Written
import RibMap.Proofs.Json.Reading

/-! # What written declaration records mean

Which JSON values stand for a record, and which one of them is written of it, is said of the values.
By the rules of reading and of writing the texts agree with that.
-/

namespace RibMap

open Json (Decoder decodeText optionalText)

namespace Kind

/-- The kinds whose name says all of them. -/
def ofName? : String → Option Kind
  | "class" => some .class
  | "protocol" => some .protocol
  | "struct" => some .struct
  | "enum" => some .enum
  | "extension" => some .extension
  | _ => none

/-- Decode the name of a kind and what belongs to it, if anything does. -/
def ofContent (name : String) (content? : Option Json) : Option Kind :=
  if name = "other" then (content?.bind decodeText).map .other
  else (Json.decodeNothing content?).bind fun _ => ofName? name

/-- Decode a kind: its name, or an object of its name and what belongs to it. -/
def decode : Decoder Kind :=
  .choice ofContent

theorem ofContent_eq (name : String) (content? : Option Json) :
    ofContent name content? = (variants.decode name content?).map ofVariant := by
  by_cases other : name = "other"
  · subst other
    cases content? with
    | none => rfl
    | some content => cases content <;> rfl
  · rw [ofContent, if_neg other]
    unfold ofName?
    split
    case h_6 noClass noProtocol noStruct noEnum noExtension =>
      simp [variants, Json.Variants.decode, Ne.symm noClass, Ne.symm noProtocol, Ne.symm noStruct,
        Ne.symm noEnum, Ne.symm noExtension, Ne.symm other]
    all_goals
      cases content? with
      | none => rfl
      | some content => cases content <;> rfl

theorem decode_eq : decode = Decoder.map ofVariant shape.decode := by
  funext value
  change _ = (Decoder.choice variants.decode value).map ofVariant
  cases value with
  | string name => exact ofContent_eq name none
  | object members =>
    rcases members with _ | ⟨⟨name, content⟩, _ | _⟩
    · rfl
    · exact ofContent_eq name (some content)
    · rfl
  | null | boolean | number | array => rfl

/-- The value that is written of a kind. -/
def value : Kind → Json
  | .class => .string "class"
  | .protocol => .string "protocol"
  | .struct => .string "struct"
  | .enum => .string "enum"
  | .extension => .string "extension"
  | .other keyword => .object [("other", .string keyword)]

/-- No kind is taken for another one when it is read. -/
theorem decode_value (kind : Kind) : decode kind.value = some kind := by
  cases kind <;> rfl

theorem writes_value {write : Json.Writer} (rules : Json.WritesByRules write) (kind : Kind) :
    Json.Writes write shape kind.variant kind.value := by
  apply rules.choice
  cases kind with
  | other keyword => exact ⟨_, rules.text keyword, rfl⟩
  | «class» | «protocol» | «struct» | «enum» | «extension» => rfl

end Kind

namespace Declaration

/-- Decode inherited names. -/
def inheritedNames : Decoder (List String) :=
  .list decodeText

/-- Decode the list form of a record. -/
def ofItems : List Json → Option Declaration
  | [kind, name, inherited] => do
    return ⟨← Kind.decode kind, ← optionalText name, ← inheritedNames inherited⟩
  | _ => none

/-- Decode the object form of a record, in which the name may be missing. -/
def ofMembers (members : List (String × Json)) : Option Declaration := do
  let kind ← Kind.decode.field "kind" members
  let name ← optionalText.field "name" members
  let inherited ← inheritedNames.field "inherited_names" members
  return ⟨← kind, name.join, ← inherited⟩

/-- Decode a record. -/
def decode : Decoder Declaration :=
  .record ofItems ofMembers

theorem inheritedNames_eq : (Json.Shape.list .text).decode = inheritedNames := rfl

theorem decode_eq : decode = Decoder.map ofFields shape.decode := by
  funext value
  cases value with
  | array items =>
    change ofItems items = (fields.ofItems items).map ofFields
    rcases items with _ | ⟨kind, _ | ⟨name, _ | ⟨inherited, _ | _⟩⟩⟩ <;>
      simp only [ofItems, fields, Json.Fields.ofItems, Kind.decode_eq, Decoder.map,
        Json.Shape.decode_optional_text, inheritedNames_eq]
    · rfl
    · cases Kind.shape.decode kind <;> rfl
    · cases Kind.shape.decode kind <;> cases optionalText name <;> rfl
    · cases Kind.shape.decode kind <;> cases optionalText name <;>
        cases inheritedNames inherited <;> rfl
    · cases Kind.shape.decode kind <;> cases optionalText name <;>
        cases inheritedNames inherited <;> rfl
  | object members =>
    change ofMembers members = (fields.ofMembers members).map ofFields
    simp only [ofMembers, fields, Json.Fields.ofMembers, Kind.decode_eq, Decoder.field_map,
      Json.Shape.decode_optional_text, inheritedNames_eq]
    rcases Kind.shape.decode.field "kind" members with _ | _ | _ <;>
      rcases optionalText.field "name" members with _ | _ | _ <;>
      rcases inheritedNames.field "inherited_names" members with _ | _ | _ <;> rfl
  | null | boolean | number | string => rfl

/-- The value that is written of a record. -/
def value (declaration : Declaration) : Json :=
  .object [("kind", declaration.kind.value), ("name", (declaration.name.map .string).getD .null),
    ("inherited_names", .array (declaration.inherited.map .string))]

theorem inheritedNames_map (names : List String) :
    inheritedNames (.array (names.map .string)) = some names := by
  change (names.map Json.string).mapM decodeText = some names
  induction names with
  | nil => rfl
  | cons name names ih =>
    rw [List.map_cons, List.mapM_cons, ih]
    rfl

/-- A record is decoded from the value that is written of it. -/
theorem decode_value (declaration : Declaration) : decode declaration.value = some declaration := by
  obtain ⟨kind, name, inherited⟩ := declaration
  have kinds := Kind.decode_value kind
  have names := inheritedNames_map inherited
  cases name <;>
    simp [decode, value, Decoder.record, ofMembers, Decoder.field, kinds, names, optionalText,
      Decoder.optional, decodeText]

theorem writes_value {write : Json.Writer} (rules : Json.WritesByRules write)
    (declaration : Declaration) :
    Json.Writes write shape declaration.toFields declaration.value := by
  obtain ⟨kind, name, inherited⟩ := declaration
  have names : Json.Writes write (.list .text) inherited (.array (inherited.map .string)) :=
    rules.list fun name _ => rules.text name
  have given : Json.Writes write (.optional .text) name ((name.map .string).getD .null) := by
    cases name with
    | none => exact rules.nothing .text
    | some name => exact rules.something (rules.text name)
  apply rules.record
  exact ⟨_, _, kind.writes_value rules, ⟨_, _, given, ⟨_, _, names, rfl, rfl⟩, rfl⟩, rfl⟩

/-- A text that spells a value is read as a record exactly if the value stands for the record. -/
theorem ofJson_eq_ok_iff [Json.Library] (rules : Json.ReadsByRules) {value : Json} {text : String}
    (spelled : value.IsSpelledBy text) (declaration : Declaration) :
    ofJson text = .ok declaration ↔ decode value = some declaration := by
  have readable : shape.Readable := by decide
  have read := shape.reads rules readable value text spelled
  rw [← Json.toOption_eq_some_iff, decode_eq, Decoder.map, ← read, ofJson]
  cases Json.Library.read shape text <;> rfl

end Declaration

end RibMap
