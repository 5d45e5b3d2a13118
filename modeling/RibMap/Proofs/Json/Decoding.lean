import Mathlib.Data.List.Perm.Basic
import RibMap.Json.Shape
import RibMap.Json.Value

/-! # Decoding values

What data of a shape a JSON value stands for, said of values and without any text. An optional datum
may be `null`. A record is an object of its fields in any order, where fields that the shape does
not have do not count and no other field may be given twice, or the list of its fields in order; a
field may be missing if something stands for it. A choice is the name of a variant, or an object of
the name and what belongs to it.
-/

namespace RibMap.Json

/-- What a value stands for, if it is of the right form. -/
abbrev Decoder (α : Type) := Json → Option α

/-- Decode a text. -/
def decodeText : Decoder String
  | string value => some value
  | _ => none

/-- Decode `null` or a value. -/
def Decoder.optional (decode : Decoder α) : Decoder (Option α)
  | null => some none
  | value => (decode value).map some

/-- Decode a text that may be `null`. -/
def optionalText : Decoder (Option String) :=
  .optional decodeText

/-- Decode a list of values. -/
def Decoder.list (decode : Decoder α) : Decoder (List α)
  | array items => items.mapM decode
  | _ => none

/-- Decode a field among the members of an object; it may be missing, but not be given twice. -/
def Decoder.field (decode : Decoder α) (name : String) (members : List (String × Json)) :
    Option (Option α) :=
  match members.filter (·.1 = name) with
  | [] => some none
  | [(_, value)] => (decode value).map some
  | _ => none

/-- Decode a record in either of its forms. -/
def Decoder.record (ofList : List Json → Option α) (ofObject : List (String × Json) → Option α) :
    Decoder α
  | array items => ofList items
  | object members => ofObject members
  | _ => none

/-- Nothing belongs to a bare variant, or `null`. -/
def decodeNothing : Option Json → Option Unit
  | none | some null => some ()
  | some _ => none

/-- Decode a choice in either of its forms. -/
def Decoder.choice (decode : String → Option Json → Option α) : Decoder α
  | string name => decode name none
  | object [(name, content)] => decode name (some content)
  | _ => none

/-- Decode and convert. -/
def Decoder.map {α β : Type} (f : α → β) (decode : Decoder α) : Decoder β := fun value =>
  (decode value).map f

theorem Decoder.list_map {α β : Type} (f : α → β) (decode : Decoder α) (value : Json) :
    (decode.map f).list value = (decode.list value).map (List.map f) := by
  cases value with
  | array items =>
    change items.mapM (decode.map f) = (items.mapM decode).map (List.map f)
    induction items with
    | nil => rfl
    | cons item items ih =>
      rw [List.mapM_cons, List.mapM_cons, ih, Decoder.map]
      cases decode item <;> cases items.mapM decode <;> rfl
  | null | boolean | number | string | object => rfl

theorem Decoder.field_map {α β : Type} (f : α → β) (decode : Decoder α) (name : String)
    (members : List (String × Json)) :
    (decode.map f).field name members = (decode.field name members).map (Option.map f) := by
  unfold Decoder.field
  generalize members.filter (·.1 = name) = given
  rcases given with _ | ⟨⟨key, value⟩, _ | _⟩
  · rfl
  · simp only [Decoder.map, Option.map_map]
    rfl
  · rfl

/-- Items that are decoded alike can take each other's place in a list. -/
theorem Decoder.list_replace {decode : Decoder α} {item item' : Json}
    (same : decode item = decode item') (earlier later : List Json) :
    decode.list (.array (earlier ++ item :: later)) =
      decode.list (.array (earlier ++ item' :: later)) := by
  simp only [Decoder.list, List.mapM_append, List.mapM_cons, same]

/-- The order of the members does not matter for a field. -/
theorem Decoder.field_perm (decode : Decoder α) (name : String)
    {members members' : List (String × Json)} (perm : members.Perm members') :
    decode.field name members = decode.field name members' := by
  have given := perm.filter (·.1 = name)
  unfold Decoder.field
  generalize members.filter (·.1 = name) = found at given ⊢
  generalize members'.filter (·.1 = name) = found' at given ⊢
  match found, found', given with
  | [], found', given => rw [List.nil_perm.mp given]
  | [entry], found', given => rw [List.singleton_perm.mp given]
  | _ :: _ :: _, [], given => exact absurd given.length_eq (by simp)
  | _ :: _ :: _, [_], given => exact absurd given.length_eq (by simp)
  | _ :: _ :: _, _ :: _ :: _, _ => rfl

/-- Other members do not matter for a field. -/
theorem Decoder.field_insert (decode : Decoder α) {name key : String} (other : key ≠ name)
    (value : Json) (before after : List (String × Json)) :
    decode.field name (before ++ (key, value) :: after) = decode.field name (before ++ after) := by
  simp [Decoder.field, List.filter_append, other]

/-- Values that are decoded alike can take each other's place as a field of an object. -/
theorem Decoder.field_replace {decode : Decoder α} {value value' : Json}
    (same : decode value = decode value') (name : String) (before after : List (String × Json)) :
    decode.field name (before ++ (name, value) :: after) =
      decode.field name (before ++ (name, value') :: after) := by
  have given (value : Json) : (before ++ (name, value) :: after).filter (·.1 = name) =
      before.filter (·.1 = name) ++ (name, value) :: after.filter (·.1 = name) := by
    simp [List.filter_append]
  unfold Decoder.field
  rw [given, given]
  generalize before.filter (·.1 = name) = earlier
  generalize after.filter (·.1 = name) = later
  match earlier, later with
  | [], [] => exact congrArg (Option.map some) same
  | [], _ :: _ => rfl
  | [_], _ => rfl
  | _ :: _ :: _, _ => rfl

mutual

/-- Decode data of a shape. -/
def Shape.decode {α : Type} : Shape α → Decoder α
  | .text => decodeText
  | .optional content => .optional content.decode
  | .list item => .list item.decode
  | .record _ fields => .record fields.ofItems fields.ofMembers
  | .choice variants => .choice variants.decode

/-- Decode the object form of a record. -/
def Fields.ofMembers {σ : Type} : Fields σ → List (String × Json) → Option σ
  | .nil, _ => some ()
  | .field name default? shape others, members => do
    let found? ← Decoder.field shape.decode name members
    let value ← (found?.or default?).or shape.missing?
    return (value, ← others.ofMembers members)

/-- Decode the list form of a record, from whose end fields with a default may be missing. -/
def Fields.ofItems {σ : Type} : Fields σ → List Json → Option σ
  | .nil, [] => some ()
  | .nil, _ :: _ => none
  | .field _ default? _ others, [] => do return (← default?, ← others.ofItems [])
  | .field _ _ shape others, item :: items => do
    return (← shape.decode item, ← others.ofItems items)

/-- Decode the name of a variant and what belongs to it, if anything does. -/
def Variants.decode {σ : Type} : Variants σ → String → Option Json → Option σ
  | .nil, _, _ => none
  | .bare own others, name, content? =>
    if own = name then (decodeNothing content?).map .inl
    else (others.decode name content?).map .inr
  | .holding own shape others, name, content? =>
    if own = name then (content?.bind shape.decode).map .inl
    else (others.decode name content?).map .inr

end

theorem Shape.decode_optional_text : (Shape.optional .text).decode = optionalText := rfl

end RibMap.Json
