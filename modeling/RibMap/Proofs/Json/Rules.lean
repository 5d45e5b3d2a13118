import RibMap.Proofs.Json.Decoding
import RibMap.Proofs.Json.Spelling

/-! # What is documented of the JSON library

Reading and writing follow rules, one or a few for every way in which a shape is made of others. The
rules for reading say what is read of a text in terms of what is read of texts for the parts of the
value that it spells, and those for writing say which value is spelled by what is written in terms
of what is written of the parts. Nothing else is assumed of the library.

Reading refuses values in which it would have to go through more than 127 brackets at once to find
the data; brackets inside of what is skipped do not count.
-/

namespace RibMap.Json

mutual

/-- The number of brackets around the innermost data of a shape. -/
def Shape.depth {α : Type} : Shape α → Nat
  | .text => 0
  | .optional content => content.depth
  | .list item => item.depth + 1
  | .record _ fields => fields.depth + 1
  | .choice variants => variants.depth + 1

def Fields.depth {σ : Type} : Fields σ → Nat
  | .nil => 0
  | .field _ _ shape others => max shape.depth others.depth

def Variants.depth {σ : Type} : Variants σ → Nat
  | .nil => 0
  | .bare _ others => others.depth
  | .holding _ shape others => max shape.depth others.depth

end

/-- The names of the fields of a record. -/
def Fields.names {σ : Type} : Fields σ → List String
  | .nil => []
  | .field name _ _ others => name :: others.names

/-- The names of the variants of a choice. -/
def Variants.names {σ : Type} : Variants σ → List String
  | .nil => []
  | .bare name others => name :: others.names
  | .holding name _ others => name :: others.names

mutual

/-- Whether no two fields of a record and no two variants of a choice have the same name. -/
def Shape.distinct {α : Type} : Shape α → Bool
  | .text => true
  | .optional content => content.distinct
  | .list item => item.distinct
  | .record _ fields => decide fields.names.Nodup && fields.distinct
  | .choice variants => decide variants.names.Nodup && variants.distinct

def Fields.distinct {σ : Type} : Fields σ → Bool
  | .nil => true
  | .field _ _ shape others => shape.distinct && others.distinct

def Variants.distinct {σ : Type} : Variants σ → Bool
  | .nil => true
  | .bare _ others => others.distinct
  | .holding _ shape others => shape.distinct && others.distinct

end

/-- The shapes that the rules for reading are about. -/
def Shape.Readable {α : Type} (shape : Shape α) : Prop :=
  shape.depth ≤ 127 ∧ shape.distinct = true

instance {α : Type} (shape : Shape α) : Decidable shape.Readable :=
  inferInstanceAs (Decidable (_ ∧ _))

section Reading

variable [Library] {α σ : Type}

/-- Every text that spells a value is read as a datum, or refused if there is none. -/
def Reads (shape : Shape α) (value : Json) (datum? : Option α) : Prop :=
  ∀ text, value.IsSpelledBy text → (Library.read shape text).toOption = datum?

/-- The fields of an object are found among its members, each by its name. -/
def Fields.ReadFromMembers {σ : Type} : Fields σ → List (String × Json) → Option σ → Prop
  | .nil, _, data? => data? = some ()
  | .field name default? shape others, members, data? =>
    ∃ decode others?, (∀ value, (name, value) ∈ members → Reads shape value (decode value)) ∧
      others.ReadFromMembers members others? ∧
      data? = do
        let found? ← Decoder.field decode name members
        let value ← (found?.or default?).or shape.missing?
        return (value, ← others?)

/-- The fields of a list are its items in order. -/
def Fields.ReadFromItems {σ : Type} : Fields σ → List Json → Option σ → Prop
  | .nil, items, data? => data? = if items = [] then some () else none
  | .field _ default? _ others, [], data? =>
    ∃ others?, others.ReadFromItems [] others? ∧ data? = do return (← default?, ← others?)
  | .field _ _ shape others, item :: items, data? =>
    ∃ datum? others?, Reads shape item datum? ∧ others.ReadFromItems items others? ∧
      data? = do return (← datum?, ← others?)

/-- A variant is found by its name, and what belongs to it is read from what stands there. -/
def Variants.ReadFrom {σ : Type} : Variants σ → String → Option Json → Option σ → Prop
  | .nil, _, _, datum? => datum? = none
  | .bare own others, name, content?, datum? =>
    if own = name then datum? = (decodeNothing content?).map .inl
    else ∃ other?, others.ReadFrom name content? other? ∧ datum? = other?.map .inr
  | .holding own shape others, name, content?, datum? =>
    if own = name then
      ∃ decode, (∀ content, content? = some content → Reads shape content (decode content)) ∧
        datum? = (content?.bind decode).map .inl
    else ∃ other?, others.ReadFrom name content? other? ∧ datum? = other?.map .inr

/-- Reading follows the documented rules. -/
structure ReadsByRules [Library] : Prop where
  text (value : Json) : Reads .text value (decodeText value)
  /-- Nothing is written as `null`. -/
  nothing {α : Type} {content : Shape α} : content.Readable →
    Reads (.optional content) .null (some none)
  something {α : Type} {content : Shape α} {value : Json} {datum? : Option α} : content.Readable →
    value ≠ .null → Reads content value datum? → Reads (.optional content) value (datum?.map some)
  list {α : Type} {item : Shape α} {values : List Json} {decode : Decoder α} :
    (Shape.list item).Readable → (∀ value ∈ values, Reads item value (decode value)) →
    Reads (.list item) (.array values) (values.mapM decode)
  noList {α : Type} {item : Shape α} {value : Json} : (Shape.list item).Readable →
    (∀ items, value ≠ .array items) → Reads (.list item) value none
  object {σ : Type} {name : String} {fields : Fields σ} {members : List (String × Json)}
    {data? : Option σ} : (Shape.record name fields).Readable →
    fields.ReadFromMembers members data? → Reads (.record name fields) (.object members) data?
  items {σ : Type} {name : String} {fields : Fields σ} {items : List Json} {data? : Option σ} :
    (Shape.record name fields).Readable → fields.ReadFromItems items data? →
    Reads (.record name fields) (.array items) data?
  noRecord {σ : Type} {name : String} {fields : Fields σ} {value : Json} :
    (Shape.record name fields).Readable → (∀ members, value ≠ .object members) →
    (∀ items, value ≠ .array items) → Reads (.record name fields) value none
  name {σ : Type} {variants : Variants σ} {name : String} {datum? : Option σ} :
    (Shape.choice variants).Readable → variants.ReadFrom name none datum? →
    Reads (.choice variants) (.string name) datum?
  member {σ : Type} {variants : Variants σ} {name : String} {content : Json} {datum? : Option σ} :
    (Shape.choice variants).Readable → variants.ReadFrom name (some content) datum? →
    Reads (.choice variants) (.object [(name, content)]) datum?
  noVariant {σ : Type} {variants : Variants σ} {value : Json} :
    (Shape.choice variants).Readable → (∀ name, value ≠ .string name) →
    (∀ name content, value ≠ .object [(name, content)]) → Reads (.choice variants) value none

end Reading

section Writing

/-- A way in which data of all shapes are written. -/
abbrev Writer := {α : Type} → Shape α → α → Except String String

variable (write : Writer) {α σ : Type}

/-- What is written of a datum spells a value. -/
def Writes (shape : Shape α) (datum : α) (value : Json) : Prop :=
  ∃ text, write shape datum = .ok text ∧ value.IsSpelledBy text

/-- The fields of a record are written in order. -/
def Fields.WrittenAs {σ : Type} : Fields σ → σ → List (String × Json) → Prop
  | .nil, (), members => members = []
  | .field name _ shape others, (datum, data), members =>
    ∃ value rest, Writes write shape datum value ∧ others.WrittenAs data rest ∧
      members = (name, value) :: rest

/-- A bare variant is written as its name, and another one as an object of its name and its data. -/
def Variants.WrittenAs {σ : Type} : Variants σ → σ → Json → Prop
  | .bare name _, .inl (), value => value = .string name
  | .bare _ others, .inr datum, value => others.WrittenAs datum value
  | .holding name shape _, .inl datum, value =>
    ∃ content, Writes write shape datum content ∧ value = .object [(name, content)]
  | .holding _ _ others, .inr datum, value => others.WrittenAs datum value

/-- Writing never fails and follows the documented rules. -/
structure WritesByRules : Prop where
  text (value : String) : Writes write .text value (.string value)
  nothing {α : Type} (content : Shape α) : Writes write (.optional content) none .null
  something {α : Type} {content : Shape α} {datum : α} {value : Json} :
    Writes write content datum value → Writes write (.optional content) (some datum) value
  list {α : Type} {item : Shape α} {data : List α} {encode : α → Json} :
    (∀ datum ∈ data, Writes write item datum (encode datum)) →
    Writes write (.list item) data (.array (data.map encode))
  record {σ : Type} (name : String) {fields : Fields σ} {data : σ}
    {members : List (String × Json)} : fields.WrittenAs write data members →
    Writes write (.record name fields) data (.object members)
  choice {σ : Type} {variants : Variants σ} {datum : σ} {value : Json} :
    variants.WrittenAs write datum value → Writes write (.choice variants) datum value

end Writing

end RibMap.Json
