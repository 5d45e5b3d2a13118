import RibMap.Json.Shape
import RibMap.Reference.Json.Printer
import RibMap.Reference.Json.Reader

/-! # A JSON library

A library that reads and writes data of every shape, made of the readers and the printer beside it.
The program is run and tested with this library, and none of its own definitions refers to it.
-/

namespace RibMap.Json

/-- Read a value and convert it. -/
def Reader.map {α β : Type} (f : α → β) (reader : Reader α) : Reader β where
  read text :=
    match reader.read text with
    | .error fault => .error fault
    | .ok (value, rest) => .ok (f value, rest)
  shorter := by
    intro text rest value read
    split at read
    · cases read
    · rename_i found
      cases read
      exact reader.shorter found

/-- No fields: every member is skipped. -/
def FieldReader.none : FieldReader Unit where
  read fields _ text := ignoreField fields text
  noLonger read := length_ignoreField read

/-- A field beside others. -/
def FieldReader.field {α σ : Type} (name : String) (reader : Reader α) (others : FieldReader σ) :
    FieldReader (Option α × σ) where
  read fields key text :=
    if key = name then
      storeField key fields.1 reader (fun value => (some value, fields.2)) text
    else
      match others.read fields.2 key text with
      | .error fault => .error fault
      | .ok (known, rest) => .ok ((fields.1, known), rest)
  noLonger := by
    intro fields fields' key text rest read
    split at read
    · exact length_storeField read
    split at read
    · cases read
    · rename_i found
      cases read
      exact others.noLonger found

/-- A reader of the fields of a record that is written as a list, from a position on. -/
structure ListReader (σ : Type) where
  read : Nat → String → List Char → Reading σ
  noLonger : ∀ {position : Nat} {wanted : String} {text rest : List Char} {value : σ},
    read position wanted text = .ok (value, rest) → rest.length ≤ text.length

def ListReader.none : ListReader Unit where
  read _ _ text := .ok ((), text)
  noLonger := by
    intro position wanted text rest value read
    cases read
    exact Nat.le_refl _

/-- A field in front of others. If the list ends before it, there may be something to take for
it. -/
def ListReader.field {α σ : Type} (default? : Option α) (reader : Reader α)
    (others : ListReader σ) : ListReader (α × σ) where
  read position wanted text :=
    match readPosition (position = 0) reader text with
    | .error fault => .error fault
    | .ok (found?, rest) =>
      match found?.or default? with
      | .none => .error (.floating (.invalidLength position wanted) rest)
      | some value =>
        (others.read (position + 1) wanted rest).map fun read => ((value, read.1), read.2)
  noLonger := by
    intro position wanted text rest value read
    split at read
    · cases read
    rename_i found
    split at read
    · cases read
    cases more : others.read _ _ _ with
    | error fault =>
      rw [more] at read
      cases read
    | ok behind =>
      rw [more] at read
      cases read
      exact Nat.le_trans (others.noLonger more) (length_readPosition found)

/-- How the fields of a record are read in its two forms, where something is known of them on the
way through an object. -/
structure RecordReader (known σ : Type) where
  start : known
  member : FieldReader known
  /-- The fields behind an object. -/
  finish : known → Except Cause σ
  list : ListReader σ
  length : Nat

def RecordReader.none : RecordReader Unit Unit where
  start := ()
  member := .none
  finish _ := .ok ()
  list := .none
  length := 0

/-- A field in front of others; `missing?` stands for it where an object does not have it. -/
def RecordReader.field {α known σ : Type} (name : String) (default? missing? : Option α)
    (reader : Reader α) (others : RecordReader known σ) :
    RecordReader (Option α × known) (α × σ) where
  start := (.none, others.start)
  member := .field name reader others.member
  finish known :=
    match (known.1.or default?).or missing? with
    | .none => .error (.missingField name)
    | some value => (others.finish known.2).map fun values => (value, values)
  list := .field default? reader others.list
  length := others.length + 1

/-- What a record in the form of a list is to have. -/
def RecordReader.wanted {known σ : Type} (fields : RecordReader known σ) (name : String) : String :=
  if fields.length = 1 then s!"struct {name} with 1 element"
  else s!"struct {name} with {fields.length} elements"

def RecordReader.readObject {known σ : Type} (fields : RecordReader known σ) (text : List Char) :
    Reading σ :=
  match readMembers fields.member fields.start true text with
  | .error fault => .error fault
  | .ok (known, rest) =>
    match fields.finish known with
    | .error cause => .error (.floating cause rest)
    | .ok value => .ok (value, rest)

theorem RecordReader.length_readObject {known σ : Type} {fields : RecordReader known σ}
    {text rest : List Char} {value : σ} (read : fields.readObject text = .ok (value, rest)) :
    rest.length ≤ text.length := by
  unfold readObject at read
  split at read
  · cases read
  rename_i members
  split at read
  · cases read
  · cases read
    exact length_readMembers members

/-- The two written forms of a record with a name. -/
def RecordReader.shape {known σ : Type} (fields : RecordReader known σ) (name : String) :
    RecordShape σ where
  name := name
  ofList := fields.list.read 0 (fields.wanted name)
  ofObject := fields.readObject
  ofList_noLonger := fields.list.noLonger
  ofObject_noLonger := length_readObject

/-- A variant of a choice: nothing but its name, or what belongs to it. -/
inductive VariantReader (σ : Type) where
  | bare (value : σ)
  | holding (reader : Reader σ)

/-- The variants of a choice by their names. -/
abbrev ChoiceReader (σ : Type) := List (String × VariantReader σ)

namespace ChoiceReader

variable {σ : Type} (variants : ChoiceReader σ)

def readName (text : List Char) : Reading (VariantReader σ) :=
  match readTextAs "variant identifier" text with
  | .error fault => .error fault
  | .ok (name, rest) =>
    match variants.find? (·.1 = name) with
    | some (_, variant) => .ok (variant, rest)
    | none => .error (.at (.unknownVariant name (variants.map Prod.fst)) rest)

/-- Read what belongs to a variant; to a bare one belongs nothing but `null`. -/
def readContent (variant : VariantReader σ) (text : List Char) : Reading σ :=
  match variant with
  | .bare value =>
    match readNull text with
    | .error fault => .error fault
    | .ok rest => .ok (value, rest)
  | .holding reader => reader.read text

/-- Read the member of an object that stands for a choice, and the end of the object. -/
def readMember (text : List Char) : Reading σ :=
  match variants.readName text with
  | .error fault => .error fault
  | .ok (variant, rest) =>
    match readColon rest with
    | .error fault => .error fault
    | .ok content =>
      match readContent variant content with
      | .error fault => .error fault
      | .ok (value, left) =>
        match skipLayout left with
        | [] => .error (.at .endInObject [])
        | '\x7d' :: after => .ok (value, after)
        | after => .error (.at .expectedValue after)

def read (text : List Char) : Reading σ :=
  match skipLayout text with
  | [] => .error (.on .endInValue [])
  | '"' :: rest =>
    match variants.readName ('"' :: rest) with
    | .error fault => .error fault
    | .ok (.bare value, left) => .ok (value, left)
    | .ok (.holding _, left) =>
      .error (.floating (.invalidType .bareVariant "newtype variant") left)
  | '\x7b' :: rest => variants.readMember rest
  | rest => .error (.on .expectedValue rest)

variable {variants : ChoiceReader σ}

theorem length_readName {text rest : List Char} {variant : VariantReader σ}
    (read : variants.readName text = .ok (variant, rest)) : rest.length < text.length := by
  unfold readName at read
  split at read
  · cases read
  · rename_i found
    split at read
    · cases read
      exact length_readTextAs found
    · cases read

theorem length_readNull {text rest : List Char} (read : readNull text = .ok rest) :
    rest.length ≤ text.length := by
  unfold readNull at read
  have layout := length_skipLayout text
  split at read
  · rename_i shape
    simp only [shape, List.length_cons] at layout
    have := length_readWord read
    omega
  · cases read

theorem length_readContent {variant : VariantReader σ} {text rest : List Char} {value : σ}
    (read : readContent variant text = .ok (value, rest)) : rest.length ≤ text.length := by
  unfold readContent at read
  split at read
  · split at read
    · cases read
    · rename_i null
      cases read
      exact length_readNull null
  · rename_i reader
    exact Nat.le_of_lt (reader.shorter read)

theorem length_readMember {text rest : List Char} {value : σ}
    (read : variants.readMember text = .ok (value, rest)) : rest.length < text.length := by
  unfold readMember at read
  split at read
  · cases read
  rename_i variant
  split at read
  · cases read
  rename_i colon
  split at read
  · cases read
  rename_i left content
  have layout := length_skipLayout left
  split at read
  · cases read
  · rename_i shape
    cases read
    simp only [shape, List.length_cons] at layout
    have := length_readName variant
    have := length_readColon colon
    have := length_readContent content
    omega
  · cases read

def reader (variants : ChoiceReader σ) : Reader σ where
  read := variants.read
  shorter := by
    intro text rest value read
    have layout := length_skipLayout text
    unfold ChoiceReader.read at read
    split at read
    · cases read
    · rename_i shape
      simp only [shape, List.length_cons] at layout
      split at read
      · cases read
      · rename_i variant
        cases read
        have := length_readName variant
        simp only [List.length_cons] at this
        omega
      · cases read
    · rename_i shape
      simp only [shape, List.length_cons] at layout
      have := length_readMember read
      omega
    · cases read

end ChoiceReader

/-- A variant of the others of a choice. -/
def VariantReader.other {α σ : Type} : VariantReader σ → VariantReader (α ⊕ σ)
  | .bare value => .bare (.inr value)
  | .holding reader => .holding (reader.map .inr)

/-- What is known of the fields of a record on the way through an object. -/
def Fields.Known {σ : Type} : Fields σ → Type
  | .nil => Unit
  | .field (α := α) _ _ _ others => Option α × others.Known

mutual

/-- The reader of a shape. -/
def Shape.reader {α : Type} : Shape α → Reader α
  | .text => textReader
  | .optional content => content.reader.optional
  | .list item => item.reader.list
  | .record name fields => (fields.reader.shape name).reader
  | .choice variants => variants.readers.reader

def Fields.reader {σ : Type} : (fields : Fields σ) → RecordReader fields.Known σ
  | .nil => .none
  | .field name default? shape others =>
    .field name default? shape.missing? shape.reader others.reader

def Variants.readers {σ : Type} : Variants σ → ChoiceReader σ
  | .nil => []
  | .bare name others =>
    (name, .bare (.inl ())) :: others.readers.map fun (name, variant) => (name, variant.other)
  | .holding name shape others =>
    (name, .holding (shape.reader.map .inl)) ::
      others.readers.map fun (name, variant) => (name, variant.other)

end

mutual

/-- The value that is written for data of a shape. -/
def Shape.encode {α : Type} : Shape α → α → Json
  | .text, text => .string text
  | .optional _, none => .null
  | .optional content, some value => content.encode value
  | .list item, values => .array (values.map item.encode)
  | .record _ fields, values => .object (fields.encode values)
  | .choice variants, value => variants.encode value

def Fields.encode {σ : Type} : Fields σ → σ → List (String × Json)
  | .nil, () => []
  | .field name _ shape others, (value, values) =>
    (name, shape.encode value) :: others.encode values

def Variants.encode {σ : Type} : Variants σ → σ → Json
  | .bare name _, .inl () => .string name
  | .bare _ others, .inr value => others.encode value
  | .holding name shape _, .inl value => .object [(name, shape.encode value)]
  | .holding _ _ others, .inr value => others.encode value

end

end RibMap.Json

namespace RibMap.Reference

open Json

/-- The library that is made of these readers and this printer. -/
scoped instance jsonLibrary : Json.Library where
  read shape text := (shape.reader.parse text).mapError Error.message
  write shape value := .ok (shape.encode value).render
  writeIndented shape value := .ok (shape.encode value).renderIndented

end RibMap.Reference
