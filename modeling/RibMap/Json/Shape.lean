/-! # The shapes of data in JSON texts

A type that is read from JSON or written as JSON has a shape: a text, a value that may be missing, a
list, a record of named fields, or a choice between named variants. What a JSON library makes of a
shape is up to the library, which is not part of this development.
-/

namespace RibMap.Json

mutual

/-- The shape of the data of a type. -/
inductive Shape : Type → Type 1 where
  | text : Shape String
  /-- A value or nothing. -/
  | optional {α : Type} (content : Shape α) : Shape (Option α)
  | list {α : Type} (item : Shape α) : Shape (List α)
  | record {σ : Type} (name : String) (fields : Fields σ) : Shape σ
  | choice {σ : Type} (variants : Variants σ) : Shape σ

/-- The fields of a record, in order, with what stands for a missing one if anything does. -/
inductive Fields : Type → Type 1 where
  | nil : Fields Unit
  | field {α σ : Type} (name : String) (default? : Option α) (shape : Shape α) (others : Fields σ) :
    Fields (α × σ)

/-- The variants of a choice, in order; a variant is nothing but its name or holds some data. -/
inductive Variants : Type → Type 1 where
  | nil : Variants Empty
  | bare {σ : Type} (name : String) (others : Variants σ) : Variants (Unit ⊕ σ)
  | holding {α σ : Type} (name : String) (shape : Shape α) (others : Variants σ) : Variants (α ⊕ σ)

end

/-- What stands for a missing value: nothing, where nothing is a value of the shape. -/
def Shape.missing? {α : Type} : Shape α → Option α
  | .optional _ => some none
  | .text | .list _ | .record .. | .choice _ => none

/-- A JSON library: how data of a shape is read from a text, and written compactly and indented.
What it reports of a failure is the wording of the failure. -/
class Library where
  read {α : Type} : Shape α → String → Except String α
  write {α : Type} : Shape α → α → Except String String
  writeIndented {α : Type} : Shape α → α → Except String String

end RibMap.Json
