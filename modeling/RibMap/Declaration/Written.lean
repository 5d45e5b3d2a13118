import RibMap.Declaration
import RibMap.Json.Shape

/-! # Declaration records as JSON

A record is an object of its kind, name and inherited names. A kind is the text of its keyword, and
any other keyword is an object with the single member `other`, so no two kinds are written alike.
-/

namespace RibMap

namespace Kind

/-- One place for each kind, in order; the last one has a keyword of its own. -/
abbrev Variants : Type := Unit ⊕ Unit ⊕ Unit ⊕ Unit ⊕ Unit ⊕ String ⊕ Empty

def variants : Json.Variants Variants :=
  .bare "class" <| .bare "protocol" <| .bare "struct" <| .bare "enum" <| .bare "extension" <|
    .holding "other" .text .nil

def ofVariant : Variants → Kind
  | .inl () => .class
  | .inr (.inl ()) => .protocol
  | .inr (.inr (.inl ())) => .struct
  | .inr (.inr (.inr (.inl ()))) => .enum
  | .inr (.inr (.inr (.inr (.inl ())))) => .extension
  | .inr (.inr (.inr (.inr (.inr (.inl keyword))))) => .other keyword

def variant : Kind → Variants
  | .class => .inl ()
  | .protocol => .inr (.inl ())
  | .struct => .inr (.inr (.inl ()))
  | .enum => .inr (.inr (.inr (.inl ())))
  | .extension => .inr (.inr (.inr (.inr (.inl ()))))
  | .other keyword => .inr (.inr (.inr (.inr (.inr (.inl keyword)))))

def shape : Json.Shape Variants :=
  .choice variants

end Kind

namespace Declaration

/-- The kind and the inherited names are needed, the name is not. -/
def fields : Json.Fields (Kind.Variants × Option String × List String × Unit) :=
  .field "kind" none Kind.shape <|
    .field "name" none (.optional .text) <|
      .field "inherited_names" none (.list .text) .nil

def ofFields : Kind.Variants × Option String × List String × Unit → Declaration
  | (kind, name, inherited, ()) => ⟨.ofVariant kind, name, inherited⟩

def toFields (declaration : Declaration) : Kind.Variants × Option String × List String × Unit :=
  (declaration.kind.variant, declaration.name, declaration.inherited, ())

def shape : Json.Shape (Kind.Variants × Option String × List String × Unit) :=
  .record "DeclarationRecord" fields

/-- Read a JSON text as a record. -/
def ofJson [Json.Library] (text : String) : Except String Declaration :=
  (Json.Library.read shape text).map ofFields

/-- Write a record compactly. -/
def toJson [Json.Library] (declaration : Declaration) : Except String String :=
  Json.Library.write shape declaration.toFields

end Declaration

end RibMap
