import RibMap.Declaration
import RibMap.Json.Shape
import RibMap.Text.Cut

/-! # Structure dumps

A SourceKitten structure dump is a JSON text whose `key.substructure` lists the declarations of a
file. The map needs the kind, the name and the inherited types of the outermost ones.
-/

namespace RibMap

/-- What every declaration kind of a dump starts with. -/
def Kind.dumpNamespace : String := "source.lang.swift.decl."

/-- The kind with a name from a dump; the extensions of all kinds of types are one kind here. -/
def Kind.ofDump (name : String) : Kind :=
  match afterWord? dumpNamespace.toList name.toList with
  | none => .other name
  | some short =>
    if (afterWord? "extension".toList short).isSome then .extension
    else .ofKeyword (String.ofList short)

namespace Dump

/-- An inherited type, which may lack a name. -/
structure InheritedType where
  name : Option String

/-- An entry of a dump. -/
structure Entry where
  kind : Option String
  name : Option String
  inherited : List InheritedType

/-- The record of an entry; an entry without a kind is no declaration. -/
def Entry.declaration? (entry : Entry) : Option Declaration :=
  entry.kind.map fun kind => ⟨.ofDump kind, entry.name, entry.inherited.filterMap (·.name)⟩

namespace InheritedType

def fields : Json.Fields (Option String × Unit) :=
  .field "key.name" none (.optional .text) .nil

def ofFields : Option String × Unit → InheritedType
  | (name, ()) => ⟨name⟩

def shape : Json.Shape (Option String × Unit) :=
  .record "InheritedType" fields

end InheritedType

namespace Entry

/-- The inherited types may be missing. -/
def fields :
    Json.Fields (Option String × Option String × List (Option String × Unit) × Unit) :=
  .field "key.kind" none (.optional .text) <|
    .field "key.name" none (.optional .text) <|
      .field "key.inheritedtypes" (some []) (.list InheritedType.shape) .nil

def ofFields : Option String × Option String × List (Option String × Unit) × Unit → Entry
  | (kind, name, inherited, ()) => ⟨kind, name, inherited.map InheritedType.ofFields⟩

def shape : Json.Shape (Option String × Option String × List (Option String × Unit) × Unit) :=
  .record "Substructure" fields

end Entry

/-- A dump may have no list of entries. -/
def fields : Json.Fields
    (List (Option String × Option String × List (Option String × Unit) × Unit) × Unit) :=
  .field "key.substructure" (some []) (.list Entry.shape) .nil

def shape : Json.Shape
    (List (Option String × Option String × List (Option String × Unit) × Unit) × Unit) :=
  .record "Structure" fields

/-- The declaration records of a dump, in order. -/
def declarations [Json.Library] (text : String) : Except String (List Declaration) :=
  (Json.Library.read shape text).map fun (entries, ()) =>
    (entries.map Entry.ofFields).filterMap Entry.declaration?

end Dump

end RibMap
