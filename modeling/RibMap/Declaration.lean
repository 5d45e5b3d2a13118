/-! # Declarations

A declaration record is what the map needs of a type declared at the top of a source file: its
kind, its name if it has one, and the names it inherits from or conforms to, in order.
-/

namespace RibMap

inductive Kind where
  | «class»
  | «protocol»
  | «struct»
  | «enum»
  | «extension»
  | other (keyword : String)
  deriving DecidableEq, Repr

namespace Kind

def ofKeyword (keyword : String) : Kind :=
  if keyword = "class" then .class
  else if keyword = "protocol" then .protocol
  else if keyword = "struct" then .struct
  else if keyword = "enum" then .enum
  else if keyword = "extension" then .extension
  else .other keyword

/-- Only classes and protocols take part in the inheritance that the map shows. -/
def isInheritable : Kind → Bool
  | .class | .protocol => true
  | _ => false

end Kind

/-- A declaration record. -/
structure Declaration where
  kind : Kind
  name : Option String
  inherited : List String
  deriving DecidableEq, Repr

namespace Declaration

/-- A declaration that inherits nothing yet. -/
def named (kind : Kind) (name : String) : Declaration :=
  ⟨kind, some name, []⟩

/-- Add inherited names behind those already there. -/
def inheriting (declaration : Declaration) (names : List String) : Declaration :=
  { declaration with inherited := declaration.inherited ++ names }

end Declaration

end RibMap
