import RibMap.Declaration
import RibMap.EdgeSet
import RibMap.Event

/-! # Edges of declarations

A class or protocol with a name has an edge to every other name that it inherits. Records of other
kinds, without a name or with an empty one have none, and empty inherited names count for nothing.
-/

namespace RibMap

/-- The edges of one declaration, in the order of its inherited names. -/
def Declaration.edges (declaration : Declaration) : List Edge :=
  if declaration.kind.isInheritable then
    match declaration.name with
    | none => []
    | some name =>
      if name = "" then []
      else (declaration.inherited.filter (· ≠ "")).filterMap (Edge.of? name)
  else []

def EdgeSet.ofDeclarations (declarations : List Declaration) : EdgeSet :=
  .ofList (declarations.flatMap Declaration.edges)

/-- The event that reports the edges of a list of declarations. -/
def Event.ofExtraction (declarations : List Declaration) : Event :=
  .extracted (EdgeSet.ofDeclarations declarations).size declarations.length

end RibMap
