import RibMap.EdgeSet
import RibMap.Json.Shape

/-! # Edges as JSON

An edge is an object of its two names, and a set is the list of its edges in order. What is written
of an edge is not read again by the program.
-/

namespace RibMap

namespace Edge

/-- A name is written as a text, although it has a type of its own in the records of an edge. -/
def fields : Json.Fields (String × String × Unit) :=
  .field "left" none .text <| .field "right" none .text .nil

def toFields (edge : Edge) : String × String × Unit :=
  (edge.left, edge.right, ())

def shape : Json.Shape (String × String × Unit) :=
  .record "Edge" fields

/-- Write an edge compactly. -/
def toJson [Json.Library] (edge : Edge) : Except String String :=
  Json.Library.write shape edge.toFields

end Edge

namespace EdgeSet

def shape : Json.Shape (List (String × String × Unit)) :=
  .list Edge.shape

/-- Write a set compactly. -/
def toJson [Json.Library] (set : EdgeSet) : Except String String :=
  Json.Library.write shape (set.toList.map Edge.toFields)

/-- Write a set with an item or member to a line. -/
def toJsonIndented [Json.Library] (set : EdgeSet) : Except String String :=
  Json.Library.writeIndented shape (set.toList.map Edge.toFields)

end EdgeSet

end RibMap
