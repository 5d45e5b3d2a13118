/-! # JSON values

Objects keep their members in the order in which they were written, and a number keeps its
spelling, so a value says all that a text says about it except layout and escapes.
-/

namespace RibMap

inductive Json where
  | null
  | boolean (value : Bool)
  | number (spelling : String)
  | string (value : String)
  | array (items : List Json)
  | object (members : List (String × Json))

end RibMap
