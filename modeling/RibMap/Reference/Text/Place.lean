/-! # Lines and columns

A place in a text is counted in bytes of its UTF-8 form: the line is one more than the number of
line feeds before the place, the column is the number of bytes after the last of them.
-/

namespace RibMap

def byteLength : List Char → Nat
  | [] => 0
  | c :: rest => c.utf8Size + byteLength rest

/-- A line, counted from one, and a column, counted from zero in bytes. -/
structure Place where
  line : Nat
  column : Nat
  deriving DecidableEq, Repr

namespace Place

def advance (place : Place) : Nat → List Char → Place
  | _, [] => place
  | count, c :: rest =>
    if count < c.utf8Size then { place with column := place.column + count }
    else if c = '\n' then advance ⟨place.line + 1, 0⟩ (count - c.utf8Size) rest
    else advance { place with column := place.column + c.utf8Size } (count - c.utf8Size) rest

/-- The place after the first `count` bytes of a text. -/
def after (count : Nat) (text : List Char) : Place :=
  advance ⟨1, 0⟩ count text

end Place

end RibMap
