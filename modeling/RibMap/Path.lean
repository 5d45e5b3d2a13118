import RibMap.Text.Cut

/-! # Paths

A path keeps the spelling in which it was given, and the names of the entries through which a
directory walk went on from there. Two paths are the same if their parts are, and paths are ordered
part by part. Doubled slashes, a final slash and dots other than the first make no parts.
-/

namespace RibMap

structure Path where
  written : String
  below : List String := []
  deriving DecidableEq, Repr

inductive Part where
  | root
  | current
  | parent
  | name (text : String)
  deriving DecidableEq, Repr

/-- The place of a part among the kinds of parts. -/
def Part.rank : Part → Nat
  | root => 0
  | current => 1
  | parent => 2
  | name _ => 3

/-- The text of a name; the other parts have none to compare. -/
def Part.text : Part → String
  | name text => text
  | _ => ""

def Part.Before (a b : Part) : Prop :=
  a.rank < b.rank ∨ a.rank = b.rank ∧ a.text < b.text

instance (a b : Part) : Decidable (a.Before b) :=
  inferInstanceAs (Decidable (_ ∨ _))

/-- Whether parts come before others, or are the same. -/
def Part.listLe : List Part → List Part → Bool
  | [], _ => true
  | _ :: _, [] => false
  | a :: as, b :: bs => if a = b then listLe as bs else a.Before b

/-- The text between slashes as a part; dots and empty texts are none. -/
def Part.ofSegment? (segment : List Char) : Option Part :=
  if segment = [] ∨ segment = ['.'] then none
  else if segment = ['.', '.'] then some .parent
  else some (.name (String.ofList segment))

/-- The parts of a spelling. -/
def Part.listOf (written : String) : List Part :=
  let segments := splitAt '/' written.toList
  let first :=
    if written.toList.head? = some '/' then [Part.root]
    else if segments.head? = some ['.'] then [Part.current]
    else []
  first ++ segments.filterMap Part.ofSegment?

/-- Put an entry behind the spelling of a directory. -/
def joinSpelling (directory name : String) : String :=
  if directory.isEmpty then name
  else if directory.toList.getLast? = some '/' then directory ++ name
  else directory ++ "/" ++ name

namespace Path

def ofString (written : String) : Path := { written := written }

/-- The entry of a directory. -/
def child (path : Path) (name : String) : Path :=
  { path with below := path.below ++ [name] }

def spelling (path : Path) : String :=
  path.below.foldl joinSpelling path.written

def parts (path : Path) : List Part :=
  Part.listOf path.written ++ path.below.map Part.name

/-- Whether a path comes before another one, or is the same. -/
def le (a b : Path) : Bool :=
  Part.listLe a.parts b.parts

/-- The last part, if it is a name. -/
def fileName? (path : Path) : Option String :=
  match path.parts.getLast? with
  | some (.name text) => some text
  | _ => none

/-- What follows the last dot of a name; a dot in front starts no extension. -/
def extensionOf? (name : String) : Option String :=
  let backwards := name.toList.reverse
  let suffix := backwards.takeWhile (· ≠ '.')
  match backwards.drop suffix.length with
  | _ :: _ :: _ => some (String.ofList suffix.reverse)
  | _ => none

def extension? (path : Path) : Option String :=
  path.fileName?.bind extensionOf?

def isSwift (path : Path) : Bool :=
  path.extension? = some "swift"

def isDump (path : Path) : Bool :=
  path.extension? = some "json"

/-- Drop every path that is the same as the one before it. -/
def dropRepeats : List Path → List Path
  | [] => []
  | path :: rest =>
    match dropRepeats rest with
    | [] => [path]
    | next :: left => if path.parts = next.parts then path :: left else path :: next :: left

/-- Paths in their order, each of them once; of the same ones, the first spelling stays. -/
def sortUnique (paths : List Path) : List Path :=
  dropRepeats (paths.mergeSort le)

end Path

end RibMap
