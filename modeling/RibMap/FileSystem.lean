import RibMap.Path
import RibMap.Text.Cut

/-! # File systems

A tree of directories, files and symbolic links, with a working directory. Looking a path up follows
links wherever they occur and gives up after forty of them, which is why looking up always ends,
whatever the links form. What is found may still be refused when it is read: the listing of a
directory may break off, and a file may be unreadable.
-/

namespace RibMap

/-- What can stand in a directory. -/
inductive Node where
  | file (content : ByteArray)
  | link (target : String)
  | directory (entries : List (String × Node))

/-- The names that lead from the root to a node. -/
abbrev Location := List String

/-- Why the operating system refuses an operation. -/
inductive OsError where
  | notFound
  | notDirectory
  | isDirectory
  | nameTooLong
  | tooManyLinks
  | zeroByte
  | notUtf8
  /-- Anything else, such as a missing permission or a broken device. -/
  | other (message : String)
  deriving DecidableEq, Repr

def OsError.message : OsError → String
  | notFound => "No such file or directory (os error 2)"
  | notDirectory => "Not a directory (os error 20)"
  | isDirectory => "Is a directory (os error 21)"
  | nameTooLong => "File name too long (os error 36)"
  | tooManyLinks => "Too many levels of symbolic links (os error 40)"
  | zeroByte => "file name contained an unexpected NUL byte"
  | notUtf8 => "stream did not contain valid UTF-8"
  | other message => message

def nodeNamed? (name : String) : List (String × Node) → Option Node
  | [] => none
  | (other, node) :: rest => if other = name then some node else nodeNamed? name rest

/-- Put a node under a name, in place of the one there or behind the others. -/
def putEntry (name : String) (node : Node) : List (String × Node) → List (String × Node)
  | [] => [(name, node)]
  | (other, old) :: rest =>
    if other = name then (name, node) :: rest else (other, old) :: putEntry name node rest

namespace Node

def at? : Node → Location → Option Node
  | node, [] => some node
  | directory entries, name :: rest => (nodeNamed? name entries).bind (·.at? rest)
  | _, _ :: _ => none

/-- Put a node at a location below a node, making the directories on the way. -/
def putAt (new : Node) : Node → Location → Node
  | _, [] => new
  | directory entries, name :: rest =>
    let old := (nodeNamed? name entries).getD (directory [])
    directory (putEntry name (putAt new old rest) entries)
  | _, name :: rest => directory [(name, putAt new (directory []) rest)]

end Node

/-- What goes wrong when directories and files are read that are there. -/
structure Faults where
  /-- After how many entries the listing of a directory breaks off, and why. -/
  listing : Location → Option (Nat × OsError) := fun _ => none
  /-- Why a file cannot be read. -/
  reading : Location → Option OsError := fun _ => none

structure FileSystem where
  root : Node
  /-- The working directory, from which paths lead that do not start with a slash. -/
  working : Location
  faults : Faults := {}

/-- The names between the slashes of a path; one that ends in a slash has to lead to a directory. -/
def segmentsOf (written : String) : List String :=
  let names := ((splitAt '/' written.toList).filter (· ≠ [])).map String.ofList
  if written.toList.getLast? = some '/' then names ++ ["."] else names

namespace FileSystem

/-- The number of links that one look-up follows. -/
def linkLimit : Nat := 40

/-- Paths of this many bytes are too long. -/
def pathLimit : Nat := 4096

/-- Names of more bytes are too long. -/
def nameLimit : Nat := 255

def entriesAt? (fs : FileSystem) (here : Location) : Option (List (String × Node)) :=
  match fs.root.at? here with
  | some (.directory entries) => some entries
  | _ => none

/-- Where a spelling starts from, seen from a directory. -/
def origin (here : Location) (written : String) : Location :=
  if written.toList.head? = some '/' then [] else here

/-- Go along names from a location with a number of links left to follow. -/
def follow (fs : FileSystem) (links : Nat) (here : Location) :
    List String → Except OsError (Location × Nat)
  | [] => .ok (here, links)
  | name :: rest =>
    match fs.entriesAt? here with
    | none => .error .notDirectory
    | some entries =>
      if name = "." then fs.follow links here rest
      else if name = ".." then fs.follow links here.dropLast rest
      else if nameLimit < name.utf8ByteSize then .error .nameTooLong
      else
        match nodeNamed? name entries with
        | none => .error .notFound
        | some (.link target) =>
          match links with
          | 0 => .error .tooManyLinks
          | left + 1 => fs.follow left (origin here target) (segmentsOf target ++ rest)
        | some _ => fs.follow links (here ++ [name]) rest
termination_by names => (links, names.length)

theorem follow_links_le {fs : FileSystem} {links left : Nat} {here found : Location}
    {names : List String} :
    fs.follow links here names = .ok (found, left) → left ≤ links := by
  fun_induction follow fs links here names with
  | case1 links here =>
    intro done
    cases done
    exact Nat.le_refl _
  | case2 => simp
  | case3 => assumption
  | case4 => assumption
  | case5 => simp
  | case6 => simp
  | case7 => simp
  | case8 =>
    rename_i ih
    intro done
    exact Nat.le_succ_of_le (ih done)
  | case9 => assumption

/-- The spellings that no look-up takes. -/
def refusal? (spelling : String) : Option OsError :=
  if spelling.toList.any (·.toNat == 0) then some .zeroByte
  else if pathLimit ≤ spelling.utf8ByteSize then some .nameTooLong
  else if spelling.isEmpty then some .notFound
  else none

/-- The names of a path from the place where its spelling starts. -/
def namesOf (path : Path) : List String :=
  segmentsOf path.written ++ path.below

/-- Look a path up; what is found is no link, and comes with the number of links left to follow. -/
def look (fs : FileSystem) (path : Path) : Except OsError (Location × Nat) :=
  match refusal? path.spelling with
  | some error => .error error
  | none => fs.follow linkLimit (origin fs.working path.written) (namesOf path)

def node? (fs : FileSystem) (path : Path) : Option Node :=
  match fs.look path with
  | .error _ => none
  | .ok (here, _) => fs.root.at? here

def isFile (fs : FileSystem) (path : Path) : Bool :=
  match fs.node? path with
  | some (.file _) => true
  | _ => false

def isDirectory (fs : FileSystem) (path : Path) : Bool :=
  match fs.node? path with
  | some (.directory _) => true
  | _ => false

def readText (fs : FileSystem) (path : Path) : Except OsError String :=
  match fs.look path with
  | .error error => .error error
  | .ok (here, _) =>
    match fs.root.at? here with
    | some (.file content) =>
      match fs.faults.reading here with
      | some error => .error error
      | none =>
        match String.fromUTF8? content with
        | some text => .ok text
        | none => .error .notUtf8
    | some (.directory _) => .error .isDirectory
    | _ => .error .notFound

def put (fs : FileSystem) (here : Location) (node : Node) : FileSystem :=
  { fs with root := .putAt node fs.root here }

/-- Where a file with a name is made or overwritten: links are followed, also to names that do not
exist yet. -/
def creationPlace (fs : FileSystem) (links : Nat) (here : Location) :
    List String → Except OsError Location
  | [] => .error .isDirectory
  | [name] =>
    match fs.entriesAt? here with
    | none => .error .notDirectory
    | some entries =>
      if name = "." ∨ name = ".." then .error .isDirectory
      else if nameLimit < name.utf8ByteSize then .error .nameTooLong
      else
        match nodeNamed? name entries with
        | none => .ok (here ++ [name])
        | some (.file _) => .ok (here ++ [name])
        | some (.directory _) => .error .isDirectory
        | some (.link target) =>
          match links with
          | 0 => .error .tooManyLinks
          | left + 1 => fs.creationPlace left (origin here target) (segmentsOf target)
  | name :: next :: rest =>
    match _found : fs.follow links here [name] with
    | .error error => .error error
    | .ok (there, left) => fs.creationPlace left there (next :: rest)
termination_by names => (links, names.length)
decreasing_by
  · exact Prod.Lex.left _ _ (Nat.lt_succ_self _)
  · rcases Nat.lt_or_eq_of_le (follow_links_le _found) with fewer | same
    · exact Prod.Lex.left _ _ fewer
    · rw [same]
      exact Prod.Lex.right _ (by simp)

/-- Where a path leads that is to be a file. A final slash asks for a directory instead. -/
def creationOf (fs : FileSystem) (path : Path) : Except OsError Location :=
  let start := origin fs.working path.written
  let names := namesOf path
  if path.spelling.toList.getLast? = some '/' then
    match fs.follow linkLimit start (names.dropLast.dropLast ++ ["."]) with
    | .error error => .error error
    | .ok _ => .error .isDirectory
  else fs.creationPlace linkLimit start names

/-- Write a file, which is made if it does not exist and otherwise loses its former content. -/
def write (fs : FileSystem) (path : Path) (content : ByteArray) : Except OsError FileSystem :=
  match refusal? path.spelling with
  | some error => .error error
  | none =>
    match fs.creationOf path with
    | .error error => .error error
    | .ok here => .ok (fs.put here (.file content))

end FileSystem

end RibMap
