import RibMap.Event
import RibMap.Sources.Error

/-! # Collecting sources

A given file is a source whatever its name is. A given directory stands for the Swift files below
it, where links to directories are followed and directories with certain names are left out. The
walk below a directory either goes into one of its own directories or uses up a link, so it ends
even if links lead back to where it came from.
-/

namespace RibMap

/-- Paths that were found, what was reported meanwhile, and why the search was given up, if it
was. -/
structure Finding where
  paths : List Path
  events : List Event
  failure? : Option SourceError := none

namespace Finding

def empty : Finding := ⟨[], [], none⟩

/-- What was found first, and then, unless the search had been given up. -/
def append (first next : Finding) : Finding :=
  match first.failure? with
  | some _ => first
  | none => ⟨first.paths ++ next.paths, first.events ++ next.events, next.failure?⟩

/-- A search in a directory whose listing breaks off in the end, if it does. -/
def unlessBrokenOff (path : Path) (error? : Option OsError) (found : Finding) : Finding :=
  found.append ⟨[], [], error?.map (.io path.spelling)⟩

end Finding

namespace FileSystem

/-- An entry that is no directory counts if it has the name of a Swift file. -/
def leaf (path : Path) : Finding :=
  if path.isSwift then ⟨[path], [], none⟩ else .empty

/-- Whether the system refuses a path for its length. -/
def isTooLong (path : Path) : Bool :=
  pathLimit ≤ path.spelling.utf8ByteSize

/-- What is listed of the entries of a directory, and why no more. -/
def listing (fs : FileSystem) (here : Location) (entries : List (String × Node)) :
    List (String × Node) × Option OsError :=
  match fs.faults.listing here with
  | none => (entries, none)
  | some (count, error) => (entries.take count, some error)

theorem sizeOf_take_le (count : Nat) (entries : List (String × Node)) :
    sizeOf (entries.take count) ≤ sizeOf entries := by
  induction entries generalizing count with
  | nil => simp
  | cons entry entries ih =>
    cases count with
    | zero =>
      simp only [List.take_zero, List.nil.sizeOf_spec, List.cons.sizeOf_spec]
      omega
    | succ count =>
      have := ih count
      simp only [List.take_succ_cons, List.cons.sizeOf_spec]
      omega

theorem sizeOf_listing_le (fs : FileSystem) (here : Location) (entries : List (String × Node)) :
    sizeOf (fs.listing here entries).1 ≤ sizeOf entries := by
  unfold listing
  split
  · exact Nat.le_refl _
  · exact sizeOf_take_le _ _

mutual

/-- The Swift files below a directory with the given entries, with `links` links left to follow on
the way to anything below it. -/
def below (fs : FileSystem) (skipDirs : List String) (links : Nat) (path : Path) (here : Location)
    (entries : List (String × Node)) : Finding :=
  if path.fileName?.any (· ∈ skipDirs) then ⟨[], [.skipped path.spelling], none⟩
  else
    (fs.belowEntries skipDirs links path here (fs.listing here entries).1).unlessBrokenOff path
      (fs.listing here entries).2
termination_by (links, sizeOf entries, 1)
decreasing_by
  apply Prod.Lex.right
  rcases Nat.lt_or_eq_of_le (sizeOf_listing_le fs here entries) with less | same
  · exact Prod.Lex.left _ _ less
  · rw [same]
    exact Prod.Lex.right _ Nat.zero_lt_one

/-- The Swift files among and below some entries of a directory. -/
def belowEntries (fs : FileSystem) (skipDirs : List String) (links : Nat) (path : Path)
    (here : Location) : List (String × Node) → Finding
  | [] => .empty
  | (name, node) :: rest =>
    let child := path.child name
    let found : Finding :=
      if isTooLong child then leaf child
      else
        match node with
        | .file _ => leaf child
        | .directory entries => fs.below skipDirs links child (here ++ [name]) entries
        | .link target =>
          match links with
          | 0 => leaf child
          | left + 1 =>
            match _found : fs.follow left (origin here target) (segmentsOf target) with
            | .error _ => leaf child
            | .ok (there, remaining) =>
              match fs.entriesAt? there with
              | none => leaf child
              | some entries => fs.below skipDirs remaining child there entries
    found.append (fs.belowEntries skipDirs links path here rest)
termination_by entries => (links, sizeOf entries, 0)
decreasing_by
  · apply Prod.Lex.right
    apply Prod.Lex.left
    simp only [List.cons.sizeOf_spec, Prod.mk.sizeOf_spec, Node.directory.sizeOf_spec]
    omega
  · exact Prod.Lex.left _ _ (Nat.lt_succ_of_le (follow_links_le _found))
  · apply Prod.Lex.right
    apply Prod.Lex.left
    simp only [List.cons.sizeOf_spec]
    omega

end

def missing (path : Path) : Finding :=
  ⟨[], [], some (.notFound path.spelling)⟩

/-- The sources that one given path stands for. -/
def sourcesAt (fs : FileSystem) (skipDirs : List String) (path : Path) : Finding :=
  match fs.look path with
  | .error _ => missing path
  | .ok (here, links) =>
    match fs.root.at? here with
    | some (.directory entries) => fs.below skipDirs links path here entries
    | some (.file _) => ⟨[path], [], none⟩
    | _ => missing path

/-- The sources that given paths stand for, in the order of the paths, up to the first path that
leads nowhere or has something below it that cannot be listed. -/
def gather (fs : FileSystem) (skipDirs : List String) : List Path → Finding
  | [] => .empty
  | path :: rest => (fs.sourcesAt skipDirs path).append (fs.gather skipDirs rest)

/-- The sources that given paths stand for, in the order of their paths and each of them once; what
was reported is kept in any case. -/
def collect (fs : FileSystem) (skipDirs : List String) (paths : List Path) :
    List Event × Except SourceError (List Path) :=
  let found := fs.gather skipDirs paths
  match found.failure? with
  | some error => (found.events, .error error)
  | none => (found.events, .ok (Path.sortUnique found.paths))

end FileSystem

end RibMap
