import Mathlib.Data.Set.Finite.Lattice
import Mathlib.Logic.Relation
import RibMap.Proofs.Sources.Exactness

/-! # Walks come to an end

A walk that asks the operating system about every path anew has no look-ups to hand down and no list
of directories where it was. It comes to an end because of what it asks: on the way into a directory
either a link is followed, and a path with more than forty links is not resolved, or the directory
is one of those that stand inside of the one before. So calls are nested at most forty-one times as
deep as directories are.
-/

namespace RibMap

mutual

/-- How deep directories stand inside of each other in a node. -/
def Node.height : Node → Nat
  | .directory entries => heightOf entries + 1
  | .file _ | .link _ => 0

/-- The greatest height of some entries. -/
def heightOf : List (String × Node) → Nat
  | [] => 0
  | (_, node) :: rest => max node.height (heightOf rest)

end

theorem height_le_heightOf {name : String} {node : Node} {entries : List (String × Node)}
    (mem : (name, node) ∈ entries) : node.height ≤ heightOf entries := by
  induction entries with
  | nil => cases mem
  | cons first rest ih =>
    rw [heightOf]
    rcases List.mem_cons.mp mem with rfl | later
    · exact Nat.le_max_left _ _
    · exact Nat.le_trans (ih later) (Nat.le_max_right _ _)

/-- What stands in a directory is lower than the directory. -/
theorem Node.height_lt_of_mem {name : String} {node : Node} {entries : List (String × Node)}
    (mem : (name, node) ∈ entries) : node.height < (directory entries).height := by
  rw [Node.height.eq_def (directory entries)]
  exact Nat.lt_succ_of_le (height_le_heightOf mem)

theorem Node.height_le_of_at? {node inner : Node} {here : Location}
    (found : node.at? here = some inner) : inner.height ≤ node.height := by
  induction here generalizing node with
  | nil =>
    rw [at?_nil] at found
    cases found
    exact Nat.le_refl _
  | cons name rest ih =>
    obtain ⟨entries, next, rfl, entry, found⟩ := at?_cons_eq_some_iff.mp found
    exact Nat.le_trans (ih found) (Nat.le_of_lt (height_lt_of_mem (mem_of_nodeNamed? entry)))

/-- Visit paths one after the other, up to the first failure. -/
def Finding.inOrder (visit : Path → Option Finding) : List Path → Option Finding
  | [] => some .empty
  | path :: rest =>
    (visit path).bind fun found =>
      match found.failure? with
      | some _ => some found
      | none => (inOrder visit rest).map found.append

namespace FileSystem

/-- Whether the name of a directory is one of those to leave out. -/
def isLeftOut (skipDirs : List String) (path : Path) : Bool :=
  path.fileName?.any fun name => decide (name ∈ skipDirs)

/-- Where a path leads over forty links at most, whatever its length. -/
def resolve (fs : FileSystem) (path : Path) : Except OsError (Location × Nat) :=
  fs.follow linkLimit (origin fs.working path.written) (namesOf path)

end FileSystem

open FileSystem

/-- The answers of an operating system about directories. -/
structure Host where
  isDirectory : Path → Bool
  /-- The names that a directory lists, up to the error that breaks the listing off if one does. -/
  names : Path → List String
  breakingOff? : Path → Option OsError

namespace Host

/-- A system answers from a file system: what it takes for a directory can be resolved over forty
links at most, and what it lists is among the entries of such a directory. It may refuse anything
else. -/
structure AnswersFrom (host : Host) (fs : FileSystem) : Prop where
  resolved : ∀ path, host.isDirectory path = true → ∃ here left entries,
    fs.resolve path = .ok (here, left) ∧ fs.entriesAt? here = some entries
  listed : ∀ path, ∀ name ∈ host.names path, ∃ here left entries,
    fs.resolve path = .ok (here, left) ∧ fs.entriesAt? here = some entries ∧
      name ∈ entries.map Prod.fst

/-- The calls that a walk makes at a directory, one for each directory listed there. -/
def calls (host : Host) (skipDirs : List String) (path : Path) : List Path :=
  if isLeftOut skipDirs path then []
  else ((host.names path).map path.child).filter host.isDirectory

/-- Visit an entry of a directory: walk on into it if it is one itself. -/
def visit (host : Host) (walkOn : Path → Option Finding) (path : Path) : Option Finding :=
  if host.isDirectory path then walkOn path else some (leaf path)

/-- Walk a directory with at most so many calls inside of each other; nothing if there are more. -/
def walk (host : Host) (skipDirs : List String) : Nat → Path → Option Finding
  | 0, _ => none
  | depth + 1, path =>
    if isLeftOut skipDirs path then some ⟨[], [.skipped path.spelling], none⟩
    else
      (Finding.inOrder (host.visit (host.walk skipDirs depth))
        ((host.names path).map path.child)).map
        (Finding.unlessBrokenOff path (host.breakingOff? path))

end Host

namespace FileSystem

/-- What a file system lists of a path, and why no more. -/
def listingAt (fs : FileSystem) (path : Path) : List (String × Node) × Option OsError :=
  match fs.look path with
  | .error error => ([], some error)
  | .ok (here, _) =>
    match fs.entriesAt? here with
    | none => ([], some .notDirectory)
    | some entries => fs.listing here entries

/-- The answers of a system that refuses nothing but what a look-up or a listing refuses. -/
def host (fs : FileSystem) : Host where
  isDirectory := fs.isDirectory
  names path := (fs.listingAt path).1.map Prod.fst
  breakingOff? path := (fs.listingAt path).2

/-- What is left to a walk at a path: a link is worth more than any depth of directories. -/
def rank (fs : FileSystem) (path : Path) : Nat :=
  match fs.resolve path with
  | .error _ => 0
  | .ok (here, left) =>
    left * (fs.root.height + 1) + ((fs.root.at? here).map Node.height).getD 0

variable {fs : FileSystem} {path : Path} {here there : Location} {left remaining : Nat}
  {name : String} {node : Node} {entries inner : List (String × Node)}

theorem rank_eq (leads : fs.resolve path = .ok (here, left))
    (listed : fs.entriesAt? here = some entries) :
    fs.rank path = left * (fs.root.height + 1) + (Node.directory entries).height := by
  simp only [rank, leads, entriesAt?_eq_some_iff.mp listed]
  rfl

theorem height_directory_le (listed : fs.entriesAt? here = some entries) :
    (Node.directory entries).height ≤ fs.root.height :=
  Node.height_le_of_at? (entriesAt?_eq_some_iff.mp listed)

theorem resolve_child (leads : fs.resolve path = .ok (here, left)) (name : String) :
    fs.resolve (path.child name) = fs.follow left here [name] := by
  have names : namesOf (path.child name) = namesOf path ++ [name] := by
    simp [namesOf, Path.child]
  rw [resolve] at leads
  rw [resolve, names]
  exact follow_append leads [name]

theorem rank_lt_bound (fs : FileSystem) (path : Path) :
    fs.rank path < (linkLimit + 1) * (fs.root.height + 1) := by
  rw [rank]
  split
  · apply Nat.mul_pos <;> apply Nat.succ_pos
  · rename_i here left leads
    have links : left ≤ linkLimit := follow_links_le leads
    have low : ((fs.root.at? here).map Node.height).getD 0 ≤ fs.root.height := by
      cases found : fs.root.at? here with
      | none => exact Nat.zero_le _
      | some node => exact Node.height_le_of_at? found
    calc
      _ ≤ linkLimit * (fs.root.height + 1) + fs.root.height :=
        Nat.add_le_add (Nat.mul_le_mul_right _ links) low
      _ < (linkLimit + 1) * (fs.root.height + 1) := by
        rw [Nat.add_mul]
        omega

/-- On the way into a directory a link is followed, or the directory is lower than the one
before. -/
theorem rank_child_lt (wellFormed : fs.root.WellFormed)
    (leads : fs.resolve path = .ok (here, left)) (listed : fs.entriesAt? here = some entries)
    (known : name ∈ entries.map Prod.fst)
    (leads' : fs.resolve (path.child name) = .ok (there, remaining))
    (listed' : fs.entriesAt? there = some inner) : fs.rank (path.child name) < fs.rank path := by
  rw [rank_eq leads listed, rank_eq leads' listed']
  obtain ⟨⟨name, node⟩, entry, rfl⟩ := List.mem_map.mp known
  rw [resolve_child leads] at leads'
  cases wellFormed_of_entriesAt? wellFormed listed with
  | directory distinct proper _ =>
    have proper := (proper name known).toNamesEntry
    rw [follow_entry listed proper ((nodeNamed?_eq_some_iff distinct).mpr entry)] at leads'
    obtain fewer | ⟨rfl, rfl⟩ := entryPlace_directory wellFormed listed entry leads' listed'
    · have low := height_directory_le listed'
      have spent := Nat.mul_le_mul_right (fs.root.height + 1) (Nat.succ_le_of_lt fewer)
      rw [Nat.succ_mul] at spent
      omega
    · exact Nat.add_lt_add_left (Node.height_lt_of_mem entry) _

end FileSystem

namespace Host

variable {host : Host} {fs : FileSystem} {skipDirs : List String} {path call : Path}

theorem mem_calls : call ∈ host.calls skipDirs path ↔ isLeftOut skipDirs path = false ∧
    (∃ name ∈ host.names path, path.child name = call) ∧ host.isDirectory call = true := by
  rw [calls]
  cases isLeftOut skipDirs path <;> simp

/-- Every call of a walk leaves less to it than there was. -/
theorem rank_lt_of_mem_calls (wellFormed : fs.root.WellFormed) (answers : host.AnswersFrom fs)
    (called : call ∈ host.calls skipDirs path) : fs.rank call < fs.rank path := by
  obtain ⟨-, ⟨name, listed, rfl⟩, directory⟩ := mem_calls.mp called
  obtain ⟨here, left, entries, leads, found, known⟩ := answers.listed path name listed
  obtain ⟨there, remaining, inner, leads', found'⟩ := answers.resolved _ directory
  exact rank_child_lt wellFormed leads found known leads' found'

/-- If every visit comes to an end, with the same answer for every greater depth, so do all of them
one after the other. -/
theorem exists_inOrder {visit : Nat → Path → Option Finding} {least : Nat} {paths : List Path}
    (settles : ∀ path ∈ paths, ∃ answer, ∀ depth ≥ least, visit depth path = some answer) :
    ∃ answer, ∀ depth ≥ least, Finding.inOrder (visit depth) paths = some answer := by
  induction paths with
  | nil => exact ⟨_, fun _ _ => rfl⟩
  | cons path rest ih =>
    obtain ⟨⟨found, first⟩, others⟩ := List.forall_mem_cons.mp settles
    obtain ⟨answer, later⟩ := ih others
    cases failure : found.failure? with
    | some error =>
      refine ⟨found, fun depth enough => ?_⟩
      rw [Finding.inOrder, first depth enough, Option.bind_some, failure]
    | none =>
      refine ⟨found.append answer, fun depth enough => ?_⟩
      rw [Finding.inOrder, first depth enough, Option.bind_some, failure, later depth enough]
      rfl

/-- The induction is on what is left to the walk, which every call makes less. -/
theorem exists_walk (wellFormed : fs.root.WellFormed) (answers : host.AnswersFrom fs)
    (skipDirs : List String) (path : Path) :
    ∃ answer, ∀ depth > fs.rank path, host.walk skipDirs depth path = some answer := by
  induction left : fs.rank path using Nat.strong_induction_on generalizing path with
  | h left ih =>
    subst left
    cases leftOut : isLeftOut skipDirs path with
    | true =>
      refine ⟨⟨[], [.skipped path.spelling], none⟩, fun depth enough => ?_⟩
      obtain ⟨depth, rfl⟩ := Nat.exists_eq_add_of_lt enough
      rw [walk, if_pos leftOut]
    | false =>
      have settles : ∀ child ∈ (host.names path).map path.child, ∃ answer,
          ∀ depth ≥ fs.rank path, host.visit (host.walk skipDirs depth) child = some answer := by
        intro child known
        cases directory : host.isDirectory child with
        | false => exact ⟨_, fun depth _ => if_neg (by simp [directory])⟩
        | true =>
          have called : child ∈ host.calls skipDirs path :=
            mem_calls.mpr ⟨leftOut, List.mem_map.mp known, directory⟩
          have less := rank_lt_of_mem_calls wellFormed answers called
          obtain ⟨answer, ends⟩ := ih _ less child rfl
          refine ⟨answer, fun depth enough => ?_⟩
          rw [visit, if_pos directory]
          exact ends depth (Nat.lt_of_lt_of_le less enough)
      obtain ⟨answer, ends⟩ := exists_inOrder settles
      refine ⟨answer.unlessBrokenOff path (host.breakingOff? path), fun depth enough => ?_⟩
      obtain ⟨depth, rfl⟩ := Nat.exists_eq_add_of_lt enough
      rw [walk, if_neg (by simp [leftOut]), ends _ (Nat.le_add_right _ depth), Option.map_some]

theorem finite_calls (wellFormed : fs.root.WellFormed) (answers : host.AnswersFrom fs)
    (skipDirs : List String) (path : Path) :
    {call | Relation.ReflTransGen (fun caller call => call ∈ host.calls skipDirs caller)
      path call}.Finite := by
  induction left : fs.rank path using Nat.strong_induction_on generalizing path with
  | h left ih =>
    subst left
    have inner : ∀ call ∈ {call | call ∈ host.calls skipDirs path},
        {last | Relation.ReflTransGen (fun caller call => call ∈ host.calls skipDirs caller)
          call last}.Finite :=
      fun call called => ih _ (rank_lt_of_mem_calls wellFormed answers called) call rfl
    have calls : {call | call ∈ host.calls skipDirs path}.Finite := List.finite_toSet _
    refine ((Set.finite_singleton path).union (calls.biUnion inner)).subset fun last reached => ?_
    obtain rfl | ⟨call, called, more⟩ := Relation.ReflTransGen.cases_head reached
    · exact Set.mem_union_left _ rfl
    · exact Set.mem_union_right _ (Set.mem_biUnion called more)

end Host

namespace FileSystem

variable {fs : FileSystem} {skipDirs : List String} {path : Path} {here : Location} {left : Nat}
  {name : String} {node : Node} {entries listing : List (String × Node)}

theorem resolve_of_look (leads : fs.look path = .ok (here, left)) :
    fs.resolve path = .ok (here, left) := by
  rw [look] at leads
  split at leads
  · cases leads
  · exact leads

theorem host_names (leads : fs.look path = .ok (here, left))
    (listed : fs.entriesAt? here = some entries) :
    fs.host.names path = (fs.listing here entries).1.map Prod.fst := by
  simp only [host, listingAt, leads, listed]

theorem host_breakingOff? (leads : fs.look path = .ok (here, left))
    (listed : fs.entriesAt? here = some entries) :
    fs.host.breakingOff? path = (fs.listing here entries).2 := by
  simp only [host, listingAt, leads, listed]

theorem answersFrom_host (fs : FileSystem) : fs.host.AnswersFrom fs where
  resolved path directory := by
    obtain ⟨here, left, entries, leads, listed⟩ := isDirectory_eq_true_iff.mp directory
    exact ⟨here, left, entries, resolve_of_look leads, listed⟩
  listed path name known := by
    cases leads : fs.look path with
    | error error => simp [host, listingAt, leads] at known
    | ok place =>
      obtain ⟨here, left⟩ := place
      cases listed : fs.entriesAt? here with
      | none => simp [host, listingAt, leads, listed] at known
      | some entries =>
        rw [host_names leads listed] at known
        exact ⟨here, left, entries, resolve_of_look leads, listed,
          List.map_subset Prod.fst (fs.listing_subset here entries) known⟩

theorem below_eq (fs : FileSystem) (skipDirs : List String) (left : Nat) (path : Path)
    (here : Location) (entries : List (String × Node)) :
    fs.below skipDirs left path here entries =
      if isLeftOut skipDirs path then ⟨[], [.skipped path.spelling], none⟩
      else
        (fs.belowEntries skipDirs left path here (fs.listing here entries).1).unlessBrokenOff path
          (fs.listing here entries).2 :=
  below.eq_1 fs skipDirs left path here entries

/-- Visits of entries find what a search of each of them finds. -/
theorem inOrder_belowEntries (wellFormed : fs.root.WellFormed)
    (leads : fs.look path = .ok (here, left)) (listed : fs.entriesAt? here = some entries)
    (included : listing ⊆ entries) {visit : Path → Option Finding}
    (finds : ∀ entry ∈ listing, visit (path.child entry.1) =
      some (fs.search skipDirs (path.child entry.1))) :
    Finding.inOrder visit ((listing.map Prod.fst).map path.child) =
      some (fs.belowEntries skipDirs left path here listing) := by
  induction listing with
  | nil =>
    rw [belowEntries]
    rfl
  | cons entry rest ih =>
    obtain ⟨entry, included⟩ := List.cons_subset.mp included
    obtain ⟨found, others⟩ := List.forall_mem_cons.mp finds
    rw [List.map_cons, List.map_cons, Finding.inOrder, found, Option.bind_some,
      ih included others, belowEntries_cons_search wellFormed leads listed entry]
    split
    · rename_i failure
      rw [Finding.append_of_failure failure]
    · rfl

/-- Walked with the answers of a file system itself, a directory gives what a search of it finds. -/
theorem walk_host (wellFormed : fs.root.WellFormed) (directory : fs.isDirectory path = true)
    {depth : Nat} (enough : fs.rank path < depth) :
    fs.host.walk skipDirs depth path = some (fs.search skipDirs path) := by
  induction depth generalizing path with
  | zero => exact absurd enough (Nat.not_lt_zero _)
  | succ depth ih =>
    obtain ⟨here, left, entries, leads, listed⟩ := isDirectory_eq_true_iff.mp directory
    rw [Host.walk, host_names leads listed, host_breakingOff? leads listed,
      search_directory leads listed, below_eq]
    cases leftOut : isLeftOut skipDirs path with
    | true => rfl
    | false =>
      have included := fs.listing_subset here entries
      have finds : ∀ entry ∈ (fs.listing here entries).1,
          fs.host.visit (fs.host.walk skipDirs depth) (path.child entry.1) =
            some (fs.search skipDirs (path.child entry.1)) := by
        intro entry mem
        cases inner : fs.isDirectory (path.child entry.1) with
        | false =>
          rw [Host.visit, search_other inner]
          exact if_neg (by simp [host, inner])
        | true =>
          have known : entry.1 ∈ fs.host.names path := by
            rw [host_names leads listed]
            exact List.mem_map_of_mem mem
          have called : path.child entry.1 ∈ fs.host.calls skipDirs path :=
            Host.mem_calls.mpr ⟨leftOut, ⟨_, known, rfl⟩, inner⟩
          have less := Host.rank_lt_of_mem_calls wellFormed fs.answersFrom_host called
          rw [Host.visit, if_pos (show fs.host.isDirectory _ = true from inner)]
          exact ih inner (by omega)
      have all := inOrder_belowEntries wellFormed leads listed included finds
      simp only [Bool.false_eq_true, ↓reduceIte, all, Option.map_some]

/-- A walk that asks about every path anew comes to an end in every file system with links, whatever
else the operating system refuses: only finitely many calls are made, at most forty-one times as
many inside of each other as there can be directories, and they end with what was found, given up
with the error of a directory that could not be listed if there is one. With the answers of the file
system itself they end with what the given directory stands for. -/
theorem walk_ends {host : Host} (wellFormed : fs.root.WellFormed) (answers : host.AnswersFrom fs)
    (skipDirs : List String) (path : Path) :
    {call | Relation.ReflTransGen (fun caller call => call ∈ host.calls skipDirs caller)
        path call}.Finite ∧
      (∃ answer, ∀ depth ≥ (linkLimit + 1) * (fs.root.height + 1),
        host.walk skipDirs depth path = some answer) ∧
      (fs.isDirectory path = true → ∀ depth ≥ (linkLimit + 1) * (fs.root.height + 1),
        fs.host.walk skipDirs depth path = some (fs.sourcesAt skipDirs path)) := by
  have bound := fs.rank_lt_bound path
  refine ⟨Host.finite_calls wellFormed answers skipDirs path, ?_, fun directory depth enough => ?_⟩
  · obtain ⟨answer, ends⟩ := Host.exists_walk wellFormed answers skipDirs path
    exact ⟨answer, fun depth enough => ends depth (Nat.lt_of_lt_of_le bound enough)⟩
  · rw [sourcesAt_directory directory]
    exact walk_host wellFormed directory (Nat.lt_of_lt_of_le bound enough)

/-- An app with links to itself, to the directory above it, to each other and to nothing but
themselves. -/
def loopEntries : List (String × Node) :=
  [("Again", .link "."), ("Up", .link ".."), ("Back", .link "Forth"), ("Forth", .link "Back"),
    ("Own", .link "Own"), ("Root.swift", .file .empty)]

theorem wellFormed_loopEntries : (Node.directory loopEntries).WellFormed := by
  have names : (loopEntries.map Prod.fst).Nodup ∧
      ∀ name ∈ loopEntries.map Prod.fst, EntryName name := by decide +kernel
  exact .directory names.1 names.2
    (by simpa [loopEntries] using ⟨.link _, .link _, .link _, .link _, .link _, .file _⟩)

theorem look_again : (appOf loopEntries).look ⟨"App", ["Again"]⟩ = .ok (["App"], 39) := by
  have listed : (appOf loopEntries).entriesAt? ["App"] = some loopEntries := rfl
  have leads := look_entry (wellFormed_appOf wellFormed_loopEntries) (look_appOf _) listed
    List.mem_cons_self
  have short : isTooLong ((Path.ofString "App").child "Again") = false := by decide +kernel
  have names : segmentsOf "." = ["."] := by decide +kernel
  have start : origin ["App"] "." = ["App"] := by decide +kernel
  rw [short] at leads
  refine leads.trans ?_
  change (appOf loopEntries).follow 39 _ _ = _
  rw [names, start]
  simp [follow, listed]

/-- The walk goes from the app into the app again, and comes to an end. -/
theorem walk_ends_loops :
    let app := appOf loopEntries
    ⟨"App", ["Again"]⟩ ∈ app.host.calls [] (.ofString "App") ∧
      {call | Relation.ReflTransGen (fun caller call => call ∈ app.host.calls [] caller)
        (.ofString "App") call}.Finite ∧
      ∀ depth ≥ 123, app.host.walk [] depth (.ofString "App") =
        some (app.sourcesAt [] (.ofString "App")) := by
  intro app
  have listed : app.entriesAt? ["App"] = some loopEntries := rfl
  have directory : app.isDirectory (.ofString "App") = true :=
    isDirectory_eq_true_iff.mpr ⟨_, _, _, look_appOf _, listed⟩
  have again : app.isDirectory ⟨"App", ["Again"]⟩ = true :=
    isDirectory_eq_true_iff.mpr ⟨_, _, _, look_again, listed⟩
  have kept : isLeftOut [] (.ofString "App") = false := by decide +kernel
  have known : "Again" ∈ app.host.names (.ofString "App") := by
    rw [host_names (look_appOf _) listed, (listable_appOf _).listing_eq]
    decide
  obtain ⟨finite, -, ends⟩ := walk_ends (wellFormed_appOf wellFormed_loopEntries)
    app.answersFrom_host [] (.ofString "App")
  exact ⟨Host.mem_calls.mpr ⟨kept, ⟨_, known, by decide +kernel⟩, again⟩, finite, ends directory⟩

end FileSystem

end RibMap
