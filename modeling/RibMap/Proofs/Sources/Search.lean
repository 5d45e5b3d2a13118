import RibMap.Proofs.FileSystem.LookUp
import RibMap.Proofs.Path.Order
import RibMap.Sources.Collection

/-! # Searching directories

The walk below a directory hands down places and the links that are left. It finds what is found if
every entry is looked up from its path anew: an entry that leads to a directory is searched in turn,
and any other one counts by its name. Every directory among the entries is smaller or was reached
over a link, on which induction over searches rests. Whatever is found is found below some entry;
all that is below the entries is found if every directory can be listed to its end.
-/

namespace RibMap

namespace Path

theorem fileName?_child (path : Path) (name : String) :
    (path.child name).fileName? = some name := by
  simp [fileName?, parts, child]

theorem isSwift_child (path : Path) (name : String) :
    (path.child name).isSwift = decide (extensionOf? name = some "swift") := by
  rw [isSwift, extension?, fileName?_child, Option.bind_some]

/-- The path of what stands below a path, along the names of entries. -/
def descend (path : Path) (names : List String) : Path :=
  { path with below := path.below ++ names }

theorem descend_nil (path : Path) : path.descend [] = path := by
  rw [descend, List.append_nil]

theorem descend_cons (path : Path) (name : String) (names : List String) :
    path.descend (name :: names) = (path.child name).descend names := by
  rw [descend, descend, child, List.append_assoc]
  rfl

theorem parts_descend (path : Path) (names : List String) :
    (path.descend names).parts = path.parts ++ names.map Part.name := by
  rw [descend, parts, parts, List.map_append, List.append_assoc]

/-- Paths below the same path are told apart by their parts. -/
theorem descend_eq_of_parts_eq {path : Path} {names names' : List String}
    (same : (path.descend names).parts = (path.descend names').parts) :
    path.descend names = path.descend names' := by
  rw [parts_descend, parts_descend, List.append_cancel_left_eq] at same
  have injective : Function.Injective Part.name := fun _ _ equal => Part.name.inj equal
  rw [List.map_inj_right injective] at same
  rw [same]

end Path

namespace Finding

variable {first next found : Finding} {path : Path}

theorem append_of_complete (complete : first.failure? = none) :
    first.append next =
      ⟨first.paths ++ next.paths, first.events ++ next.events, next.failure?⟩ := by
  rw [append, complete]

theorem append_of_failure {error : SourceError} (failed : first.failure? = some error) :
    first.append next = first := by
  rw [append, failed]

theorem mem_paths_append {path : Path} (mem : path ∈ (first.append next).paths) :
    path ∈ first.paths ∨ path ∈ next.paths := by
  cases failure : first.failure? with
  | none =>
    rw [append_of_complete failure] at mem
    exact List.mem_append.mp mem
  | some error =>
    rw [append_of_failure failure] at mem
    exact .inl mem

theorem append_eq_complete_iff : (first.append next).failure? = none ↔
    first.failure? = none ∧ next.failure? = none := by
  cases failure : first.failure? with
  | none => simp [append_of_complete failure]
  | some error => simp [append_of_failure failure, failure]

/-- Where a listing breaks off, what was found before stays found. -/
theorem paths_unlessBrokenOff (path : Path) (error? : Option OsError) (found : Finding) :
    (found.unlessBrokenOff path error?).paths = found.paths := by
  cases failure : found.failure? with
  | none => rw [unlessBrokenOff, append_of_complete failure, List.append_nil]
  | some error => rw [unlessBrokenOff, append_of_failure failure]

theorem failure?_unlessBrokenOff_none :
    (found.unlessBrokenOff path none).failure? = found.failure? := by
  cases failure : found.failure? with
  | none => rw [unlessBrokenOff, append_of_complete failure, Option.map_none]
  | some error => rw [unlessBrokenOff, append_of_failure failure, failure]

end Finding

namespace FileSystem

/-- Every directory can be listed to its end. -/
def Listable (fs : FileSystem) : Prop :=
  ∀ here, fs.faults.listing here = none

theorem Listable.listing_eq {fs : FileSystem} (listable : fs.Listable) (here : Location)
    (entries : List (String × Node)) : fs.listing here entries = (entries, none) := by
  rw [listing, listable here]

theorem listing_subset (fs : FileSystem) (here : Location) (entries : List (String × Node)) :
    (fs.listing here entries).1 ⊆ entries := by
  rw [listing]
  split
  · exact List.Subset.refl entries
  · exact List.take_subset _ entries

/-- What is found at a path that leads to a place, or nowhere. -/
def findingAt (fs : FileSystem) (skipDirs : List String) (path : Path) :
    Except OsError (Location × Nat) → Finding
  | .error _ => leaf path
  | .ok (here, left) =>
    match fs.entriesAt? here with
    | none => leaf path
    | some entries => fs.below skipDirs left path here entries

/-- What is found at a path: the findings below a directory, and anything else by its name. -/
def search (fs : FileSystem) (skipDirs : List String) (path : Path) : Finding :=
  fs.findingAt skipDirs path (fs.look path)

/-- Whether the name of a directory is none of those to leave out. -/
def Kept (skipDirs : List String) (path : Path) : Prop :=
  ∀ name, path.fileName? = some name → name ∉ skipDirs

theorem kept_child {skipDirs : List String} {path : Path} {name : String} :
    Kept skipDirs (path.child name) ↔ name ∉ skipDirs := by
  simp [Kept, Path.fileName?_child]

section

variable {fs : FileSystem} {skipDirs : List String} {path found : Path} {here there : Location}
  {left remaining : Nat} {name : String} {node : Node} {entries inner : List (String × Node)}

theorem mem_leaf : found ∈ (leaf path).paths ↔ found = path ∧ path.isSwift = true := by
  rw [leaf]
  split
  · rename_i swift
    simp [swift]
  · rename_i other
    simp [Finding.empty, other]

theorem search_directory (leads : fs.look path = .ok (here, left))
    (listed : fs.entriesAt? here = some entries) :
    fs.search skipDirs path = fs.below skipDirs left path here entries := by
  rw [search, leads, findingAt, listed]

theorem search_other (other : fs.isDirectory path = false) :
    fs.search skipDirs path = leaf path := by
  rw [search]
  cases leads : fs.look path with
  | error refused => rfl
  | ok place =>
    obtain ⟨here, left⟩ := place
    rw [findingAt]
    split
    · rfl
    · rename_i entries listed
      rw [isDirectory_of_look leads listed] at other
      cases other

theorem search_file {content : ByteArray} (leads : fs.look path = .ok (here, left))
    (seen : fs.root.at? here = some (.file content)) : fs.search skipDirs path = leaf path :=
  search_other (isDirectory_of_isFile (isFile_of_look leads seen))

theorem failure?_leaf (path : Path) : (leaf path).failure? = none := by
  rw [leaf]
  split <;> rfl

theorem mem_below_iff : found ∈ (fs.below skipDirs left path here entries).paths ↔
    Kept skipDirs path ∧
      found ∈ (fs.belowEntries skipDirs left path here (fs.listing here entries).1).paths := by
  rw [below, Kept]
  cases named : path.fileName? with
  | none => simp [Finding.paths_unlessBrokenOff]
  | some name =>
    by_cases skipped : name ∈ skipDirs <;> simp [skipped, Finding.paths_unlessBrokenOff]

theorem failure?_below (listable : fs.Listable)
    (complete : (fs.belowEntries skipDirs left path here entries).failure? = none) :
    (fs.below skipDirs left path here entries).failure? = none := by
  rw [below, listable.listing_eq]
  split
  · rfl
  · rw [Finding.failure?_unlessBrokenOff_none, complete]

theorem belowEntries_cons (seen : fs.root.at? (here ++ [name]) = some node)
    (rest : List (String × Node)) :
    fs.belowEntries skipDirs left path here ((name, node) :: rest) =
      Finding.append
        (if isTooLong (path.child name) then leaf (path.child name)
          else fs.findingAt skipDirs (path.child name) (fs.entryPlace left here name node))
        (fs.belowEntries skipDirs left path here rest) := by
  -- The definition keeps the equation of a look-up in its match, so no plain equation unfolds it.
  rw [belowEntries.eq_def]
  simp only
  congr 1
  split
  · rfl
  cases node with
  | file content => simp only [entryPlace, findingAt, entriesAt?, seen]
  | directory inner => simp only [entryPlace, findingAt, entriesAt?, seen]
  | link target =>
    cases left with
    | zero => rfl
    | succ left =>
      simp only [entryPlace]
      cases fs.follow left (origin here target) (segmentsOf target) with
      | error refused => rfl
      | ok place => rfl

section

variable (wellFormed : fs.root.WellFormed) (leads : fs.look path = .ok (here, left))
  (listed : fs.entriesAt? here = some entries) (entry : (name, node) ∈ entries)
include wellFormed leads listed entry

/-- A look-up of an entry leads where the entry leads, unless the path is too long. -/
theorem look_entry :
    fs.look (path.child name) =
      if isTooLong (path.child name) then .error .nameTooLong
      else fs.entryPlace left here name node := by
  cases wellFormed_of_entriesAt? wellFormed listed with
  | directory distinct proper _ =>
    have proper := proper name (List.mem_map_of_mem entry)
    have named := (nodeNamed?_eq_some_iff distinct).mpr entry
    rw [look_child leads proper, follow_entry listed proper.toNamesEntry named]
    simp only [isTooLong, decide_eq_true_eq]

omit leads in
/-- Where an entry leads to a directory, a link has been followed or the entry is that directory. -/
theorem entryPlace_directory
    (leads' : fs.entryPlace left here name node = .ok (there, remaining))
    (listed' : fs.entriesAt? there = some inner) :
    remaining < left ∨ remaining = left ∧ node = .directory inner := by
  have seen := (at?_concat_eq_some_iff wellFormed listed).mpr entry
  cases node with
  | file content =>
    cases leads'
    rw [entriesAt?_eq_some_iff, seen] at listed'
    cases listed'
  | directory own =>
    cases leads'
    rw [entriesAt?_eq_some_iff, seen] at listed'
    cases listed'
    exact .inr ⟨rfl, rfl⟩
  | link target =>
    cases left with
    | zero => cases leads'
    | succ left => exact .inl (Nat.lt_succ_of_le (follow_links_le leads'))

/-- A directory among the entries is smaller, or fewer links are left there. -/
theorem look_entry_decreases (leads' : fs.look (path.child name) = .ok (there, remaining))
    (listed' : fs.entriesAt? there = some inner) :
    Prod.Lex (· < ·) (· < ·) (remaining, sizeOf inner) (left, sizeOf entries) := by
  rw [look_entry wellFormed leads listed entry] at leads'
  split at leads'
  · cases leads'
  obtain fewer | ⟨rfl, rfl⟩ := entryPlace_directory wellFormed listed entry leads' listed'
  · exact Prod.Lex.left _ _ fewer
  · have smaller := List.sizeOf_lt_of_mem entry
    rw [Prod.mk.sizeOf_spec, Node.directory.sizeOf_spec] at smaller
    exact Prod.Lex.right _ (by omega)

/-- What is found among the entries of a directory begins with what a search of the first finds. -/
theorem belowEntries_cons_search (rest : List (String × Node)) :
    fs.belowEntries skipDirs left path here ((name, node) :: rest) =
      (fs.search skipDirs (path.child name)).append
        (fs.belowEntries skipDirs left path here rest) := by
  have seen := (at?_concat_eq_some_iff wellFormed listed).mpr entry
  rw [belowEntries_cons seen, search, look_entry wellFormed leads listed entry]
  split <;> rfl

end

/-- What is found among entries of a directory is found by a search of one of them. -/
theorem exists_entry_of_mem_belowEntries (wellFormed : fs.root.WellFormed)
    (leads : fs.look path = .ok (here, left)) (listed : fs.entriesAt? here = some entries)
    {listing : List (String × Node)} (included : listing ⊆ entries)
    (mem : found ∈ (fs.belowEntries skipDirs left path here listing).paths) :
    ∃ entry ∈ listing, found ∈ (fs.search skipDirs (path.child entry.1)).paths := by
  induction listing with
  | nil =>
    rw [belowEntries] at mem
    cases mem
  | cons entry rest ih =>
    obtain ⟨first, included⟩ := List.cons_subset.mp included
    rw [belowEntries_cons_search wellFormed leads listed first] at mem
    rcases Finding.mem_paths_append mem with mem | mem
    · exact ⟨entry, List.mem_cons_self, mem⟩
    · obtain ⟨other, later, mem⟩ := ih included mem
      exact ⟨other, List.mem_cons_of_mem entry later, mem⟩

/-- If no search of an entry is given up, what all of them find is found. -/
theorem belowEntries_of_complete (wellFormed : fs.root.WellFormed)
    (leads : fs.look path = .ok (here, left)) (listed : fs.entriesAt? here = some entries)
    {listing : List (String × Node)} (included : listing ⊆ entries)
    (complete : ∀ entry ∈ listing, (fs.search skipDirs (path.child entry.1)).failure? = none) :
    (fs.belowEntries skipDirs left path here listing).failure? = none ∧
      (fs.belowEntries skipDirs left path here listing).paths =
        listing.flatMap fun entry => (fs.search skipDirs (path.child entry.1)).paths := by
  induction listing with
  | nil =>
    rw [belowEntries]
    exact ⟨rfl, rfl⟩
  | cons entry rest ih =>
    obtain ⟨first, included⟩ := List.cons_subset.mp included
    obtain ⟨here, others⟩ := List.forall_mem_cons.mp complete
    obtain ⟨later, paths⟩ := ih included others
    rw [belowEntries_cons_search wellFormed leads listed first, Finding.append_of_complete here]
    exact ⟨later, by rw [List.flatMap_cons, paths]⟩

/-- What a search of a directory finds, it finds below an entry. -/
theorem exists_entry_of_mem_search (wellFormed : fs.root.WellFormed)
    (leads : fs.look path = .ok (here, left)) (listed : fs.entriesAt? here = some entries)
    (mem : found ∈ (fs.search skipDirs path).paths) :
    Kept skipDirs path ∧ ∃ name node, fs.root.at? (here ++ [name]) = some node ∧
      found ∈ (fs.search skipDirs (path.child name)).paths := by
  rw [search_directory leads listed, mem_below_iff] at mem
  obtain ⟨kept, mem⟩ := mem
  have included := fs.listing_subset here entries
  obtain ⟨⟨name, node⟩, entry, mem⟩ :=
    exists_entry_of_mem_belowEntries wellFormed leads listed included mem
  exact ⟨kept, name, node, (at?_concat_eq_some_iff wellFormed listed).mpr (included entry), mem⟩

section

variable {motive : Path → Prop} (wellFormed : fs.root.WellFormed)
  (other : ∀ path, fs.isDirectory path = false → motive path)
  (directory : ∀ path here left entries, fs.look path = .ok (here, left) →
    fs.entriesAt? here = some entries →
    (∀ name node, fs.root.at? (here ++ [name]) = some node → motive (path.child name)) →
    motive path)
include wellFormed other directory

/-- The induction is on the links that are left, and for as many links on the size of the
listing. -/
private theorem directory_induction {path : Path} {here : Location} {left : Nat}
    {entries : List (String × Node)} (leads : fs.look path = .ok (here, left))
    (listed : fs.entriesAt? here = some entries) : motive path := by
  refine directory path here left entries leads listed fun name node seen => ?_
  have entry := (at?_concat_eq_some_iff wellFormed listed).mp seen
  cases inner : fs.isDirectory (path.child name) with
  | false => exact other _ inner
  | true =>
    obtain ⟨there, remaining, inner, leads', listed'⟩ := isDirectory_eq_true_iff.mp inner
    have smaller := look_entry_decreases wellFormed leads listed entry leads' listed'
    exact directory_induction leads' listed'
termination_by (left, sizeOf entries)
decreasing_by exact smaller

/-- What holds of every path that leads to no directory, and of a directory if it holds of its
entries, holds of all paths. -/
theorem search_induction (path : Path) : motive path := by
  cases inner : fs.isDirectory path with
  | false => exact other path inner
  | true =>
    obtain ⟨here, left, entries, leads, listed⟩ := isDirectory_eq_true_iff.mp inner
    exact directory_induction wellFormed other directory leads listed

end

/-- Whatever a search finds is below the path where it began. -/
theorem eq_descend_of_mem_search (wellFormed : fs.root.WellFormed)
    (mem : found ∈ (fs.search skipDirs path).paths) : ∃ names, found = path.descend names := by
  induction path using search_induction wellFormed with
  | other path other =>
    rw [search_other other, mem_leaf] at mem
    exact ⟨[], mem.1.trans path.descend_nil.symm⟩
  | directory path here left entries leads listed ih =>
    obtain ⟨-, name, node, seen, mem⟩ := exists_entry_of_mem_search wellFormed leads listed mem
    obtain ⟨names, rfl⟩ := ih name node seen mem
    exact ⟨name :: names, (path.descend_cons name names).symm⟩

section

variable (wellFormed : fs.root.WellFormed) (listable : fs.Listable)
include wellFormed listable

/-- No search is given up if every directory can be listed to its end. -/
theorem failure?_search (skipDirs : List String) (path : Path) :
    (fs.search skipDirs path).failure? = none := by
  induction path using search_induction wellFormed with
  | other path other => rw [search_other other, failure?_leaf]
  | directory path here left entries leads listed ih =>
    have complete : ∀ entry ∈ entries,
        (fs.search skipDirs (path.child entry.1)).failure? = none := fun entry mem =>
      ih entry.1 entry.2 ((at?_concat_eq_some_iff wellFormed listed).mpr mem)
    rw [search_directory leads listed]
    exact failure?_below listable (belowEntries_of_complete wellFormed leads listed
      (List.Subset.refl entries) complete).1

/-- What a search of a directory finds. -/
theorem mem_search_directory (leads : fs.look path = .ok (here, left))
    (listed : fs.entriesAt? here = some entries) :
    found ∈ (fs.search skipDirs path).paths ↔
      Kept skipDirs path ∧ ∃ name node, fs.root.at? (here ++ [name]) = some node ∧
        found ∈ (fs.search skipDirs (path.child name)).paths := by
  have whole := (belowEntries_of_complete wellFormed leads listed (List.Subset.refl entries)
    fun entry _ => failure?_search wellFormed listable skipDirs (path.child entry.1)).2
  simp only [search_directory leads listed, mem_below_iff, listable.listing_eq, whole,
    List.mem_flatMap, Prod.exists, at?_concat_eq_some_iff wellFormed listed]

end

/-- Whether a path leads to a directory or to a regular file. -/
def isThere (fs : FileSystem) (path : Path) : Bool :=
  fs.isDirectory path || fs.isFile path

/-- The sources that a path stands for. -/
def sourcesOf (fs : FileSystem) (skipDirs : List String) (path : Path) : List Path :=
  if fs.isDirectory path then (fs.search skipDirs path).paths else [path]

theorem sourcesAt_directory (directory : fs.isDirectory path = true) :
    fs.sourcesAt skipDirs path = fs.search skipDirs path := by
  obtain ⟨here, left, entries, leads, listed⟩ := isDirectory_eq_true_iff.mp directory
  rw [sourcesAt, leads, search_directory leads listed]
  simp only [entriesAt?_eq_some_iff.mp listed]

theorem sourcesAt_file (file : fs.isFile path = true) :
    fs.sourcesAt skipDirs path = ⟨[path], [], none⟩ := by
  obtain ⟨here, left, content, leads, seen⟩ := isFile_eq_true_iff.mp file
  rw [sourcesAt, leads]
  simp only [seen]

theorem sourcesAt_missing (nowhere : fs.isThere path = false) :
    fs.sourcesAt skipDirs path = missing path := by
  obtain ⟨noDirectory, noFile⟩ := Bool.or_eq_false_iff.mp nowhere
  rw [sourcesAt]
  cases leads : fs.look path with
  | error refused => rfl
  | ok place =>
    obtain ⟨here, left⟩ := place
    simp only
    split
    · rename_i entries seen
      rw [isDirectory_of_look leads (entriesAt?_eq_some_iff.mpr seen)] at noDirectory
      cases noDirectory
    · rename_i content seen
      rw [isFile_of_look leads seen] at noFile
      cases noFile
    · rfl

theorem paths_sourcesAt (skipDirs : List String) (present : fs.isThere path = true) :
    (fs.sourcesAt skipDirs path).paths = fs.sourcesOf skipDirs path := by
  rw [sourcesOf]
  by_cases directory : fs.isDirectory path = true
  · rw [sourcesAt_directory directory, if_pos directory]
  · have file : fs.isFile path = true := by simpa [isThere, directory] using present
    rw [sourcesAt_file file, if_neg directory]

theorem isThere_of_sourcesAt (complete : (fs.sourcesAt skipDirs path).failure? = none) :
    fs.isThere path = true := by
  by_contra nowhere
  rw [sourcesAt_missing (Bool.eq_false_of_not_eq_true nowhere)] at complete
  cases complete

/-- Given paths that stand for sources stand for them one after the other. -/
theorem paths_gather_of_complete {paths : List Path}
    (complete : (fs.gather skipDirs paths).failure? = none) :
    (∀ path ∈ paths, fs.isThere path = true) ∧
      (fs.gather skipDirs paths).paths = paths.flatMap (fs.sourcesOf skipDirs) := by
  induction paths with
  | nil => exact ⟨nofun, rfl⟩
  | cons path rest ih =>
    rw [gather] at complete ⊢
    obtain ⟨here, later⟩ := Finding.append_eq_complete_iff.mp complete
    obtain ⟨present, paths⟩ := ih later
    have first := isThere_of_sourcesAt here
    refine ⟨List.forall_mem_cons.mpr ⟨first, present⟩, ?_⟩
    rw [Finding.append_of_complete here, paths_sourcesAt skipDirs first, paths, List.flatMap_cons]

theorem collect_snd (fs : FileSystem) (skipDirs : List String) (paths : List Path) :
    (fs.collect skipDirs paths).2 =
      match (fs.gather skipDirs paths).failure? with
      | some error => .error error
      | none => .ok (Path.sortUnique (fs.gather skipDirs paths).paths) := by
  rw [collect]
  cases (fs.gather skipDirs paths).failure? <;> rfl

/-- Whatever is collected is a source of a given path that leads somewhere. -/
theorem exists_mem_sourcesOf_of_collect {paths sources : List Path}
    (collected : (fs.collect skipDirs paths).2 = .ok sources) (mem : path ∈ sources) :
    ∃ given ∈ paths, fs.isThere given = true ∧ path ∈ fs.sourcesOf skipDirs given := by
  rw [collect_snd] at collected
  split at collected
  · cases collected
  · rename_i complete
    cases collected
    obtain ⟨present, whole⟩ := paths_gather_of_complete complete
    rw [whole] at mem
    obtain ⟨given, known, source⟩ := List.mem_flatMap.mp (Path.mem_of_mem_sortUnique mem)
    exact ⟨given, known, present given known, source⟩

section

variable (wellFormed : fs.root.WellFormed) (listable : fs.Listable)
include wellFormed listable

theorem failure?_sourcesAt (skipDirs : List String) (present : fs.isThere path = true) :
    (fs.sourcesAt skipDirs path).failure? = none := by
  by_cases directory : fs.isDirectory path = true
  · rw [sourcesAt_directory directory, failure?_search wellFormed listable]
  · have file : fs.isFile path = true := by simpa [isThere, directory] using present
    rw [sourcesAt_file file]

/-- Given paths are given up only at the first of them that leads nowhere. -/
theorem failure?_gather_of_listable (skipDirs : List String) (paths : List Path) :
    (fs.gather skipDirs paths).failure? =
      (paths.find? fun path => !fs.isThere path).map fun path => .notFound path.spelling := by
  induction paths with
  | nil => rfl
  | cons path rest ih =>
    rw [gather, List.find?_cons]
    cases present : fs.isThere path with
    | false =>
      rw [sourcesAt_missing present]
      rfl
    | true =>
      rw [Finding.append_of_complete (failure?_sourcesAt wellFormed listable skipDirs present)]
      exact ih

theorem collect_eq (skipDirs : List String) (paths : List Path) :
    (fs.collect skipDirs paths).2 =
      match paths.find? fun path => !fs.isThere path with
      | some path => .error (.notFound path.spelling)
      | none => .ok (Path.sortUnique (paths.flatMap (fs.sourcesOf skipDirs))) := by
  have failure := failure?_gather_of_listable wellFormed listable skipDirs paths
  rw [collect_snd, failure]
  cases nowhere : paths.find? (fun path => !fs.isThere path) with
  | some path => rfl
  | none =>
    rw [nowhere] at failure
    rw [(paths_gather_of_complete failure).2]
    rfl

end

end

end FileSystem

end RibMap
