import RibMap.Proofs.Path.Order
import RibMap.Proofs.Sources.Search

/-! # What a collection consists of

Without links, a collection consists of the given files and of the Swift files below the given
directories, as far as no directory on the way to them is left out. It is strictly in order, and it
depends neither on the order in which directories list their entries nor, but for the spellings of
paths that were found more than once, on the order in which the paths were given.
-/

namespace RibMap

namespace Path

variable {α : Type} {paths paths' : List Path} {parts : List Part}

/-- Where no two paths have the same parts, the order does not matter to which one is first. -/
theorem firstWith?_congr (same : ∀ path, path ∈ paths ↔ path ∈ paths')
    (unique : ∀ a ∈ paths, ∀ b ∈ paths, a.parts = b.parts → a = b) :
    firstWith? paths parts = firstWith? paths' parts := by
  cases first : firstWith? paths parts with
  | none =>
    rw [firstWith?, List.find?_eq_none] at first
    rw [eq_comm, firstWith?, List.find?_eq_none]
    exact fun path mem => first path ((same path).mpr mem)
  | some path =>
    obtain ⟨mem, rfl⟩ := firstWith?_eq_some first
    obtain ⟨other, left, alike⟩ := exists_mem_sortUnique ((same path).mp mem)
    have first' := alike ▸ mem_sortUnique_iff.mp left
    have there := (same other).mpr (mem_of_mem_sortUnique left)
    rw [first', unique other there path mem alike]

theorem firstWith?_flatMap (items : List α) (pathsOf : α → List Path) (parts : List Part) :
    firstWith? (items.flatMap pathsOf) parts =
      items.findSome? fun item => firstWith? (pathsOf item) parts :=
  List.find?_flatMap

end Path

namespace FileSystem

variable {fs fs' : FileSystem} {skipDirs : List String} {path found : Path}

namespace SameContents

variable (same : fs.SameContents fs') (wellFormed : fs.root.WellFormed)
  (wellFormed' : fs'.root.WellFormed)
include same

theorem isThere : fs'.isThere path = fs.isThere path := by
  rw [FileSystem.isThere, same.isDirectory, same.isFile, FileSystem.isThere]

include wellFormed wellFormed'

variable (listable : fs.Listable) (listable' : fs'.Listable)
include listable listable'

/-- A search finds the same wherever directories list the same entries. -/
theorem mem_search :
    found ∈ (fs'.search skipDirs path).paths ↔ found ∈ (fs.search skipDirs path).paths := by
  induction path using search_induction wellFormed with
  | other path other => rw [search_other other, search_other (same.isDirectory.trans other)]
  | directory path here left entries leads listed ih =>
    obtain ⟨entries', listed'⟩ := same.keeps.entriesAt? listed
    rw [mem_search_directory wellFormed listable leads listed,
      mem_search_directory wellFormed' listable' (same.look leads) listed']
    refine and_congr_right fun kept => exists_congr fun name => ?_
    constructor
    · rintro ⟨node', seen', mem⟩
      obtain ⟨node, seen, -⟩ := same.symm.at? seen'
      exact ⟨node, seen, (ih name node seen).mp mem⟩
    · rintro ⟨node, seen, mem⟩
      obtain ⟨node', seen', -⟩ := same.at? seen
      exact ⟨node', seen', (ih name node seen).mpr mem⟩

/-- What is collected does not depend on the order in which directories list their entries. -/
theorem collect (paths : List Path) :
    (fs'.collect skipDirs paths).2 = (fs.collect skipDirs paths).2 := by
  -- The sources of one given path differ in their parts, so their order does not matter.
  have sources (path : Path) (parts : List Part) :
      Path.firstWith? (fs'.sourcesOf skipDirs path) parts =
        Path.firstWith? (fs.sourcesOf skipDirs path) parts := by
    rw [sourcesOf, sourcesOf, same.isDirectory]
    split
    · refine Path.firstWith?_congr
        (fun found => same.mem_search wellFormed wellFormed' listable listable') ?_
      intro first mem second mem' alike
      obtain ⟨names, rfl⟩ := eq_descend_of_mem_search wellFormed' mem
      obtain ⟨names', rfl⟩ := eq_descend_of_mem_search wellFormed' mem'
      exact Path.descend_eq_of_parts_eq alike
    · rfl
  have sorted : Path.sortUnique (paths.flatMap (fs'.sourcesOf skipDirs)) =
      Path.sortUnique (paths.flatMap (fs.sourcesOf skipDirs)) := by
    refine Path.sortUnique_congr fun parts => ?_
    simp only [Path.firstWith?_flatMap, sources]
  rw [collect_eq wellFormed listable, collect_eq wellFormed' listable']
  simp only [same.isThere, sorted]

end SameContents

/-- There are no links. -/
def LinkFree (fs : FileSystem) : Prop :=
  ∀ place target, fs.root.at? place ≠ some (.link target)

/-- No path of anything below the place to which a path leads is too long. -/
def WithinLength (fs : FileSystem) (path : Path) : Prop :=
  ∀ here left, fs.look path = .ok (here, left) → ∀ names node,
    fs.root.at? (here ++ names) = some node → isTooLong (path.descend names) = false

/-- A Swift file at the end of some directories below a place, none of which is left out. -/
structure SwiftBelow (fs : FileSystem) (skipDirs : List String) (here : Location)
    (dirs : List String) (name : String) : Prop where
  stands : ∃ content, fs.root.at? (here ++ (dirs ++ [name])) = some (.file content)
  kept : ∀ dir ∈ dirs, dir ∉ skipDirs
  swift : Path.extensionOf? name = some "swift"

/-- What is to be collected from given paths: the given files, and the Swift files below the given
directories, as far as none of the directories is left out. -/
inductive IsSource (fs : FileSystem) (skipDirs : List String) (paths : List Path) : Path → Prop
  | file {path : Path} (given : path ∈ paths) (file : fs.isFile path = true) :
      IsSource fs skipDirs paths path
  | below {path : Path} {here : Location} {left : Nat} {dirs : List String} {name : String}
      (given : path ∈ paths) (directory : fs.isDirectory path = true)
      (leads : fs.look path = .ok (here, left)) (kept : Kept skipDirs path)
      (swift : fs.SwiftBelow skipDirs here dirs name) :
      IsSource fs skipDirs paths (path.descend (dirs ++ [name]))

section

variable {here : Location} {left : Nat} {dir name : String} {dirs : List String}
  {entries : List (String × Node)} {node : Node}

theorem swiftBelow_cons : fs.SwiftBelow skipDirs here (dir :: dirs) name ↔
    dir ∉ skipDirs ∧ fs.SwiftBelow skipDirs (here ++ [dir]) dirs name := by
  have place : here ++ (dir :: dirs ++ [name]) = here ++ [dir] ++ (dirs ++ [name]) := by simp
  constructor
  · intro swift
    obtain ⟨first, rest⟩ := List.forall_mem_cons.mp swift.kept
    exact ⟨first, place ▸ swift.stands, rest, swift.swift⟩
  · rintro ⟨first, swift⟩
    exact ⟨place ▸ swift.stands, List.forall_mem_cons.mpr ⟨first, swift.kept⟩, swift.swift⟩

/-- Whatever is on the way to a Swift file is a directory. -/
theorem exists_entriesAt? (swift : fs.SwiftBelow skipDirs here dirs name) :
    ∃ entries, fs.entriesAt? here = some entries := by
  obtain ⟨content, stands⟩ := swift.stands
  rw [Node.at?_append, Option.bind_eq_some_iff] at stands
  obtain ⟨node, seen, stands⟩ := stands
  cases dirs with
  | nil =>
    obtain ⟨entries, -, rfl, -⟩ := Node.at?_cons_eq_some_iff.mp stands
    exact ⟨entries, entriesAt?_eq_some_iff.mpr seen⟩
  | cons dir dirs =>
    obtain ⟨entries, -, rfl, -⟩ := Node.at?_cons_eq_some_iff.mp stands
    exact ⟨entries, entriesAt?_eq_some_iff.mpr seen⟩

variable (wellFormed : fs.root.WellFormed) (linkFree : fs.LinkFree)
include wellFormed linkFree

/-- Without links, an entry is found where its directory lists it. -/
theorem look_child_of_linkFree (short : fs.WithinLength path)
    (leads : fs.look path = .ok (here, left)) (listed : fs.entriesAt? here = some entries)
    (seen : fs.root.at? (here ++ [name]) = some node) :
    fs.look (path.child name) = .ok (here ++ [name], left) ∧ fs.WithinLength (path.child name) := by
  have leads' : fs.look (path.child name) = .ok (here ++ [name], left) := by
    have fits := short here left leads [name] node seen
    rw [Path.descend_cons, Path.descend_nil] at fits
    rw [look_entry wellFormed leads listed ((at?_concat_eq_some_iff wellFormed listed).mp seen),
      fits]
    cases node with
    | file content => rfl
    | directory inner => rfl
    | link target => exact absurd seen (linkFree _ target)
  refine ⟨leads', fun there left' led names inner stands => ?_⟩
  rw [leads'] at led
  cases led
  rw [← Path.descend_cons]
  exact short here left leads (name :: names) inner (by rwa [List.append_cons])

variable (listable : fs.Listable)
include listable

/-- Without links, a search finds the Swift files below its directory. -/
theorem mem_search_iff (short : fs.WithinLength path) (leads : fs.look path = .ok (here, left))
    (listed : fs.entriesAt? here = some entries) :
    found ∈ (fs.search skipDirs path).paths ↔
      Kept skipDirs path ∧ ∃ dirs name, fs.SwiftBelow skipDirs here dirs name ∧
        found = path.descend (dirs ++ [name]) := by
  induction path using search_induction wellFormed generalizing here left entries with
  | other path other =>
    rw [isDirectory_of_look leads listed] at other
    cases other
  | directory path place more others led _ ih =>
    obtain ⟨rfl, rfl⟩ := Prod.mk.inj (Except.ok.inj (leads.symm.trans led))
    rw [mem_search_directory wellFormed listable leads listed]
    refine and_congr_right fun kept => ?_
    have child {name : String} {node : Node} (seen : fs.root.at? (here ++ [name]) = some node) :=
      look_child_of_linkFree wellFormed linkFree short leads listed seen
    constructor
    · rintro ⟨name, node, seen, mem⟩
      obtain ⟨leads, short⟩ := child seen
      cases node with
      | link target => exact absurd seen (linkFree _ target)
      | file content =>
        rw [search_file leads seen, mem_leaf, Path.isSwift_child, decide_eq_true_eq] at mem
        exact ⟨[], name, ⟨⟨content, seen⟩, by simp, mem.2⟩, mem.1⟩
      | directory inner =>
        have below := ih name _ seen short leads (entriesAt?_eq_some_iff.mpr seen)
        obtain ⟨kept, dirs, file, swift, rfl⟩ := below.mp mem
        exact ⟨name :: dirs, file, swiftBelow_cons.mpr ⟨kept_child.mp kept, swift⟩,
          (path.descend_cons name _).symm⟩
    · rintro ⟨dirs, file, swift, rfl⟩
      cases dirs with
      | nil =>
        obtain ⟨content, seen⟩ := swift.stands
        obtain ⟨leads, -⟩ := child seen
        refine ⟨file, _, seen, ?_⟩
        rw [search_file leads seen, mem_leaf, Path.isSwift_child, decide_eq_true_eq]
        exact ⟨rfl, swift.swift⟩
      | cons dir dirs =>
        obtain ⟨kept, swift⟩ := swiftBelow_cons.mp swift
        obtain ⟨inner, listed⟩ := exists_entriesAt? swift
        have seen := entriesAt?_eq_some_iff.mp listed
        obtain ⟨leads, short⟩ := child seen
        exact ⟨dir, _, seen, (ih dir _ seen short leads listed).mpr
          ⟨kept_child.mpr kept, dirs, file, swift, path.descend_cons dir _⟩⟩

/-- Where every given path leads somewhere, their sources are what is to be collected from them. -/
theorem mem_sources_iff {paths : List Path} (short : ∀ path ∈ paths, fs.WithinLength path)
    (present : ∀ path ∈ paths, fs.isThere path = true) :
    found ∈ paths.flatMap (fs.sourcesOf skipDirs) ↔ fs.IsSource skipDirs paths found := by
  rw [List.mem_flatMap]
  constructor
  · rintro ⟨path, given, mem⟩
    by_cases directory : fs.isDirectory path = true
    · obtain ⟨here, left, entries, leads, listed⟩ := isDirectory_eq_true_iff.mp directory
      rw [sourcesOf, if_pos directory,
        mem_search_iff wellFormed linkFree listable (short path given) leads listed] at mem
      obtain ⟨kept, dirs, name, swift, rfl⟩ := mem
      exact .below given directory leads kept swift
    · have file : fs.isFile path = true := by simpa [isThere, directory] using present path given
      rw [sourcesOf, if_neg directory, List.mem_singleton] at mem
      exact mem ▸ .file given file
  · rintro (⟨given, file⟩ | ⟨given, directory, leads, kept, swift⟩)
    · refine ⟨found, given, ?_⟩
      rw [sourcesOf, isDirectory_of_isFile file]
      exact List.mem_singleton_self found
    · rename_i path _ _ dirs name
      obtain ⟨entries, listed⟩ := exists_entriesAt? swift
      refine ⟨path, given, ?_⟩
      rw [sourcesOf, if_pos directory,
        mem_search_iff wellFormed linkFree listable (short path given) leads listed]
      exact ⟨kept, dirs, name, swift, rfl⟩

end

/-- Where every directory can be listed, a collection fails only at a given path that leads neither
to a directory nor to a file, and says which of them is the first. Otherwise it consists of what is
to be collected, strictly in order. The order in which directories list their entries does not
matter to it, and the order of the given paths only to the spellings. -/
theorem collect_exact {paths : List Path} (skipDirs : List String)
    (wellFormed : fs.root.WellFormed) (linkFree : fs.LinkFree) (listable : fs.Listable)
    (short : ∀ path ∈ paths, fs.WithinLength path) :
    let collected := (fs.collect skipDirs paths).2
    (∀ fs', fs.SameContents fs' → fs'.root.WellFormed → fs'.Listable →
      (fs'.collect skipDirs paths).2 = collected) ∧
    match paths.find? fun path => !fs.isThere path with
    | some path => collected = .error (.notFound path.spelling)
    | none => ∃ found, collected = .ok found ∧ found.Pairwise Path.Before ∧
        (∀ path ∈ found, fs.IsSource skipDirs paths path) ∧
        (∀ path, fs.IsSource skipDirs paths path → ∃ other ∈ found, other.parts = path.parts) ∧
        ∀ paths', paths'.Perm paths → ∃ found', (fs.collect skipDirs paths').2 = .ok found' ∧
          found'.map Path.parts = found.map Path.parts := by
  intro collected
  refine ⟨fun fs' same wellFormed' listable' =>
    same.collect wellFormed wellFormed' listable listable' paths, ?_⟩
  have whole := collect_eq wellFormed listable skipDirs paths
  split
  · rename_i path missing
    rwa [missing] at whole
  · rename_i none
    rw [none] at whole
    have present : ∀ path ∈ paths, fs.isThere path = true := by
      simpa [List.find?_eq_none] using none
    have sources (path : Path) : path ∈ paths.flatMap (fs.sourcesOf skipDirs) ↔
        fs.IsSource skipDirs paths path :=
      mem_sources_iff wellFormed linkFree listable short present
    refine ⟨_, whole, Path.pairwise_sortUnique _, fun path mem => ?_, fun path source => ?_,
      fun paths' reordered => ?_⟩
    · exact (sources path).mp (Path.mem_of_mem_sortUnique mem)
    · exact Path.exists_mem_sortUnique ((sources path).mpr source)
    · have none' : paths'.find? (fun path => !fs.isThere path) = .none := by
        simpa [List.find?_eq_none, reordered.mem_iff] using present
      have whole' := collect_eq wellFormed listable skipDirs paths'
      rw [none'] at whole'
      exact ⟨_, whole', Path.map_parts_sortUnique_of_perm (reordered.flatMap_right _)⟩

/-- A file system with an app, whose directory has some entries. -/
def appOf (entries : List (String × Node)) : FileSystem where
  root := .directory [("App", .directory entries)]
  working := []

theorem listable_appOf (entries : List (String × Node)) : (appOf entries).Listable :=
  fun _ => rfl

theorem wellFormed_appOf {entries : List (String × Node)}
    (inner : (Node.directory entries).WellFormed) : (appOf entries).root.WellFormed := by
  have root : ["App"].Nodup ∧ ∀ name ∈ ["App"], EntryName name := by decide +kernel
  exact .directory root.1 root.2 (List.forall_mem_singleton.mpr inner)

theorem look_appOf (entries : List (String × Node)) :
    (appOf entries).look (.ofString "App") = .ok (["App"], linkLimit) := by
  have names : namesOf (.ofString "App") = ["App"] := by decide +kernel
  have taken : refusal? (Path.ofString "App").spelling = none := by decide +kernel
  have start : origin [] (Path.ofString "App").written = [] := ite_self []
  have short : ¬ nameLimit < "App".utf8ByteSize := by decide
  simp [look, taken, names, start, follow, appOf, entriesAt?, Node.at?, nodeNamed?, short]

/-- The file, the products and the sources of an app. -/
def appEntries : List (String × Node) :=
  [("B.swift", .file .empty), ("Build", .directory [("A.swift", .file .empty)]),
    ("Core", .directory [("A.swift", .file .empty)])]

theorem wellFormed_of_perm_appEntries {entries : List (String × Node)}
    (reordered : entries.Perm appEntries) : (Node.directory entries).WellFormed := by
  have sources : (Node.directory [("A.swift", .file .empty)]).WellFormed :=
    .directory (by decide) (by decide +kernel) (by simpa using .file .empty)
  have inner : ∀ entry ∈ appEntries, entry.2.WellFormed := by
    simpa [appEntries] using ⟨.file .empty, sources⟩
  have distinct : (appEntries.map Prod.fst).Nodup := by decide
  have proper : ∀ name ∈ appEntries.map Prod.fst, EntryName name := by decide +kernel
  have names := reordered.map Prod.fst
  exact .directory (names.nodup_iff.mpr distinct) (fun name mem => proper name (names.subset mem))
    fun entry mem => inner entry (reordered.subset mem)

/-- Everything that stands somewhere in the file system with the app. -/
theorem mem_places_of_at? {place : Location} {node : Node}
    (seen : (appOf appEntries).root.at? place = some node) :
    place ∈ ([[], ["App"], ["App", "B.swift"], ["App", "Build"], ["App", "Build", "A.swift"],
      ["App", "Core"], ["App", "Core", "A.swift"]] : List Location) ∧
      ∀ target, node ≠ .link target := by
  have entry {entries : List (String × Node)} {name : String} {rest : Location} {node : Node}
      (seen : (Node.directory entries).at? (name :: rest) = some node) :
      ∃ inner, (name, inner) ∈ entries ∧ inner.at? rest = some node := by
    obtain ⟨_, inner, same, named, seen⟩ := Node.at?_cons_eq_some_iff.mp seen
    cases same
    exact ⟨inner, mem_of_nodeNamed? named, seen⟩
  have file {rest : Location} {node : Node} (seen : (Node.file .empty).at? rest = some node) :
      rest = [] ∧ node = .file .empty := by
    cases rest with
    | nil => exact ⟨rfl, (Option.some.inj seen).symm⟩
    | cons name rest => cases seen
  rcases place with _ | ⟨first, _ | ⟨second, _ | ⟨third, rest⟩⟩⟩
  all_goals grind [appOf, appEntries, Node.at?_nil]

/-- The file of the app, under a spelling of its own. -/
theorem look_appEntries : (appOf appEntries).look (.ofString "App//B.swift") =
    .ok (["App", "B.swift"], linkLimit) := by
  have names : namesOf (.ofString "App//B.swift") = ["App", "B.swift"] := by decide +kernel
  have taken : refusal? (Path.ofString "App//B.swift").spelling = none := by decide +kernel
  have start : origin [] (Path.ofString "App//B.swift").written = [] := ite_self []
  have short : ¬ nameLimit < "App".utf8ByteSize ∧ ¬ nameLimit < "B.swift".utf8ByteSize := by decide
  simp [look, taken, names, start, follow, appOf, appEntries, entriesAt?, Node.at?, nodeNamed?,
    short]

/-- A file that is found twice keeps the spelling that was given first. -/
theorem collect_appEntries :
    ((appOf appEntries).collect ["Build"] [.ofString "App//B.swift", .ofString "App"]).2 =
      .ok [⟨"App//B.swift", []⟩, ⟨"App", ["Core", "A.swift"]⟩] := by
  have seen : (appOf appEntries).root.at? ["App"] = some (.directory appEntries) := rfl
  have seen' : (appOf appEntries).root.at? ["App", "B.swift"] = some (.file .empty) := rfl
  have gathered :
      (appOf appEntries).gather ["Build"] [.ofString "App//B.swift", .ofString "App"] =
        ⟨[⟨"App//B.swift", []⟩, ⟨"App", ["B.swift"]⟩, ⟨"App", ["Core", "A.swift"]⟩],
          [.skipped "App/Build"], none⟩ := by
    simp only [gather, sourcesAt, look_appOf, look_appEntries, seen, seen']
    simp only [below, (listable_appOf _).listing_eq, appEntries, belowEntries]
    rfl
  have order : (Path.mk "App//B.swift" []).le ⟨"App", ["B.swift"]⟩ = true ∧
      (Path.mk "App//B.swift" []).le ⟨"App", ["Core", "A.swift"]⟩ = true ∧
      (Path.mk "App" ["B.swift"]).le ⟨"App", ["Core", "A.swift"]⟩ = true := by decide +kernel
  have sorted : Path.sortUnique
      [⟨"App//B.swift", []⟩, ⟨"App", ["B.swift"]⟩, ⟨"App", ["Core", "A.swift"]⟩] =
      [⟨"App//B.swift", []⟩, ⟨"App", ["Core", "A.swift"]⟩] := by
    simp only [Path.sortUnique]
    simp [List.mergeSort, List.MergeSort.Internal.splitInTwo, order]
    decide +kernel
  rw [collect_snd, gathered]
  exact congrArg Except.ok sorted

/-- The same is collected if the app lists its entries the other way round; and what is collected
from the paths in the other order has the same parts. -/
theorem collect_exact_appEntries :
    let given : List Path := [.ofString "App//B.swift", .ofString "App"]
    let app := appOf appEntries
    (app.root.WellFormed ∧ app.LinkFree ∧ app.Listable ∧ ∀ path ∈ given, app.WithinLength path) ∧
      ((appOf appEntries.reverse).collect ["Build"] given).2 =
        .ok [⟨"App//B.swift", []⟩, ⟨"App", ["Core", "A.swift"]⟩] ∧
      ∃ found, (app.collect ["Build"] given.reverse).2 = .ok found ∧
        found.map Path.parts = [[.name "App", .name "B.swift"],
          [.name "App", .name "Core", .name "A.swift"]] := by
  intro given app
  have wellFormed := wellFormed_appOf (wellFormed_of_perm_appEntries (List.Perm.refl appEntries))
  have linkFree : app.LinkFree := fun place target seen => (mem_places_of_at? seen).2 target rfl
  have listable := listable_appOf appEntries
  have short : ∀ path ∈ given, app.WithinLength path := by
    intro path mem here left leads names node seen
    have place := (mem_places_of_at? seen).1
    simp only [given, List.mem_cons, List.not_mem_nil, or_false] at mem
    rcases mem with rfl | rfl
    · rw [look_appEntries] at leads
      cases leads
      have none : names = [] := by simpa using place
      rw [none]
      decide +kernel
    · rw [look_appOf] at leads
      cases leads
      have fits : ∀ names ∈ ([[], ["B.swift"], ["Build"], ["Build", "A.swift"], ["Core"],
          ["Core", "A.swift"]] : List (List String)),
          isTooLong ((Path.ofString "App").descend names) = false := by decide +kernel
      exact fits names (by simpa using place)
  obtain ⟨relisted, outcome⟩ := collect_exact ["Build"] wellFormed linkFree listable short
  have listed : app.entriesAt? ["App"] = some appEntries := rfl
  have same : app.SameContents (appOf appEntries.reverse) :=
    sameContents_put_of_perm wellFormed listed appEntries.reverse_perm
  refine ⟨⟨wellFormed, linkFree, listable, short⟩, ?_, ?_⟩
  · have wellFormed' := wellFormed_of_perm_appEntries appEntries.reverse_perm
    rw [relisted _ same (wellFormed_appOf wellFormed') (listable_appOf _)]
    exact collect_appEntries
  · split at outcome
    · rename_i path missing
      rw [collect_appEntries] at outcome
      cases outcome
    · obtain ⟨found, collected, -, -, -, reordered⟩ := outcome
      obtain ⟨found', collected', alike⟩ := reordered _ given.reverse_perm
      rw [collect_appEntries] at collected
      cases collected
      exact ⟨found', collected', alike.trans (by decide +kernel)⟩

end FileSystem

end RibMap
