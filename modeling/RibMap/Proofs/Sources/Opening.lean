import RibMap.Proofs.CommandLine.Failure
import RibMap.Proofs.Sources.Exactness
import RibMap.Proofs.Sources.Loading

/-! # Opening what was collected

A collected path leads to a regular file, unless it is the path of an entry that has the name of a
Swift file and leads nowhere: a link that cannot be followed to its end, or an entry whose path is
too long. A search takes such an entry for a file. Where there is none, every collected path can be
opened, unless the file itself cannot be read; where there is one, loading what was collected fails.
-/

namespace RibMap

namespace FileSystem

/-- An entry with the name of a Swift file that leads nowhere, because its path is too long or
because it is a link that cannot be followed. -/
structure Dangling (fs : FileSystem) (path : Path) : Prop where
  swift : path.isSwift = true
  refused : ∃ error, fs.look path = .error error
  listed : ∃ parent name here left node, path = parent.child name ∧
    fs.look parent = .ok (here, left) ∧ fs.root.at? (here ++ [name]) = some node ∧
    (isTooLong path = true ∨ ∃ target, node = .link target)

section

variable {fs : FileSystem} {skipDirs : List String} {path found : Path} {here : Location}
  {left : Nat} {name : String} {node : Node} {entries : List (String × Node)}

variable (wellFormed : fs.root.WellFormed)
include wellFormed

/-- An entry of a directory that is no directory itself and has the name of a Swift file is a file,
or it leads nowhere. -/
theorem isFile_or_dangling_child (leads : fs.look path = .ok (here, left))
    (listed : fs.entriesAt? here = some entries)
    (seen : fs.root.at? (here ++ [name]) = some node)
    (other : fs.isDirectory (path.child name) = false) (swift : (path.child name).isSwift = true) :
    fs.isFile (path.child name) = true ∨ fs.Dangling (path.child name) := by
  have leadsTo := look_entry wellFormed leads listed
    ((at?_concat_eq_some_iff wellFormed listed).mp seen)
  cases looked : fs.look (path.child name) with
  | ok place =>
    obtain ⟨there, remaining⟩ := place
    rw [looked] at leadsTo
    split at leadsTo
    · cases leadsTo
    · exact .inl (isFile_of_stands looked (stands_of_entryPlace listed seen leadsTo.symm) other)
  | error refused =>
    refine .inr ⟨swift, ⟨refused, looked⟩, path, name, here, left, node, rfl, leads, seen, ?_⟩
    rw [looked] at leadsTo
    split at leadsTo
    · rename_i long
      exact .inl long
    · cases node with
      | file content => cases leadsTo
      | directory inner => cases leadsTo
      | link target => exact .inr ⟨target, rfl⟩

/-- A search finds files, and entries that lead nowhere. -/
theorem isFile_or_dangling_of_mem_search (directory : fs.isDirectory path = true)
    (mem : found ∈ (fs.search skipDirs path).paths) :
    fs.isFile found = true ∨ fs.Dangling found := by
  induction path using search_induction wellFormed with
  | other path other =>
    rw [directory] at other
    cases other
  | directory path here left entries leads listed ih =>
    obtain ⟨-, name, node, seen, mem⟩ := exists_entry_of_mem_search wellFormed leads listed mem
    cases inner : fs.isDirectory (path.child name) with
    | true => exact ih name node seen inner mem
    | false =>
      rw [search_other inner, mem_leaf] at mem
      obtain ⟨rfl, swift⟩ := mem
      exact isFile_or_dangling_child wellFormed leads listed seen inner swift

end

section

variable [Json.Library] [Swift.Grammar] {fs : FileSystem} {path : Path} {paths : List Path}

/-- A file fails to be read only for its content, or because it cannot be read at all. -/
theorem declarationsAt_of_isFile {parser : Swift.Grammar.Parser} {failed : String} {cause : OsError}
    (file : fs.isFile path = true)
    (failure : fs.declarationsAt parser path = .error (.io failed cause)) :
    failed = path.spelling ∧ (cause = .notUtf8 ∨
      ∃ here left, fs.look path = .ok (here, left) ∧ fs.faults.reading here = some cause) := by
  obtain ⟨here, left, content, leads, seen⟩ := isFile_eq_true_iff.mp file
  rw [declarationsAt, readText, leads] at failure
  simp only [seen] at failure
  cases faulty : fs.faults.reading here with
  | some error =>
    rw [faulty] at failure
    cases failure
    exact ⟨rfl, .inr ⟨here, left, leads, faulty⟩⟩
  | none =>
    cases decoded : String.fromUTF8? content with
    | none =>
      rw [faulty, decoded] at failure
      cases failure
      exact ⟨rfl, .inl rfl⟩
    | some text =>
      simp only [faulty, decoded] at failure
      split at failure
      · split at failure <;> cases failure
      · split at failure <;> cases failure

/-- Where a file fails whatever parser comes to it, loading fails. -/
theorem exists_error_load_of_mem (error : SourceError) (mem : path ∈ paths)
    (failed : ∀ parser, fs.declarationsAt parser path = .error error) :
    ∃ error, (fs.load paths).2 = .error error := by
  cases new : (Swift.Grammar.load : Except String Swift.Grammar.Parser) with
  | error cause => exact ⟨_, (load_error_iff fs paths _).mpr (.inl ⟨cause, new, rfl⟩)⟩
  | ok parser =>
    obtain ⟨earlier, later, rfl⟩ := List.append_of_mem mem
    rcases loadsTo_or_first_failure fs parser earlier with ⟨parts, between, loads⟩ |
      ⟨earlier, first, behind, parts, between, error, rfl, loads, failed'⟩
    · exact ⟨error, (load_error_iff fs _ _).mpr (.inr ⟨parser, earlier, path, later, parts,
        between, new, rfl, loads, failed between⟩)⟩
    · exact ⟨error, (load_error_iff fs _ _).mpr (.inr ⟨parser, earlier, first,
        behind ++ path :: later, parts, between, new, by simp, loads, failed'⟩)⟩

/-- If paths can be collected, the collected ones are the paths of regular files and of entries that
lead nowhere, the latter only from below given directories. If there are none of these, loading what
was collected fails with an error of the system only at one of the files, because its content is not
UTF-8 or cannot be read at all. If there are some, loading fails. -/
theorem collect_opens {skipDirs : List String} {found : List Path}
    (wellFormed : fs.root.WellFormed) (collected : (fs.collect skipDirs paths).2 = .ok found) :
    (∀ path ∈ found, fs.isFile path = true ∨ fs.Dangling path ∧
      ∃ given ∈ paths, fs.isDirectory given = true ∧ ∃ names, path = given.descend names) ∧
    ((∀ path ∈ found, ¬ fs.Dangling path) → ∀ path cause,
      (fs.load found).2 = .error (.io path cause) → ∃ file ∈ found, path = file.spelling ∧
        (cause = .notUtf8 ∨ ∃ here left, fs.look file = .ok (here, left) ∧
          fs.faults.reading here = some cause)) ∧
    ((∃ path ∈ found, fs.Dangling path) → ∃ error, (fs.load found).2 = .error error) := by
  have kinds : ∀ path ∈ found, fs.isFile path = true ∨ fs.Dangling path ∧
      ∃ given ∈ paths, fs.isDirectory given = true ∧ ∃ names, path = given.descend names := by
    intro path mem
    obtain ⟨given, known, present, source⟩ := exists_mem_sourcesOf_of_collect collected mem
    rw [sourcesOf] at source
    split at source
    · rename_i directory
      refine (isFile_or_dangling_of_mem_search wellFormed directory source).imp_right
        fun dangling => ⟨dangling, given, known, directory, ?_⟩
      exact eq_descend_of_mem_search wellFormed source
    · rename_i other
      rw [List.mem_singleton.mp source]
      exact .inl (by simpa [isThere, other] using present)
  refine ⟨kinds, fun none failing cause failure => ?_, ?_⟩
  · obtain ⟨_, -, grammar⟩ | ⟨_, earlier, path, later, _, _, -, whole, -, failed⟩ :=
      (load_error_iff fs found _).mp failure
    · cases grammar
    have mem : path ∈ found := whole ▸ List.mem_append_right earlier List.mem_cons_self
    have file := (kinds path mem).resolve_right fun dangling => none path mem dangling.1
    exact ⟨path, mem, declarationsAt_of_isFile file failed⟩
  · rintro ⟨path, mem, dangling⟩
    obtain ⟨error, refused⟩ := dangling.refused
    refine exists_error_load_of_mem (.io path.spelling error) mem fun parser => ?_
    rw [declarationsAt, readText, refused]

end

section Gone

open scoped Reference

/-- A source of an app, and beside it a link to a file that is gone. -/
def goneEntries : List (String × Node) :=
  [("Root.swift", .file .empty), ("Old.swift", .link "Gone.swift")]

theorem wellFormed_goneEntries : (Node.directory goneEntries).WellFormed := by
  have names : (goneEntries.map Prod.fst).Nodup ∧
      ∀ name ∈ goneEntries.map Prod.fst, EntryName name := by decide +kernel
  exact .directory names.1 names.2 (by simpa [goneEntries] using ⟨.file .empty, .link _⟩)

theorem follow_gone (links : Nat) :
    (appOf goneEntries).follow links (origin ["App"] "Gone.swift") (segmentsOf "Gone.swift") =
      .error .notFound := by
  have names : segmentsOf "Gone.swift" = ["Gone.swift"] := by decide +kernel
  have start : origin ["App"] "Gone.swift" = ["App"] := by decide +kernel
  have short : ¬ nameLimit < "Gone.swift".utf8ByteSize := by decide
  rw [names, start]
  simp [follow, appOf, goneEntries, entriesAt?, Node.at?, nodeNamed?, short]

theorem look_gone : (appOf goneEntries).look ⟨"App", ["Old.swift"]⟩ = .error .notFound := by
  have listed : (appOf goneEntries).entriesAt? ["App"] = some goneEntries := rfl
  have leads := look_entry (wellFormed_appOf wellFormed_goneEntries) (look_appOf _) listed
    (List.mem_cons_of_mem _ List.mem_cons_self)
  have short : isTooLong ((Path.ofString "App").child "Old.swift") = false := by decide +kernel
  rw [short] at leads
  exact leads.trans (follow_gone 39)

/-- The link is collected, wherever the app is not left out. -/
theorem collect_gone {skipDirs : List String} (kept : "App" ∉ skipDirs) :
    ((appOf goneEntries).collect skipDirs [.ofString "App"]).2 =
      .ok [⟨"App", ["Old.swift"]⟩, ⟨"App", ["Root.swift"]⟩] := by
  have source : (appOf goneEntries).root.at? (["App"] ++ ["Root.swift"]) = some (.file .empty) :=
    rfl
  have gone : (appOf goneEntries).root.at? (["App"] ++ ["Old.swift"]) =
      some (.link "Gone.swift") := rfl
  have nowhere : (appOf goneEntries).entryPlace linkLimit ["App"] "Old.swift"
      (.link "Gone.swift") = .error .notFound := follow_gone 39
  have entries : (appOf goneEntries).belowEntries skipDirs linkLimit (.ofString "App") ["App"]
      goneEntries = ⟨[⟨"App", ["Root.swift"]⟩, ⟨"App", ["Old.swift"]⟩], [], none⟩ := by
    change belowEntries _ _ _ _ _
      (("Root.swift", .file .empty) :: ("Old.swift", .link "Gone.swift") :: []) = _
    rw [belowEntries_cons source, belowEntries_cons gone, nowhere, belowEntries]
    rfl
  have gathered : (appOf goneEntries).gather skipDirs [.ofString "App"] =
      ⟨[⟨"App", ["Root.swift"]⟩, ⟨"App", ["Old.swift"]⟩], [], none⟩ := by
    have seen : (appOf goneEntries).root.at? ["App"] = some (.directory goneEntries) := rfl
    have named : (Path.ofString "App").fileName? = some "App" := by decide +kernel
    simp only [gather, sourcesAt, look_appOf, seen, below, (listable_appOf _).listing_eq, named,
      Option.any_some, kept, decide_false, entries, Bool.false_eq_true, ↓reduceIte]
    rfl
  have order : (Path.mk "App" ["Root.swift"]).le ⟨"App", ["Old.swift"]⟩ = false := by
    decide +kernel
  have sorted : Path.sortUnique [⟨"App", ["Root.swift"]⟩, ⟨"App", ["Old.swift"]⟩] =
      [⟨"App", ["Old.swift"]⟩, ⟨"App", ["Root.swift"]⟩] := by
    simp only [Path.sortUnique]
    simp [List.mergeSort, List.MergeSort.Internal.splitInTwo, order]
    decide +kernel
  rw [collect_snd, gathered]
  exact congrArg Except.ok sorted

/-- A link that leads nowhere is collected from the directory that lists it, under the usual
settings; loading what was collected then fails because there is no such file. -/
theorem collected_gone_cannot_be_opened :
    let app := appOf goneEntries
    let old : Path := ⟨"App", ["Old.swift"]⟩
    let found : List Path := [old, ⟨"App", ["Root.swift"]⟩]
    app.root.WellFormed ∧
      (app.collect ({} : Settings).skipDirs [.ofString "App"]).2 = .ok found ∧
      app.isFile old = false ∧
      (app.load found).2 = .error (.io "App/Old.swift" .notFound) := by
  intro app old found
  refine ⟨wellFormed_appOf wellFormed_goneEntries, collect_gone (by decide), ?_, ?_⟩
  · rw [isFile, node?, look_gone]
  · have spelled : old.spelling = "App/Old.swift" := by decide +kernel
    rw [load_eq rfl, loadWith, declarationsAt, readText, look_gone]
    simp only [spelled]

/-- Loading fails where the link to the file that is gone was collected. Where nothing leads
nowhere, nothing but a content that is not UTF-8 keeps files from being opened. -/
theorem collect_opens_app :
    (∃ error, ((appOf goneEntries).load [⟨"App", ["Old.swift"]⟩, ⟨"App", ["Root.swift"]⟩]).2 =
      .error error) ∧
    ∀ path cause,
      ((appOf appEntries).load [⟨"App//B.swift", []⟩, ⟨"App", ["Core", "A.swift"]⟩]).2 =
        .error (.io path cause) → cause = .notUtf8 := by
  constructor
  · have kept : "App" ∉ ([] : List String) := List.not_mem_nil
    obtain ⟨kinds, -, fails⟩ := collect_opens (wellFormed_appOf wellFormed_goneEntries)
      (collect_gone kept)
    have missing : (appOf goneEntries).isFile ⟨"App", ["Old.swift"]⟩ = false := by
      rw [isFile, node?, look_gone]
    obtain file | ⟨dangling, -⟩ := kinds _ List.mem_cons_self
    · rw [missing] at file
      cases file
    · exact fails ⟨_, List.mem_cons_self, dangling⟩
  · have wellFormed := wellFormed_appOf (wellFormed_of_perm_appEntries (List.Perm.refl appEntries))
    obtain ⟨-, opens, -⟩ := collect_opens wellFormed collect_appEntries
    have fits : ∀ path ∈ [Path.mk "App//B.swift" [], ⟨"App", ["Core", "A.swift"]⟩],
        isTooLong path = false := by decide +kernel
    intro path cause failure
    have none : ∀ path ∈ [Path.mk "App//B.swift" [], ⟨"App", ["Core", "A.swift"]⟩],
        ¬ (appOf appEntries).Dangling path := by
      intro path mem dangling
      obtain ⟨_, _, _, _, node, -, -, seen, long | ⟨target, link⟩⟩ := dangling.listed
      · rw [fits path mem] at long
        cases long
      · exact (mem_places_of_at? seen).2 target link
    obtain ⟨file, -, -, content | ⟨here, left, -, ⟨⟩⟩⟩ := opens none path cause failure
    exact content

end Gone

end FileSystem

end RibMap
