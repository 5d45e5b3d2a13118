import RibMap.Proofs.Sources.Search

/-! # Names that leave nothing out

No directory has an empty name, so an empty name among those to leave out leaves nothing out. Lists
that agree in all other names leave out the same directories of every walk, in whichever order and
however often they hold the names.
-/

namespace RibMap

/-- No entry has an empty name. -/
inductive Node.Named : Node → Prop
  | file (content : ByteArray) : Named (file content)
  | link (target : String) : Named (link target)
  | directory {entries : List (String × Node)} (named : ∀ entry ∈ entries, entry.1 ≠ "")
      (inner : ∀ entry ∈ entries, Named entry.2) : Named (directory entries)

theorem Node.Named.of_at? {node inner : Node} {here : Location} (named : node.Named)
    (found : node.at? here = some inner) : inner.Named := by
  induction here generalizing node with
  | nil =>
    rw [at?_nil] at found
    cases found
    exact named
  | cons name rest ih =>
    obtain ⟨entries, next, rfl, entry, found⟩ := at?_cons_eq_some_iff.mp found
    cases named with
    | directory _ below => exact ih (below _ (mem_of_nodeNamed? entry)) found

theorem Node.Named.entries {entries : List (String × Node)}
    (named : (Node.directory entries).Named) :
    (∀ entry ∈ entries, entry.1 ≠ "") ∧ ∀ entry ∈ entries, entry.2.Named := by
  cases named with
  | directory named inner => exact ⟨named, inner⟩

theorem Node.Named.of_subset {entries entries' : List (String × Node)}
    (named : (Node.directory entries).Named) (included : entries' ⊆ entries) :
    (Node.directory entries').Named := by
  obtain ⟨names, inner⟩ := named.entries
  exact .directory (fun entry mem => names entry (included mem))
    fun entry mem => inner entry (included mem)

/-- The parts of a spelling are no empty names. -/
theorem Part.name_notMem_listOf (written : String) : Part.name "" ∉ Part.listOf written := by
  intro mem
  rcases List.mem_append.mp mem with first | later
  · split at first
    · cases List.mem_singleton.mp first
    split at first
    · cases List.mem_singleton.mp first
    · cases first
  · obtain ⟨segment, -, made⟩ := List.mem_filterMap.mp later
    rw [ofSegment?] at made
    split at made
    · cases made
    rename_i proper
    split at made
    · cases made
    · have empty : segment = [] := by simpa using made
      exact proper (.inl empty)

theorem Path.fileName?_ofString_ne (written : String) : (ofString written).fileName? ≠ some "" := by
  intro named
  rw [fileName?] at named
  split at named
  · rename_i last
    cases named
    have mem := List.mem_of_getLast? last
    simp only [parts, ofString, List.map_nil, List.append_nil] at mem
    exact Part.name_notMem_listOf written mem
  · cases named

namespace FileSystem

/-- Two lists leave out the same directories: they agree in all names but the empty one. -/
def SameSkips (skipDirs skipDirs' : List String) : Prop :=
  ∀ name ≠ "", name ∈ skipDirs ↔ name ∈ skipDirs'

variable {fs : FileSystem} {skipDirs skipDirs' : List String}

mutual

theorem below_congr (same : SameSkips skipDirs skipDirs') (named : fs.root.Named) {path : Path}
    (proper : path.fileName? ≠ some "") {entries : List (String × Node)}
    (inner : (Node.directory entries).Named) (links : Nat) (here : Location) :
    fs.below skipDirs links path here entries = fs.below skipDirs' links path here entries := by
  have shorter := sizeOf_listing_le fs here entries
  have walked := belowEntries_congr same named (inner.of_subset (fs.listing_subset here entries))
    links path here
  have known : path.fileName?.any (· ∈ skipDirs) = path.fileName?.any (· ∈ skipDirs') := by
    cases found : path.fileName? with
    | none => rfl
    | some name =>
      have known := same name fun empty => proper (found.trans (congrArg some empty))
      simp only [Option.any_some, known]
  rw [below, below, known, walked]
termination_by (links, sizeOf entries, 1)
decreasing_by
  rcases Nat.lt_or_eq_of_le shorter with less | equal
  · exact Prod.Lex.right _ (Prod.Lex.left _ _ less)
  · rw [equal]
    exact Prod.Lex.right _ (Prod.Lex.right _ Nat.zero_lt_one)

theorem belowEntries_congr (same : SameSkips skipDirs skipDirs') (named : fs.root.Named) :
    ∀ {entries : List (String × Node)}, (Node.directory entries).Named →
      ∀ (links : Nat) (path : Path) (here : Location),
        fs.belowEntries skipDirs links path here entries =
          fs.belowEntries skipDirs' links path here entries
  | [], _, links, path, here => by rw [belowEntries, belowEntries]
  | (name, node) :: rest, inner, links, path, here => by
    obtain ⟨named', below⟩ := inner.entries
    have shorter : sizeOf rest < sizeOf ((name, node) :: rest) := by
      rw [List.cons.sizeOf_spec]
      omega
    have later := belowEntries_congr same named (inner.of_subset (List.subset_cons_self _ rest))
      links path here
    have proper : (path.child name).fileName? ≠ some "" := by
      rw [Path.fileName?_child]
      exact fun empty => named' _ List.mem_cons_self (Option.some.inj empty)
    have node' := below _ List.mem_cons_self
    rw [belowEntries.eq_def, belowEntries.eq_def fs skipDirs']
    simp only [later]
    congr 1
    split
    · rfl
    cases kind : node with
    | file content => rfl
    | directory entries =>
      have smaller : sizeOf entries < sizeOf ((name, node) :: rest) := by
        rw [kind, List.cons.sizeOf_spec, Prod.mk.sizeOf_spec, Node.directory.sizeOf_spec]
        omega
      rw [kind] at node'
      exact below_congr same named proper node' links (here ++ [name])
    | link target =>
      cases limit : links with
      | zero => rfl
      | succ left =>
        simp only
        split
        · rfl
        · rename_i there remaining leads
          cases listed : fs.entriesAt? there with
          | none => rfl
          | some entries =>
            have fewer : remaining < links := limit ▸ Nat.lt_succ_of_le (follow_links_le leads)
            exact below_congr same named proper
              (named.of_at? (entriesAt?_eq_some_iff.mp listed)) remaining there
termination_by entries _ links => (links, sizeOf entries, 0)
decreasing_by
  · exact Prod.Lex.right _ (Prod.Lex.left _ _ shorter)
  · exact Prod.Lex.left _ _ fewer
  · exact Prod.Lex.right _ (Prod.Lex.left _ _ smaller)

end

theorem sourcesAt_congr (same : SameSkips skipDirs skipDirs') (named : fs.root.Named) {path : Path}
    (proper : path.fileName? ≠ some "") :
    fs.sourcesAt skipDirs path = fs.sourcesAt skipDirs' path := by
  by_cases directory : fs.isDirectory path = true
  · obtain ⟨here, left, entries, leads, listed⟩ := isDirectory_eq_true_iff.mp directory
    have inner := named.of_at? (entriesAt?_eq_some_iff.mp listed)
    rw [sourcesAt_directory directory, sourcesAt_directory directory,
      search_directory leads listed, search_directory leads listed,
      below_congr same named proper inner]
  by_cases file : fs.isFile path = true
  · rw [sourcesAt_file file, sourcesAt_file file]
  · have missing : fs.isThere path = false := by simp [isThere, directory, file]
    rw [sourcesAt_missing missing, sourcesAt_missing missing]

/-- Given paths stand for the same sources, whichever of the lists is used. -/
theorem collect_congr (same : SameSkips skipDirs skipDirs') (named : fs.root.Named)
    {paths : List Path} (proper : ∀ path ∈ paths, path.fileName? ≠ some "") :
    fs.collect skipDirs paths = fs.collect skipDirs' paths := by
  have gathered : fs.gather skipDirs paths = fs.gather skipDirs' paths := by
    induction paths with
    | nil => rfl
    | cons path rest ih =>
      obtain ⟨here, later⟩ := List.forall_mem_cons.mp proper
      rw [gather, gather, sourcesAt_congr same named here, ih later]
  rw [collect, collect, gathered]

end FileSystem

end RibMap
