import RibMap.Proofs.FileSystem.Writing

/-! # Looking entries up

In a well-formed file system every directory lists proper names, each of them once. There the entry
of a directory to which a path leads is found one step behind the directory, unless the path of the
entry is too long. What is looked up depends on what stands at the places of a file system and not
on the order in which its directories list their entries.
-/

namespace RibMap

section

variable {name : String} {node : Node} {entries entries' : List (String × Node)}

theorem mem_of_nodeNamed? (entry : nodeNamed? name entries = some node) :
    (name, node) ∈ entries := by
  induction entries with
  | nil => cases entry
  | cons first rest ih =>
    obtain ⟨other, old⟩ := first
    rw [nodeNamed?] at entry
    split at entry
    · rename_i same
      cases entry
      rw [same]
      exact List.mem_cons_self
    · exact List.mem_cons_of_mem _ (ih entry)

theorem nodeNamed?_eq_some_iff (distinct : (entries.map Prod.fst).Nodup) :
    nodeNamed? name entries = some node ↔ (name, node) ∈ entries := by
  refine ⟨mem_of_nodeNamed?, fun mem => ?_⟩
  induction entries with
  | nil => cases mem
  | cons first rest ih =>
    obtain ⟨other, old⟩ := first
    obtain ⟨fresh, distinct⟩ := List.nodup_cons.mp distinct
    rw [nodeNamed?]
    rcases List.mem_cons.mp mem with same | later
    · cases same
      exact if_pos rfl
    · have differ : other ≠ name := fun same =>
        fresh (List.mem_map.mpr ⟨(name, node), later, same.symm⟩)
      rw [if_neg differ, ih distinct later]

/-- In another order, the same entries have the same names. -/
theorem nodeNamed?_of_perm (distinct : (entries.map Prod.fst).Nodup)
    (reordered : entries'.Perm entries) : nodeNamed? name entries' = nodeNamed? name entries := by
  have distinct' : (entries'.map Prod.fst).Nodup :=
    (reordered.map Prod.fst).nodup_iff.mpr distinct
  ext node
  rw [nodeNamed?_eq_some_iff distinct, nodeNamed?_eq_some_iff distinct', reordered.mem_iff]

end

/-- A name that an entry can have. -/
structure EntryName (name : String) : Prop extends FileSystem.NamesEntry name where
  noZero : name.toList.any (·.toNat == 0) = false

instance (name : String) : Decidable (EntryName name) :=
  decidable_of_iff
    ((name ≠ "." ∧ name ≠ ".." ∧ ¬ FileSystem.nameLimit < name.utf8ByteSize) ∧
      name.toList.any (·.toNat == 0) = false)
    ⟨fun ⟨⟨current, parent, short⟩, noZero⟩ => ⟨⟨current, parent, short⟩, noZero⟩,
      fun proper => ⟨⟨proper.ne_current, proper.ne_parent, proper.short⟩, proper.noZero⟩⟩

namespace Node

/-- Every directory lists proper names, and none of them twice. -/
inductive WellFormed : Node → Prop
  | file (content : ByteArray) : WellFormed (file content)
  | link (target : String) : WellFormed (link target)
  | directory {entries : List (String × Node)} (distinct : (entries.map Prod.fst).Nodup)
      (proper : ∀ name ∈ entries.map Prod.fst, EntryName name)
      (inner : ∀ entry ∈ entries, WellFormed entry.2) :
      WellFormed (directory entries)

theorem WellFormed.of_at? {node inner : Node} {here : Location} (wellFormed : node.WellFormed)
    (found : node.at? here = some inner) : inner.WellFormed := by
  induction here generalizing node with
  | nil =>
    rw [at?_nil] at found
    cases found
    exact wellFormed
  | cons name rest ih =>
    cases wellFormed with
    | file content => cases found
    | link target => cases found
    | directory distinct proper below =>
      rw [at?] at found
      obtain ⟨next, entry, found⟩ := Option.bind_eq_some_iff.mp found
      exact ih (below _ (mem_of_nodeNamed? entry)) found

/-- A node in which something stands below it is a directory. -/
theorem at?_cons_eq_some_iff {node inner : Node} {name : String} {rest : Location} :
    node.at? (name :: rest) = some inner ↔
      ∃ entries next, node = directory entries ∧ nodeNamed? name entries = some next ∧
        next.at? rest = some inner := by
  cases node with
  | file content => simp [at?]
  | link target => simp [at?]
  | directory entries => simp [at?, Option.bind_eq_some_iff]

end Node

namespace Path

/-- Behind the spelling of a directory there is at most a slash between. -/
theorem joinSpelling_eq {directory : String} (given : directory.isEmpty = false) (name : String) :
    ∃ between ∈ ["", "/"], joinSpelling directory name = directory ++ between ++ name := by
  rw [joinSpelling, given, if_neg Bool.false_ne_true]
  by_cases slash : directory.toList.getLast? = some '/'
  · exact ⟨"", List.mem_cons_self, by rw [if_pos slash, String.append_empty]⟩
  · exact ⟨"/", List.mem_cons_of_mem _ List.mem_cons_self, by rw [if_neg slash]⟩

theorem spelling_child (path : Path) (name : String) :
    (path.child name).spelling = joinSpelling path.spelling name := by
  rw [spelling, child, List.foldl_append]
  rfl

end Path

namespace FileSystem

variable {fs fs' : FileSystem} {path : Path} {here there : Location} {left : Nat} {name : String}
  {entries : List (String × Node)} {node : Node}

theorem refusal?_eq_none_iff {spelling : String} :
    refusal? spelling = none ↔ spelling.toList.any (·.toNat == 0) = false ∧
      ¬ pathLimit ≤ spelling.utf8ByteSize ∧ spelling.isEmpty = false := by
  rw [refusal?]
  split
  · rename_i zero
    simp [zero]
  split
  · rename_i long
    simp [long]
  split
  · rename_i empty
    simp [empty]
  · simp_all

/-- The system refuses the path of an entry only for its length. -/
theorem refusal?_child (taken : refusal? path.spelling = none) (proper : EntryName name) :
    refusal? (path.child name).spelling =
      if pathLimit ≤ (path.child name).spelling.utf8ByteSize then some .nameTooLong else none := by
  obtain ⟨noZero, -, given⟩ := refusal?_eq_none_iff.mp taken
  obtain ⟨between, slash, spelled⟩ := Path.joinSpelling_eq given name
  rw [← Path.spelling_child] at spelled
  have noZero' : (path.child name).spelling.toList.any (·.toNat == 0) = false := by
    have harmless : ∀ between ∈ ["", "/"], between.toList.any (·.toNat == 0) = false := by decide
    rw [spelled, String.toList_append, String.toList_append, List.any_append, List.any_append,
      noZero, harmless between slash, proper.noZero]
    rfl
  have given' : (path.child name).spelling.isEmpty = false := by
    rw [spelled]
    simp_all
  rw [refusal?, noZero', given']
  rfl

/-- What a look-up of an entry comes to. -/
theorem look_child (leads : fs.look path = .ok (here, left)) (proper : EntryName name) :
    fs.look (path.child name) =
      if pathLimit ≤ (path.child name).spelling.utf8ByteSize then .error .nameTooLong
      else fs.follow left here [name] := by
  rw [look] at leads
  split at leads
  · cases leads
  rename_i taken
  have names : namesOf (path.child name) = namesOf path ++ [name] := by
    simp [namesOf, Path.child]
  rw [look, refusal?_child taken proper]
  by_cases long : pathLimit ≤ (path.child name).spelling.utf8ByteSize
  · simp only [if_pos long]
  · simp only [if_neg long, names]
    exact follow_append leads [name]

theorem wellFormed_of_entriesAt? (wellFormed : fs.root.WellFormed)
    (found : fs.entriesAt? here = some entries) : (Node.directory entries).WellFormed :=
  wellFormed.of_at? (entriesAt?_eq_some_iff.mp found)

/-- Where an entry of a directory leads with some links left to follow. -/
def entryPlace (fs : FileSystem) (left : Nat) (here : Location) (name : String) :
    Node → Except OsError (Location × Nat)
  | .link target =>
    match left with
    | 0 => .error .tooManyLinks
    | left + 1 => fs.follow left (origin here target) (segmentsOf target)
  | .file _ | .directory _ => .ok (here ++ [name], left)

theorem follow_entry (found : fs.entriesAt? here = some entries) (proper : NamesEntry name)
    (entry : nodeNamed? name entries = some node) :
    fs.follow left here [name] = fs.entryPlace left here name node := by
  cases node with
  | file content =>
    rw [follow_other proper found entry fun _ => Node.noConfusion, follow, entryPlace]
  | directory inner =>
    rw [follow_other proper found entry fun _ => Node.noConfusion, follow, entryPlace]
  | link target =>
    cases left with
    | zero =>
      rw [follow, found]
      simp only [proper.ne_current, proper.ne_parent, proper.short, entry, entryPlace, ↓reduceIte]
    | succ left => rw [follow_link proper found entry, List.append_nil, entryPlace]

/-- What stands in a well-formed directory is what it lists. -/
theorem at?_concat_eq_some_iff (wellFormed : fs.root.WellFormed)
    (found : fs.entriesAt? here = some entries) :
    fs.root.at? (here ++ [name]) = some node ↔ (name, node) ∈ entries := by
  cases wellFormed_of_entriesAt? wellFormed found with
  | directory distinct _ _ => rw [at?_concat found, nodeNamed?_eq_some_iff distinct]

theorem node?_eq_some_iff : fs.node? path = some node ↔
    ∃ here left, fs.look path = .ok (here, left) ∧ fs.root.at? here = some node := by
  rw [node?]
  cases fs.look path with
  | error refused => simp
  | ok place =>
    obtain ⟨here, left⟩ := place
    simp

theorem isDirectory_of_look (leads : fs.look path = .ok (here, left))
    (found : fs.entriesAt? here = some entries) : fs.isDirectory path = true := by
  rw [isDirectory, node?_eq_some_iff.mpr ⟨here, left, leads, entriesAt?_eq_some_iff.mp found⟩]

theorem isDirectory_eq_true_iff :
    fs.isDirectory path = true ↔
      ∃ here left entries, fs.look path = .ok (here, left) ∧
        fs.entriesAt? here = some entries := by
  constructor
  · intro directory
    rw [isDirectory] at directory
    split at directory
    · rename_i entries found
      obtain ⟨here, left, leads, seen⟩ := node?_eq_some_iff.mp found
      exact ⟨here, left, entries, leads, entriesAt?_eq_some_iff.mpr seen⟩
    · cases directory
  · rintro ⟨here, left, entries, leads, found⟩
    exact isDirectory_of_look leads found

theorem isFile_of_look {content : ByteArray} (leads : fs.look path = .ok (here, left))
    (seen : fs.root.at? here = some (.file content)) : fs.isFile path = true := by
  rw [isFile, node?_eq_some_iff.mpr ⟨here, left, leads, seen⟩]

theorem isFile_eq_true_iff :
    fs.isFile path = true ↔
      ∃ here left content, fs.look path = .ok (here, left) ∧
        fs.root.at? here = some (.file content) := by
  constructor
  · intro file
    rw [isFile] at file
    split at file
    · rename_i content found
      obtain ⟨here, left, leads, seen⟩ := node?_eq_some_iff.mp found
      exact ⟨here, left, content, leads, seen⟩
    · cases file
  · rintro ⟨here, left, content, leads, seen⟩
    exact isFile_of_look leads seen

theorem isDirectory_of_isFile (file : fs.isFile path = true) : fs.isDirectory path = false := by
  obtain ⟨here, left, content, leads, seen⟩ := isFile_eq_true_iff.mp file
  rw [isDirectory, node?_eq_some_iff.mpr ⟨here, left, leads, seen⟩]

/-- Something other than a link is at a place. -/
def Stands (fs : FileSystem) (place : Location) : Prop :=
  ∃ node, fs.root.at? place = some node ∧ ∀ target, node ≠ .link target

/-- On the way to something there are directories only. -/
theorem stands_of_entriesAt? (found : fs.entriesAt? there = some entries)
    (before : here <+: there) : fs.Stands here := by
  obtain ⟨rest, rfl⟩ := before
  rw [entriesAt?_eq_some_iff, Node.at?_append] at found
  obtain ⟨node, seen, found⟩ := Option.bind_eq_some_iff.mp found
  refine ⟨node, seen, fun target link => ?_⟩
  rw [link] at found
  cases rest with
  | nil => cases found
  | cons name rest => cases found

theorem stands_origin (found : fs.entriesAt? here = some entries) (written : String) :
    fs.Stands (origin here written) := by
  rw [origin]
  split
  · exact stands_of_entriesAt? found List.nil_prefix
  · exact stands_of_entriesAt? found (List.prefix_refl here)

/-- A look-up ends at something other than a link, if it starts there. -/
theorem stands_of_follow {links : Nat} {names : List String}
    (leads : fs.follow links here names = .ok (there, left))
    (start : names = [] → fs.Stands here) : fs.Stands there := by
  -- Wherever a name is dealt with there is a directory, so later starts stand in any case.
  revert leads start
  fun_induction FileSystem.follow fs links here names with
  | case1 =>
    intro leads start
    cases leads
    exact start rfl
  | case2 | case5 | case6 | case7 =>
    intro leads
    cases leads
  | case3 links here rest entries found ih =>
    intro leads _
    exact ih leads fun _ => stands_of_entriesAt? found (List.prefix_refl here)
  | case4 links here rest entries found proper ih =>
    intro leads _
    exact ih leads fun _ => stands_of_entriesAt? found here.dropLast_prefix
  | case8 here name rest entries found proper proper' short target entry links ih =>
    intro leads _
    exact ih leads fun _ => stands_origin found target
  | case9 links here name rest entries found proper proper' short node noLink entry ih =>
    intro leads _
    exact ih leads fun _ => ⟨node, (at?_concat found name).trans entry, noLink⟩

theorem stands_of_entryPlace {remaining : Nat} (found : fs.entriesAt? here = some entries)
    (seen : fs.root.at? (here ++ [name]) = some node)
    (leads : fs.entryPlace left here name node = .ok (there, remaining)) : fs.Stands there := by
  cases node with
  | file content =>
    cases leads
    exact ⟨_, seen, fun _ => Node.noConfusion⟩
  | directory inner =>
    cases leads
    exact ⟨_, seen, fun _ => Node.noConfusion⟩
  | link target =>
    cases left with
    | zero => cases leads
    | succ left => exact stands_of_follow leads fun _ => stands_origin found target

/-- What is found and is neither a link nor a directory is a file. -/
theorem isFile_of_stands (leads : fs.look path = .ok (here, left)) (stands : fs.Stands here)
    (other : fs.isDirectory path = false) : fs.isFile path = true := by
  obtain ⟨node, seen, noLink⟩ := stands
  cases node with
  | file content => exact isFile_of_look leads seen
  | link target => exact absurd rfl (noLink target)
  | directory inner =>
    rw [isDirectory_of_look leads (entriesAt?_eq_some_iff.mpr seen)] at other
    cases other

/-- The same things at the same places, in whatever order directories list them. -/
structure SameContents (fs fs' : FileSystem) : Prop where
  working : fs'.working = fs.working
  face : ∀ place, fs'.faceAt? place = fs.faceAt? place

namespace SameContents

theorem symm (same : fs.SameContents fs') : fs'.SameContents fs :=
  ⟨same.working.symm, fun place => (same.face place).symm⟩

theorem keeps (same : fs.SameContents fs') : fs.Keeps fs' where
  directory place found := (same.face place).trans found
  link place _ found := (same.face place).trans found
  file place content found := ⟨content, (same.face place).trans found⟩

theorem at? (same : fs.SameContents fs') (seen : fs.root.at? here = some node) :
    ∃ node', fs'.root.at? here = some node' ∧ node'.face = node.face := by
  have face := same.face here
  rw [faceAt?, faceAt?, seen] at face
  exact Option.map_eq_some_iff.mp face

theorem look (same : fs.SameContents fs') (leads : fs.look path = .ok (here, left)) :
    fs'.look path = .ok (here, left) := by
  rw [FileSystem.look] at leads ⊢
  split at leads
  · cases leads
  · rw [same.working]
    exact same.keeps.follow leads

theorem isDirectory (same : fs.SameContents fs') : fs'.isDirectory path = fs.isDirectory path := by
  have transfers {fs fs' : FileSystem} (same : fs.SameContents fs')
      (directory : fs.isDirectory path = true) : fs'.isDirectory path = true := by
    obtain ⟨here, left, entries, leads, found⟩ := isDirectory_eq_true_iff.mp directory
    obtain ⟨entries', found'⟩ := same.keeps.entriesAt? found
    exact isDirectory_of_look (same.look leads) found'
  exact Bool.eq_iff_iff.mpr ⟨transfers same.symm, transfers same⟩

theorem isFile (same : fs.SameContents fs') : fs'.isFile path = fs.isFile path := by
  have transfers {fs fs' : FileSystem} (same : fs.SameContents fs')
      (file : fs.isFile path = true) : fs'.isFile path = true := by
    obtain ⟨here, left, content, leads, seen⟩ := isFile_eq_true_iff.mp file
    obtain ⟨node, seen', file'⟩ := same.at? seen
    rw [Node.face_eq_file_iff.mp file'] at seen'
    exact isFile_of_look (same.look leads) seen'
  exact Bool.eq_iff_iff.mpr ⟨transfers same.symm, transfers same⟩

end SameContents

end FileSystem

/-- A directory that lists its entries in another order shows the same at every place. -/
theorem Node.face_at?_putAt_of_perm {node : Node} {here : Location}
    {entries entries' : List (String × Node)} (found : node.at? here = some (directory entries))
    (distinct : (entries.map Prod.fst).Nodup) (reordered : entries'.Perm entries)
    (place : Location) :
    ((putAt (directory entries') node here).at? place).map face = (node.at? place).map face := by
  induction here generalizing node place with
  | nil =>
    rw [at?_nil, Option.some.injEq] at found
    rw [found, putAt_nil]
    cases place with
    | nil => rfl
    | cons first rest => rw [at?, at?, nodeNamed?_of_perm distinct reordered]
  | cons step here ih =>
    obtain ⟨others, child, rfl, next, found⟩ := at?_cons_eq_some_iff.mp found
    rw [putAt, next, Option.getD_some]
    cases place with
    | nil => rfl
    | cons first rest =>
      rw [at?, at?]
      by_cases same : first = step
      · rw [same, nodeNamed?_putEntry_self, next, Option.bind_some, Option.bind_some]
        exact ih found rest
      · rw [nodeNamed?_putEntry_of_ne same]

/-- Whatever order a directory lists its entries in, the contents are the same. -/
theorem FileSystem.sameContents_put_of_perm {fs : FileSystem} {here : Location}
    {entries entries' : List (String × Node)} (wellFormed : fs.root.WellFormed)
    (found : fs.entriesAt? here = some entries) (reordered : entries'.Perm entries) :
    fs.SameContents (fs.put here (.directory entries')) := by
  cases wellFormed_of_entriesAt? wellFormed found with
  | directory distinct proper inner =>
    exact ⟨rfl, Node.face_at?_putAt_of_perm (entriesAt?_eq_some_iff.mp found) distinct reordered⟩

end RibMap
