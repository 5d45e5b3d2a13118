import RibMap.FileSystem

/-! # Files that are written

A file is written at a place where there is a file already or nothing yet, in a directory that is
there. It changes what stands at this place and nowhere else. The path under which it was written
leads to it from then on, through whatever links, so reading it gives back what was written.
-/

namespace RibMap

/-- What stands at a place, without what stands below it. -/
inductive Face where
  | file (content : ByteArray)
  | link (target : String)
  | directory

namespace Node

/-- What is seen of a node at its place. -/
def face : Node → Face
  | file content => .file content
  | link target => .link target
  | directory _ => .directory

theorem face_eq_directory_iff {node : Node} :
    node.face = .directory ↔ ∃ entries, node = .directory entries := by
  cases node <;> simp [face]

theorem face_eq_file_iff {node : Node} {content : ByteArray} :
    node.face = .file content ↔ node = .file content := by
  cases node <;> simp [face]

theorem face_eq_link_iff {node : Node} {target : String} :
    node.face = .link target ↔ node = .link target := by
  cases node <;> simp [face]

end Node

section

variable {name other : String} {node : Node} {entries : List (String × Node)}

theorem nodeNamed?_putEntry_self : nodeNamed? name (putEntry name node entries) = some node := by
  induction entries with
  | nil => simp [putEntry, nodeNamed?]
  | cons entry rest ih =>
    obtain ⟨first, old⟩ := entry
    by_cases same : first = name
    · simp [putEntry, nodeNamed?, same]
    · simp [putEntry, nodeNamed?, same, ih]

theorem nodeNamed?_putEntry_of_ne (differ : other ≠ name) :
    nodeNamed? other (putEntry name node entries) = nodeNamed? other entries := by
  induction entries with
  | nil => simp [putEntry, nodeNamed?, differ.symm]
  | cons entry rest ih =>
    obtain ⟨first, old⟩ := entry
    by_cases same : first = name
    · simp [putEntry, nodeNamed?, same, differ.symm]
    · simp [putEntry, nodeNamed?, same, ih]

end

namespace Node

theorem at?_nil (node : Node) : node.at? [] = some node := by
  cases node <;> rfl

theorem at?_append (node : Node) (here there : Location) :
    node.at? (here ++ there) = (node.at? here).bind (·.at? there) := by
  induction here generalizing node with
  | nil => rw [at?_nil, List.nil_append, Option.bind_some]
  | cons name rest ih =>
    cases node with
    | file content => rfl
    | link target => rfl
    | directory entries =>
      rw [List.cons_append, at?, at?, Option.bind_assoc]
      exact congrArg _ (funext ih)

theorem at?_singleton (entries : List (String × Node)) (name : String) :
    (directory entries).at? [name] = nodeNamed? name entries := by
  rw [at?]
  cases nodeNamed? name entries with
  | none => rfl
  | some node => exact node.at?_nil

theorem putAt_nil (new node : Node) : putAt new node [] = new := by
  cases node <;> rfl

theorem at?_putAt_self (new node : Node) (here : Location) :
    (putAt new node here).at? here = some new := by
  induction here generalizing node with
  | nil => rw [putAt_nil, at?_nil]
  | cons name rest ih =>
    cases node with
    | directory entries => rw [putAt, at?, nodeNamed?_putEntry_self, Option.bind_some, ih]
    | file content => simp [putAt, at?, nodeNamed?, ih]
    | link target => simp [putAt, at?, nodeNamed?, ih]

/-- A file put where there was nothing or a file changes nothing elsewhere: not on the way to it,
not beside it, and below it there was nothing either. -/
theorem face_at?_putAt {node : Node} {parent : Location} {name : String}
    {entries : List (String × Node)} (found : node.at? parent = some (directory entries))
    (free : ∀ old, nodeNamed? name entries = some old → ∃ content, old = file content)
    (content : ByteArray) {there : Location} (differ : there ≠ parent ++ [name]) :
    ((putAt (file content) node (parent ++ [name])).at? there).map face =
      (node.at? there).map face := by
  induction parent generalizing node there with
  | nil =>
    rw [at?_nil, Option.some.injEq] at found
    subst found
    rw [List.nil_append, putAt, putAt_nil]
    rcases there with - | ⟨first, more⟩
    · rfl
    rw [at?, at?]
    by_cases same : first = name
    · subst same
      rw [nodeNamed?_putEntry_self, Option.bind_some]
      cases more with
      | nil => exact absurd rfl differ
      | cons second more =>
        cases old : nodeNamed? first entries with
        | none => rfl
        | some old' =>
          obtain ⟨before, rfl⟩ := free old' old
          rfl
    · rw [nodeNamed?_putEntry_of_ne same]
  | cons step parent ih =>
    cases node with
    | file content => cases found
    | link target => cases found
    | directory others =>
      rw [at?] at found
      obtain ⟨child, next, below⟩ := Option.bind_eq_some_iff.mp found
      rw [List.cons_append, putAt, next, Option.getD_some]
      rcases there with - | ⟨first, more⟩
      · rfl
      rw [at?, at?]
      by_cases same : first = step
      · subst same
        rw [nodeNamed?_putEntry_self, next, Option.bind_some, Option.bind_some]
        exact ih below fun rest => differ (by rw [rest, List.cons_append])
      · rw [nodeNamed?_putEntry_of_ne same]

end Node

namespace FileSystem

/-- What stands at a place of a file system. -/
def faceAt? (fs : FileSystem) (place : Location) : Option Face :=
  (fs.root.at? place).map Node.face

/-- A place in a directory with nothing or a file there. -/
def CanHold (fs : FileSystem) (place : Location) : Prop :=
  ∃ parent name entries, place = parent ++ [name] ∧ fs.entriesAt? parent = some entries ∧
    ∀ node, nodeNamed? name entries = some node → ∃ content, node = .file content

section

variable {fs fs' : FileSystem} {here place there : Location} {entries : List (String × Node)}

theorem entriesAt?_eq_some_iff :
    fs.entriesAt? here = some entries ↔ fs.root.at? here = some (.directory entries) := by
  rw [entriesAt?]
  split
  · rename_i found
    simp [found]
  · rename_i other
    simp only [reduceCtorEq, false_iff]
    exact other entries

/-- The entries of a directory are what stands one step below it. -/
theorem at?_concat (found : fs.entriesAt? here = some entries) (name : String) :
    fs.root.at? (here ++ [name]) = nodeNamed? name entries := by
  rw [Node.at?_append, entriesAt?_eq_some_iff.mp found, Option.bind_some, Node.at?_singleton]

theorem faceAt?_put_self (fs : FileSystem) (place : Location) (content : ByteArray) :
    (fs.put place (.file content)).faceAt? place = some (.file content) := by
  rw [faceAt?, put, Node.at?_putAt_self]
  rfl

theorem faceAt?_put_of_ne (room : fs.CanHold place) (content : ByteArray)
    (differ : there ≠ place) :
    (fs.put place (.file content)).faceAt? there = fs.faceAt? there := by
  obtain ⟨parent, name, entries, rfl, found, free⟩ := room
  exact Node.face_at?_putAt (entriesAt?_eq_some_iff.mp found) free content differ

/-- A name that a look-up takes as the name of an entry. -/
structure NamesEntry (name : String) : Prop where
  ne_current : name ≠ "."
  ne_parent : name ≠ ".."
  short : ¬ nameLimit < name.utf8ByteSize

theorem follow_link {links : Nat} {name target : String} (names : NamesEntry name)
    (found : fs.entriesAt? here = some entries)
    (entry : nodeNamed? name entries = some (.link target)) (rest : List String) :
    fs.follow (links + 1) here (name :: rest) =
      fs.follow links (origin here target) (segmentsOf target ++ rest) := by
  rw [follow, found]
  simp only [names.ne_current, names.ne_parent, names.short, entry, ↓reduceIte]

theorem follow_other {links : Nat} {name : String} {node : Node} (names : NamesEntry name)
    (found : fs.entriesAt? here = some entries) (entry : nodeNamed? name entries = some node)
    (noLink : ∀ target, node ≠ .link target) (rest : List String) :
    fs.follow links here (name :: rest) = fs.follow links (here ++ [name]) rest := by
  rw [follow, found]
  simp only [names.ne_current, names.ne_parent, names.short, entry, ↓reduceIte]

/-- A look-up goes on from where the first names have led it. -/
theorem follow_append {links left : Nat} {first : List String}
    (leads : fs.follow links here first = .ok (there, left)) (next : List String) :
    fs.follow links here (first ++ next) = fs.follow left there next := by
  revert leads
  fun_induction FileSystem.follow fs links here first with
  | case1 =>
    intro leads
    cases leads
    rfl
  | case2 | case5 | case6 | case7 =>
    intro leads
    cases leads
  | case3 links here rest entries found ih =>
    intro leads
    rw [List.cons_append, follow, found]
    exact ih leads
  | case4 links here rest entries found proper ih =>
    intro leads
    rw [List.cons_append, follow, found]
    exact ih leads
  | case8 here name rest entries found proper proper' short target entry links ih =>
    intro leads
    rw [List.cons_append, follow_link ⟨proper, proper', short⟩ found entry, ← List.append_assoc]
    exact ih leads
  | case9 links here name rest entries found proper proper' short node noLink entry ih =>
    intro leads
    rw [List.cons_append, follow_other ⟨proper, proper', short⟩ found entry noLink]
    exact ih leads

/-- Whatever a look-up passes in one file system stands at the same place of another one: the
directories and the links, and what is neither of them. -/
structure Keeps (fs fs' : FileSystem) : Prop where
  directory : ∀ place, fs.faceAt? place = some .directory → fs'.faceAt? place = some .directory
  link : ∀ place target, fs.faceAt? place = some (.link target) →
    fs'.faceAt? place = some (.link target)
  file : ∀ place content, fs.faceAt? place = some (.file content) →
    ∃ content', fs'.faceAt? place = some (.file content')

theorem keeps_put (room : fs.CanHold place) (content : ByteArray) :
    fs.Keeps (fs.put place (.file content)) := by
  have held : fs.faceAt? place = none ∨ ∃ old, fs.faceAt? place = some (.file old) := by
    obtain ⟨parent, name, entries, rfl, found, free⟩ := room
    rw [faceAt?, at?_concat found]
    cases old : nodeNamed? name entries with
    | none => exact .inl rfl
    | some node =>
      obtain ⟨before, rfl⟩ := free node old
      exact .inr ⟨before, rfl⟩
  constructor
  · intro there found
    rw [faceAt?_put_of_ne room, found]
    rintro rfl
    simp [found] at held
  · intro there target found
    rw [faceAt?_put_of_ne room, found]
    rintro rfl
    simp [found] at held
  · intro there old found
    by_cases same : there = place
    · exact ⟨content, same ▸ faceAt?_put_self fs place content⟩
    · exact ⟨old, (faceAt?_put_of_ne room content same).trans found⟩

/-- A file is only made where it can be held. -/
theorem canHold_of_creationPlace {links : Nat} {names : List String}
    (made : fs.creationPlace links here names = .ok place) : fs.CanHold place := by
  revert made
  fun_induction FileSystem.creationPlace fs links here names with
  | case1 | case2 | case3 | case4 | case7 | case8 | case10 =>
    intro made
    cases made
  | case5 links here name entries found _ _ missing =>
    rintro ⟨⟩
    exact ⟨here, name, entries, rfl, found, by simp [missing]⟩
  | case6 links here name entries found _ _ old entry =>
    rintro ⟨⟩
    exact ⟨here, name, entries, rfl, found, by simp [entry]⟩
  | case9 here name entries found _ _ target entry links ih => exact ih
  | case11 links here name next rest there left passed ih => exact ih

namespace Keeps

variable (keeps : fs.Keeps fs')
include keeps

theorem entriesAt? (found : fs.entriesAt? here = some entries) :
    ∃ entries', fs'.entriesAt? here = some entries' := by
  have seen : fs.faceAt? here = some .directory := by
    rw [faceAt?, entriesAt?_eq_some_iff.mp found]
    rfl
  obtain ⟨node, there, face⟩ := Option.map_eq_some_iff.mp (keeps.directory here seen)
  obtain ⟨entries', rfl⟩ := Node.face_eq_directory_iff.mp face
  exact ⟨entries', entriesAt?_eq_some_iff.mpr there⟩

variable {entries' : List (String × Node)} {name target : String}

theorem nodeNamed?_link (found : fs.entriesAt? here = some entries)
    (found' : fs'.entriesAt? here = some entries')
    (entry : nodeNamed? name entries = some (.link target)) :
    nodeNamed? name entries' = some (.link target) := by
  have seen := keeps.link (here ++ [name]) target
  rw [faceAt?, faceAt?, at?_concat found, at?_concat found', entry] at seen
  obtain ⟨node, there, face⟩ := Option.map_eq_some_iff.mp (seen rfl)
  rw [there, Node.face_eq_link_iff.mp face]

theorem nodeNamed?_other {node : Node} (found : fs.entriesAt? here = some entries)
    (found' : fs'.entriesAt? here = some entries') (entry : nodeNamed? name entries = some node)
    (noLink : ∀ target, node ≠ .link target) :
    ∃ node', nodeNamed? name entries' = some node' ∧ ∀ target, node' ≠ .link target := by
  have seen : fs.faceAt? (here ++ [name]) = some node.face := by
    rw [faceAt?, at?_concat found, entry]
    rfl
  have other (face : Face) (same : fs'.faceAt? (here ++ [name]) = some face)
      (noLink : ∀ target, face ≠ .link target) :
      ∃ node', nodeNamed? name entries' = some node' ∧ ∀ target, node' ≠ .link target := by
    rw [faceAt?, at?_concat found'] at same
    obtain ⟨node', there, rfl⟩ := Option.map_eq_some_iff.mp same
    exact ⟨node', there, fun target link => noLink target (link ▸ rfl)⟩
  cases node with
  | file content =>
    obtain ⟨content', same⟩ := keeps.file _ content seen
    exact other _ same fun target => Face.noConfusion
  | link target => exact absurd rfl (noLink target)
  | directory below => exact other _ (keeps.directory _ seen) fun target => Face.noConfusion

/-- A look-up goes the same way in the other file system. -/
theorem follow {links left : Nat} {names : List String}
    (leads : fs.follow links here names = .ok (place, left)) :
    fs'.follow links here names = .ok (place, left) := by
  revert leads
  fun_induction FileSystem.follow fs links here names with
  | case1 => exact fun leads => by rwa [FileSystem.follow]
  | case2 | case5 | case6 | case7 =>
    intro leads
    cases leads
  | case3 links here rest entries found ih =>
    intro leads
    obtain ⟨entries', found'⟩ := keeps.entriesAt? found
    rw [FileSystem.follow, found']
    exact ih leads
  | case4 links here rest entries found proper ih =>
    intro leads
    obtain ⟨entries', found'⟩ := keeps.entriesAt? found
    rw [FileSystem.follow, found']
    exact ih leads
  | case8 here name rest entries found proper proper' short target entry links ih =>
    intro leads
    obtain ⟨entries', found'⟩ := keeps.entriesAt? found
    rw [follow_link ⟨proper, proper', short⟩ found' (keeps.nodeNamed?_link found found' entry)]
    exact ih leads
  | case9 links here name rest entries found proper proper' short node noLink entry ih =>
    intro leads
    obtain ⟨entries', found'⟩ := keeps.entriesAt? found
    obtain ⟨node', entry', noLink'⟩ := keeps.nodeNamed?_other found found' entry noLink
    rw [follow_other ⟨proper, proper', short⟩ found' entry' noLink']
    exact ih leads

/-- Where a file was made, the names under which it was made lead from then on. -/
theorem follow_of_creationPlace {links : Nat} {names : List String} {content : ByteArray}
    (made : fs.creationPlace links here names = .ok place)
    (file : fs'.faceAt? place = some (.file content)) :
    ∃ left, fs'.follow links here names = .ok (place, left) := by
  -- A name that the place ends in is the name of the file in the other file system.
  have ends {links : Nat} {here : Location} {name : String} {entries : List (String × Node)}
      (found : fs.entriesAt? here = some entries) (proper : ¬(name = "." ∨ name = ".."))
      (short : ¬nameLimit < name.utf8ByteSize)
      (made : (.ok (here ++ [name]) : Except OsError Location) = .ok place) :
      ∃ left, fs'.follow links here [name] = .ok (place, left) := by
    cases made
    obtain ⟨entries', found'⟩ := keeps.entriesAt? found
    rw [faceAt?, at?_concat found'] at file
    obtain ⟨node, entry, face⟩ := Option.map_eq_some_iff.mp file
    obtain rfl := Node.face_eq_file_iff.mp face
    rw [not_or] at proper
    refine ⟨links, ?_⟩
    rw [follow_other ⟨proper.1, proper.2, short⟩ found' entry fun target => Node.noConfusion,
      FileSystem.follow]
  revert made
  fun_induction FileSystem.creationPlace fs links here names with
  | case1 | case2 | case3 | case4 | case7 | case8 | case10 =>
    intro made
    cases made
  | case5 links here name entries found proper short missing => exact ends found proper short
  | case6 links here name entries found proper short old entry => exact ends found proper short
  | case9 here name entries found proper short target entry links ih =>
    intro made
    obtain ⟨entries', found'⟩ := keeps.entriesAt? found
    rw [not_or] at proper
    rw [follow_link ⟨proper.1, proper.2, short⟩ found' (keeps.nodeNamed?_link found found' entry),
      List.append_nil]
    exact ih made
  | case11 links here name next rest there left passed ih =>
    intro made
    have passes := follow_append (keeps.follow passed) (next :: rest)
    rw [List.singleton_append] at passes
    rw [passes]
    exact ih made

end Keeps

variable {path : Path} {content : ByteArray} {after : FileSystem}

/-- A path with a final slash is not the path of a file to be made. -/
theorem creationPlace_of_creationOf (placed : fs.creationOf path = .ok place) :
    fs.creationPlace linkLimit (origin fs.working path.written) (namesOf path) = .ok place := by
  simp only [creationOf] at placed
  split at placed
  · split at placed <;> cases placed
  · exact placed

/-- Writing puts a file at one place, to which the path leads from then on. -/
theorem of_write (written : fs.write path content = .ok after) :
    ∃ place left, fs.CanHold place ∧ after = fs.put place (.file content) ∧
      after.look path = .ok (place, left) := by
  unfold write at written
  split at written
  · cases written
  rename_i taken
  split at written
  · cases written
  rename_i place placed
  cases written
  replace placed := creationPlace_of_creationOf placed
  have room := canHold_of_creationPlace placed
  obtain ⟨left, leads⟩ := (keeps_put room content).follow_of_creationPlace placed
    (faceAt?_put_self fs place content)
  refine ⟨place, left, room, rfl, ?_⟩
  rw [look, taken]
  exact leads

/-- What was written is what the path leads to, and it is read if its place can be read; at other
places everything is as it was. -/
theorem readText_of_write {text : String} (written : fs.write path text.toUTF8 = .ok after) :
    after.working = fs.working ∧ after.faults = fs.faults ∧
      ∃ place left, after.look path = .ok (place, left) ∧
        after.faceAt? place = some (.file text.toUTF8) ∧
        (fs.faults.reading place = none → after.readText path = .ok text) ∧
        ∀ there ≠ place, after.faceAt? there = fs.faceAt? there := by
  obtain ⟨place, left, room, rfl, leads⟩ := of_write written
  refine ⟨rfl, rfl, place, left, leads, faceAt?_put_self fs place _, fun readable => ?_,
    fun there => faceAt?_put_of_ne room _⟩
  have valid : String.fromUTF8? text.toUTF8 = some text := dif_pos text.isValidUTF8
  rw [readText, leads]
  simp only [put, Node.at?_putAt_self, readable, valid]

/-- A file in the root directory can be written under a path that consists of its name. -/
theorem write_of_namesOf {entries : List (String × Node)} (name : String)
    (taken : refusal? path.spelling = none) (names : namesOf path = [name])
    (noSlash : path.spelling.toList.getLast? ≠ some '/') (proper : NamesEntry name)
    {old : ByteArray} (found : nodeNamed? name entries = some (.file old)) (content : ByteArray) :
    ({ root := .directory entries, working := [] } : FileSystem).write path content =
      .ok (put { root := .directory entries, working := [] } [name] (.file content)) := by
  have start : origin [] path.written = [] := ite_self _
  have entered : ¬(name = "." ∨ name = "..") := not_or.mpr ⟨proper.ne_current, proper.ne_parent⟩
  simp only [write, taken, creationOf, noSlash, start, names, creationPlace, entriesAt?, Node.at?,
    entered, proper.short, found, List.nil_append, ↓reduceIte]

end

end FileSystem

end RibMap
