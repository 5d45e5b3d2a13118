import RibMap.Proofs.Analysis.Atomicity

/-! # Loading files one by one

One parser goes through the files of a list, up to the first file that fails. If parsing a text
starts from its beginning, whatever the parser has parsed before, then every file loads as it does
by itself, whatever stands before and behind it, and the log has a line for each file before the one
that fails.
-/

namespace RibMap

/-- The report of a file that was loaded. -/
def Event.ofFile (path : Path) (declarations : List Declaration) : Event :=
  .declared path.spelling declarations.length

section Parsers

variable [Swift.Grammar]

/-- Two parsers make the same of every text. -/
def Swift.Agree (parser parser' : Swift.Grammar.Parser) : Prop :=
  ∀ text, (Swift.Grammar.parse parser' text).1 = (Swift.Grammar.parse parser text).1

/-- A parser that has come to the end of a text starts the next one from its beginning, with nothing
kept of the former. -/
def Swift.ParsesFromBeginning : Prop :=
  ∀ (parser parser' : Swift.Grammar.Parser) text tree,
    Swift.Grammar.parse parser text = (some tree, parser') → Swift.Agree parser parser'

theorem Swift.Agree.declarations {parser parser' : Swift.Grammar.Parser}
    (agree : Swift.Agree parser parser') (text : String) :
    (Swift.declarations parser' text).1 = (Swift.declarations parser text).1 :=
  congrArg (Option.map fun root : SyntaxNode => root.children.filterMap SyntaxNode.declaration?)
    (agree text)

theorem Swift.agree_of_declarations (afresh : Swift.ParsesFromBeginning)
    {parser parser' : Swift.Grammar.Parser} {text : String} {declarations : List Declaration}
    (parsed : Swift.declarations parser text = (some declarations, parser')) :
    Swift.Agree parser parser' := by
  obtain ⟨found, rfl⟩ := Prod.ext_iff.mp parsed
  obtain ⟨tree, some, -⟩ := Option.map_eq_some_iff.mp found
  exact afresh parser _ text tree (Prod.ext some rfl)

end Parsers

namespace FileSystem

section

variable [Json.Library] [Swift.Grammar]

/-- Files are loaded one after the other by parsers that hand on to each other. -/
inductive LoadsTo (fs : FileSystem) :
    Swift.Grammar.Parser → List Path → List (List Declaration) → Swift.Grammar.Parser → Prop
  | nil (parser : Swift.Grammar.Parser) : LoadsTo fs parser [] [] parser
  | cons {before between behind : Swift.Grammar.Parser} {path : Path} {paths : List Path}
      {declarations : List Declaration} {parts : List (List Declaration)} :
    fs.declarationsAt before path = .ok (declarations, between) →
    LoadsTo fs between paths parts behind →
    LoadsTo fs before (path :: paths) (declarations :: parts) behind

/-- A file loads by itself, with some declarations. -/
def Loads (fs : FileSystem) (path : Path) (declarations : List Declaration) : Prop :=
  (fs.load [path]).2 = .ok declarations

variable {fs : FileSystem} {parser before behind : Swift.Grammar.Parser} {path : Path}
  {paths : List Path} {declarations : List Declaration} {parts : List (List Declaration)}
  {error : SourceError}

/-- Loading goes on behind files that were loaded. -/
theorem loadWith_append (loads : fs.LoadsTo before paths parts behind) (next : List Path) :
    fs.loadWith before (paths ++ next) =
      (List.zipWith Event.ofFile paths parts ++ (fs.loadWith behind next).1,
        (fs.loadWith behind next).2.map (parts.flatten ++ ·)) := by
  induction loads with
  | nil =>
    rw [List.nil_append]
    rcases fs.loadWith _ next with ⟨events, error | more⟩ <;> rfl
  | cons here more ih =>
    rw [List.cons_append, loadWith, here]
    simp only [ih]
    rcases fs.loadWith _ next with ⟨events, error | others⟩ <;> simp [Except.map, Event.ofFile]

/-- Either all files of a list are loaded, or there is a first one that fails. -/
theorem loadsTo_or_first_failure (fs : FileSystem) (before : Swift.Grammar.Parser)
    (paths : List Path) :
    (∃ parts behind, fs.LoadsTo before paths parts behind) ∨
      ∃ earlier path later parts between error, paths = earlier ++ path :: later ∧
        fs.LoadsTo before earlier parts between ∧
        fs.declarationsAt between path = .error error := by
  induction paths generalizing before with
  | nil => exact .inl ⟨[], before, .nil before⟩
  | cons path rest ih =>
    cases here : fs.declarationsAt before path with
    | error error => exact .inr ⟨[], path, rest, [], before, error, rfl, .nil before, here⟩
    | ok found =>
      obtain ⟨declarations, parser⟩ := found
      rcases ih parser with ⟨parts, behind, loads⟩ |
        ⟨earlier, failing, later, parts, between, error, rfl, loads, failed⟩
      · exact .inl ⟨_, behind, .cons here loads⟩
      · exact .inr ⟨path :: earlier, failing, later, _, between, error, rfl, .cons here loads,
          failed⟩

/-- Parsers that agree make the same of every file. -/
theorem map_declarationsAt (agree : Swift.Agree parser before) (fs : FileSystem) (path : Path) :
    (fs.declarationsAt before path).map Prod.fst =
      (fs.declarationsAt parser path).map Prod.fst := by
  unfold declarationsAt
  cases fs.readText path with
  | error error => rfl
  | ok text =>
    have same := agree.declarations text
    dsimp only
    split
    · cases Dump.declarations text <;> rfl
    · generalize Swift.declarations before text = found at same ⊢
      generalize Swift.declarations parser text = found' at same ⊢
      obtain ⟨declarations, after⟩ := found
      obtain ⟨declarations', after'⟩ := found'
      obtain rfl : declarations = declarations' := same
      cases declarations <;> rfl

theorem agree_of_declarationsAt (afresh : Swift.ParsesFromBeginning)
    (agree : Swift.Agree parser before)
    (loaded : fs.declarationsAt before path = .ok (declarations, behind)) :
    Swift.Agree parser behind := by
  unfold declarationsAt at loaded
  split at loaded
  · cases loaded
  rename_i text _
  split at loaded
  · split at loaded
    · cases loaded
    · cases loaded
      exact agree
  · split at loaded
    · cases loaded
    · rename_i parsed
      cases loaded
      exact fun other => (Swift.agree_of_declarations afresh parsed other).trans (agree other)

theorem exists_loads_of_mem (loads : List.Forall₂ fs.Loads paths parts) (mem : path ∈ paths) :
    ∃ declarations, fs.Loads path declarations := by
  induction loads with
  | nil => cases mem
  | cons first _ ih =>
    rcases List.mem_cons.mp mem with rfl | mem
    · exact ⟨_, first⟩
    · exact ih mem

/-- Either every file of a list loads by itself, or there is a first one that does not. -/
theorem forall₂_loads_or_first_failure (fs : FileSystem) (paths : List Path) :
    (∃ parts, List.Forall₂ fs.Loads paths parts) ∨
      ∃ earlier path later parts error, paths = earlier ++ path :: later ∧
        List.Forall₂ fs.Loads earlier parts ∧ (fs.load [path]).2 = .error error := by
  induction paths with
  | nil => exact .inl ⟨[], .nil⟩
  | cons path rest ih =>
    cases alone : (fs.load [path]).2 with
    | error error => exact .inr ⟨[], path, rest, [], error, rfl, .nil, alone⟩
    | ok declarations =>
      rcases ih with ⟨parts, loads⟩ | ⟨earlier, failing, later, parts, error, rfl, loads, failed⟩
      · exact .inl ⟨declarations :: parts, .cons alone loads⟩
      · exact .inr ⟨path :: earlier, failing, later, declarations :: parts, error, rfl,
          .cons alone loads, failed⟩

section Loaded

variable (new : Swift.Grammar.load = .ok parser)

include new

theorem load_eq (fs : FileSystem) (paths : List Path) :
    fs.load paths = fs.loadWith parser paths := by
  rw [load, new]

/-- By itself a file is parsed by a new parser. -/
theorem load_singleton (fs : FileSystem) (path : Path) :
    (fs.load [path]).2 = (fs.declarationsAt parser path).map Prod.fst := by
  rw [load_eq new, loadWith]
  rcases fs.declarationsAt parser path with error | ⟨declarations, behind⟩
  · rfl
  · simp [loadWith, Except.map]

theorem map_declarationsAt_eq_load (agree : Swift.Agree parser before) :
    (fs.declarationsAt before path).map Prod.fst = (fs.load [path]).2 :=
  (map_declarationsAt agree fs path).trans (load_singleton new fs path).symm

theorem exists_declarationsAt_of_loads (agree : Swift.Agree parser before)
    (loads : fs.Loads path declarations) :
    ∃ behind, fs.declarationsAt before path = .ok (declarations, behind) := by
  have alone := (map_declarationsAt_eq_load new agree).trans loads
  cases here : fs.declarationsAt before path with
  | error error =>
    rw [here] at alone
    cases alone
  | ok found =>
    rw [here] at alone
    cases alone
    exact ⟨found.2, rfl⟩

theorem declarationsAt_of_failure (agree : Swift.Agree parser before)
    (failed : (fs.load [path]).2 = .error error) :
    fs.declarationsAt before path = .error error := by
  have alone := (map_declarationsAt_eq_load new agree).trans failed
  cases here : fs.declarationsAt before path with
  | error error =>
    rw [here] at alone
    cases alone
    rfl
  | ok found =>
    rw [here] at alone
    cases alone

variable (afresh : Swift.ParsesFromBeginning)

include afresh

/-- Files that load by themselves load one after the other. -/
theorem exists_loadsTo (agree : Swift.Agree parser before)
    (loads : List.Forall₂ fs.Loads paths parts) :
    ∃ behind, fs.LoadsTo before paths parts behind ∧ Swift.Agree parser behind := by
  induction loads generalizing before with
  | nil => exact ⟨before, .nil before, agree⟩
  | cons first _ ih =>
    obtain ⟨between, here⟩ := exists_declarationsAt_of_loads new agree first
    obtain ⟨behind, more, agree⟩ := ih (agree_of_declarationsAt afresh agree here)
    exact ⟨behind, .cons here more, agree⟩

/-- Files that load by themselves load together, with a report of each. -/
theorem load_of_forall₂ (loads : List.Forall₂ fs.Loads paths parts) :
    fs.load paths = (List.zipWith Event.ofFile paths parts, .ok parts.flatten) := by
  obtain ⟨behind, together, -⟩ := exists_loadsTo new afresh (fun _ => rfl) loads
  have whole := loadWith_append together []
  rw [List.append_nil] at whole
  rw [load_eq new, whole]
  simp [loadWith, Except.map]

/-- The first file that fails decides, whatever comes behind it. -/
theorem load_of_first_failure (loads : List.Forall₂ fs.Loads paths parts)
    (failed : (fs.load [path]).2 = .error error) (later : List Path) :
    fs.load (paths ++ path :: later) = (List.zipWith Event.ofFile paths parts, .error error) := by
  obtain ⟨behind, together, agree⟩ := exists_loadsTo new afresh (fun _ => rfl) loads
  have stops : fs.loadWith behind (path :: later) = ([], .error error) := by
    rw [loadWith, declarationsAt_of_failure new agree failed]
  rw [load_eq new, loadWith_append together, stops]
  simp [Except.map]

/-- What is loaded behind files that load by themselves adds to their declarations. -/
theorem load_append_of_forall₂ (loads : List.Forall₂ fs.Loads paths parts) (next : List Path) :
    (fs.load (paths ++ next)).2 = (fs.load next).2.map (parts.flatten ++ ·) := by
  rcases forall₂_loads_or_first_failure fs next with
    ⟨parts', loads'⟩ | ⟨earlier, path, later, parts', error, rfl, loads', failed⟩
  · rw [load_of_forall₂ new afresh (List.rel_append loads loads'),
      load_of_forall₂ new afresh loads', List.flatten_append]
    rfl
  · have decides (parts : List (List Declaration)) (earlier : List Path)
        (loads : List.Forall₂ fs.Loads earlier parts) :=
      load_of_first_failure new afresh loads failed later
    rw [← List.append_assoc, decides _ _ (List.rel_append loads loads'), decides _ _ loads']
    rfl

end Loaded

/-- If there is no parser, nothing is loaded. Otherwise two lists of files, loaded one behind the
other, give the declarations of both, or the failure of the first list, or else that of the second.
So a list loads if every file of it loads by itself, and then it gives their declarations in order.
Otherwise it fails as its first failing file does by itself, whatever comes behind that file. Either
way exactly the files before have a line in the log, in order. -/
theorem load_file_by_file (afresh : Swift.ParsesFromBeginning) (fs : FileSystem)
    (paths : List Path) :
    (∀ cause, Swift.Grammar.load = .error cause →
      fs.load paths = ([], .error (.language cause))) ∧
    ∀ parser, Swift.Grammar.load = .ok parser →
      (∀ next,
        (∀ declarations more, (fs.load paths).2 = .ok declarations → (fs.load next).2 = .ok more →
          (fs.load (paths ++ next)).2 = .ok (declarations ++ more)) ∧
        (∀ error, (fs.load paths).2 = .error error → fs.load (paths ++ next) = fs.load paths) ∧
        ∀ declarations error, (fs.load paths).2 = .ok declarations →
          (fs.load next).2 = .error error → (fs.load (paths ++ next)).2 = .error error) ∧
      ((∃ declarations, (fs.load paths).2 = .ok declarations) ↔
        ∀ path ∈ paths, ∃ declarations, (fs.load [path]).2 = .ok declarations) ∧
      (∀ declarations, (fs.load paths).2 = .ok declarations → ∃ parts,
        List.Forall₂ fs.Loads paths parts ∧ declarations = parts.flatten ∧
          (fs.load paths).1 = List.zipWith Event.ofFile paths parts) ∧
      (∀ error, (fs.load paths).2 = .error error → ∃ earlier path later parts,
        paths = earlier ++ path :: later ∧ List.Forall₂ fs.Loads earlier parts ∧
          (fs.load [path]).2 = .error error) ∧
      ∀ earlier parts path error later, List.Forall₂ fs.Loads earlier parts →
        (fs.load [path]).2 = .error error →
          fs.load (earlier ++ path :: later) =
            (List.zipWith Event.ofFile earlier parts, .error error) := by
  refine ⟨fun cause missing => by rw [load, missing], fun parser new => ?_⟩
  have decides (earlier : List Path) (parts : List (List Declaration)) (path : Path)
      (error : SourceError) (later : List Path) (loads : List.Forall₂ fs.Loads earlier parts)
      (failed : (fs.load [path]).2 = .error error) :=
    load_of_first_failure new afresh loads failed later
  rcases forall₂_loads_or_first_failure fs paths with
    ⟨parts, loads⟩ | ⟨earlier, path, later, parts, error, rfl, loads, failed⟩
  · have loaded := load_of_forall₂ new afresh loads
    have appended := load_append_of_forall₂ new afresh loads
    rw [loaded]
    refine ⟨fun next => ⟨?_, ?_, ?_⟩, ?_, ?_, ?_, decides⟩
    · rintro declarations more ⟨⟩ follows
      rw [appended, follows]
      rfl
    · rintro error ⟨⟩
    · rintro declarations error ⟨⟩ follows
      rw [appended, follows]
      rfl
    · exact iff_of_true ⟨_, rfl⟩ fun path mem => exists_loads_of_mem loads mem
    · rintro declarations ⟨⟩
      exact ⟨parts, loads, rfl, rfl⟩
    · rintro error ⟨⟩
  · rw [decides _ _ _ _ later loads failed]
    refine ⟨fun next => ⟨?_, fun _ _ => ?_, ?_⟩, iff_of_false ?_ fun all => ?_, ?_, ?_, decides⟩
    · rintro declarations more ⟨⟩
    · rw [List.append_assoc, List.cons_append]
      exact decides _ _ _ _ _ loads failed
    · rintro declarations error ⟨⟩
    · rintro ⟨declarations, ⟨⟩⟩
    · obtain ⟨declarations, alone⟩ := all path (List.mem_append_right earlier List.mem_cons_self)
      rw [failed] at alone
      cases alone
    · rintro declarations ⟨⟩
    · rintro error ⟨⟩
      exact ⟨earlier, path, later, parts, rfl, loads, failed⟩

end

section Half

open scoped Reference
open Analysis (half half_declarationsAt_swift)

theorem half_loads_swift :
    half.Loads (.ofString "A.swift") [⟨.protocol, some "RootInteractable", ["AListener"]⟩] := by
  rw [Loads, load_singleton rfl, half_declarationsAt_swift]
  rfl

theorem half_load_missing :
    (half.load [.ofString "C.swift"]).2 = .error (.io "C.swift" .notFound) := by
  have taken : refusal? (Path.ofString "C.swift").spelling = none := by decide +kernel
  have names : namesOf (.ofString "C.swift") = ["C.swift"] := by decide +kernel
  have start : origin half.working "C.swift" = [] := by decide +kernel
  have short : ¬ nameLimit < "C.swift".utf8ByteSize := by decide
  have missing : half.follow linkLimit [] ["C.swift"] = .error .notFound := by
    simp [follow, half, entriesAt?, Node.at?, nodeNamed?, short]
  have read : half.readText (.ofString "C.swift") = .error .notFound := by
    rw [readText, look, taken, names]
    simp only [Path.ofString, start, missing]
  rw [load_singleton rfl, declarationsAt, read]
  rfl

/-- A file that is missing ends the loading of a list, whatever stands behind it. The file in front
of it has the only line in the log. -/
theorem load_file_by_file_half :
    let paths : List Path := [.ofString "A.swift", .ofString "C.swift", .ofString "B.json"]
    (half.load paths).2 = .error (.io "C.swift" .notFound) ∧
      (half.load paths).1.map Event.entry = ["DEBUG A.swift: 1 declarations"] := by
  intro paths
  obtain ⟨-, -, -, -, decides⟩ := (load_file_by_file (fun _ _ _ _ _ _ => rfl) half paths).2 () rfl
  have loads : List.Forall₂ half.Loads [.ofString "A.swift"] _ := .cons half_loads_swift .nil
  have stopped : half.load paths = _ :=
    decides _ _ _ _ [.ofString "B.json"] loads half_load_missing
  rw [stopped]
  exact ⟨rfl, by decide +kernel⟩

end Half

end FileSystem

end RibMap
