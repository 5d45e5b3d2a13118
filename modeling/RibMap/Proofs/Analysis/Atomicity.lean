import RibMap.Analysis.Operation
import RibMap.Proofs.Analysis.Batches
import RibMap.Reference.Json.Library
import RibMap.Reference.Swift.Outline

/-! # Operations are all or nothing

What an operation is to add to an analysis is known from the files alone: the declarations of all of
its sources if every one of them can be found and read, and nothing otherwise. Performing the
operation adds exactly that. A run of operations is therefore a run of batches, in which operations
that fail or only read stand for empty ones.
-/

namespace RibMap

namespace FileSystem

/-- The sources that some paths stand for, provided that all of the paths lead somewhere and all
that is below them can be listed. -/
def sourcesIn? (fs : FileSystem) (skipDirs : List String) (paths : List Path) :
    Option (List Path) :=
  (fs.collect skipDirs paths).2.toOption

/-- Reading a file in the root directory under a path that consists of its name. -/
theorem readText_of_namesOf {entries : List (String × Node)} {faults : Faults} {path : Path}
    {text : String} (name : String) (taken : refusal? path.spelling = none)
    (names : namesOf path = [name])
    (plain : name ≠ "." ∧ name ≠ ".." ∧ ¬ nameLimit < name.utf8ByteSize)
    (found : nodeNamed? name entries = some (.file text.toUTF8))
    (readable : faults.reading [name] = none) :
    ({ root := .directory entries, working := [], faults } : FileSystem).readText path =
      .ok text := by
  obtain ⟨proper, proper', short⟩ := plain
  have start : origin [] path.written = [] := ite_self _
  have decoded : String.fromUTF8? text.toUTF8 = some text := dif_pos text.isValidUTF8
  simp only [readText, look, taken, names, start, follow, entriesAt?, Node.at?, proper, proper',
    short, found, readable, List.nil_append, Option.bind_some, decoded, ↓reduceIte]

section

variable [Json.Library] [Swift.Grammar]

/-- The declarations of some files in order, provided that every single one of them can be read; the
parser goes from each of them to the next. -/
def declarationsFrom? (fs : FileSystem) (parser : Swift.Grammar.Parser) :
    List Path → Option (List Declaration)
  | [] => some []
  | path :: rest => do
    let (declarations, parser) ← (fs.declarationsAt parser path).toOption
    return declarations ++ (← fs.declarationsFrom? parser rest)

/-- The declarations of some files in order, provided that there is a parser and that it can read
every single one of them. -/
def declarationsIn? (fs : FileSystem) (paths : List Path) : Option (List Declaration) :=
  Swift.Grammar.load.toOption.bind fun parser => fs.declarationsFrom? parser paths

theorem toOption_loadWith (fs : FileSystem) (parser : Swift.Grammar.Parser) (paths : List Path) :
    (fs.loadWith parser paths).2.toOption = fs.declarationsFrom? parser paths := by
  induction paths generalizing parser with
  | nil => rfl
  | cons path rest ih =>
    rw [declarationsFrom?, loadWith]
    cases fs.declarationsAt parser path with
    | error error => rfl
    | ok found =>
      obtain ⟨declarations, parser⟩ := found
      change (Except.map _ (fs.loadWith parser rest).2).toOption =
        (fs.declarationsFrom? parser rest).bind fun more => some (declarations ++ more)
      rw [← ih]
      cases (fs.loadWith parser rest).2 <;> rfl

/-- A load that fails at any of its files leaves nothing of those before it. -/
theorem toOption_load (fs : FileSystem) (paths : List Path) :
    (fs.load paths).2.toOption = fs.declarationsIn? paths := by
  rw [load, declarationsIn?]
  cases Swift.Grammar.load with
  | error cause => rfl
  | ok parser => exact toOption_loadWith fs parser paths

end

end FileSystem

namespace Analysis

/-- The failure that an answer reports, if it reports one. -/
def Answer.failure? : Answer → Option AnalysisError
  | .failed error => some error
  | .written _ error => error
  | _ => none

namespace Operation

/-- An operation that asks about an analysis and is not meant to change it. -/
def readsOnly : Operation → Bool
  | .load _ | .acquire _ | .addDeclarations _ => false
  | .collect _ | .edges | .lines _ | .count _ | .text _ | .write .. => true

variable [Json.Library] [Swift.Grammar]

/-- The declarations that an operation is to add, unless some of its sources cannot be found or
read. -/
def declarations? (fs : FileSystem) (skipDirs : List String) :
    Operation → Option (List Declaration)
  | .load paths => fs.declarationsIn? paths
  | .acquire paths => (fs.sourcesIn? skipDirs paths).bind fs.declarationsIn?
  | .addDeclarations declarations => some declarations
  | .collect _ | .edges | .lines _ | .count _ | .text _ | .write .. => some []

/-- The declarations that an operation adds. -/
def declarations (fs : FileSystem) (skipDirs : List String) (operation : Operation) :
    List Declaration :=
  (operation.declarations? fs skipDirs).getD []

end Operation

section

variable [Json.Library] [Swift.Grammar]

/-- The analysis after some operations, performed one after the other. -/
def after (analysis : Analysis) (fs : FileSystem) (operations : List Operation) : Analysis :=
  operations.foldl (fun analysis operation => (analysis.perform fs operation).analysis) analysis

variable {analysis : Analysis} {fs : FileSystem}

/-- Loading files adds their declarations if all of them can be read. Otherwise it changes nothing
and says so. -/
theorem loading_cases (analysis : Analysis) (fs : FileSystem) (earlier : List Event)
    (paths : List Path) (answer : Answer) :
    let performed := analysis.loading fs earlier paths answer
    (∃ declarations, fs.declarationsIn? paths = some declarations ∧
        performed.analysis = (analysis.addDeclarations declarations).2 ∧
        performed.answer = answer) ∨
      fs.declarationsIn? paths = none ∧ performed.analysis = analysis ∧
        performed.answer.failure?.isSome := by
  rw [← FileSystem.toOption_load, loading, load]
  obtain ⟨events, result⟩ := fs.load paths
  cases result with
  | error error => exact .inr ⟨rfl, rfl, rfl⟩
  | ok declarations => exact .inl ⟨declarations, rfl, rfl, rfl⟩

theorem perform_of_readsOnly {operation : Operation} (reading : operation.readsOnly) :
    (analysis.perform fs operation).analysis = analysis := by
  cases operation with
  | load | acquire | addDeclarations => contradiction
  | edges | lines | count | text | write => rfl
  | collect paths =>
    rw [perform]
    split <;> rfl

/-- An operation adds its declarations if all of its sources can be found and read, and then answers
without a failure if it is meant to add something. Otherwise it changes nothing and fails. -/
theorem perform_cases (analysis : Analysis) (fs : FileSystem) (operation : Operation) :
    let performed := analysis.perform fs operation
    (∃ declarations,
        operation.declarations? fs analysis.settings.skipDirs = some declarations ∧
        performed.analysis = (analysis.addDeclarations declarations).2 ∧
        (operation.readsOnly = false → performed.answer.failure? = none)) ∨
      operation.declarations? fs analysis.settings.skipDirs = none ∧
        operation.readsOnly = false ∧ performed.analysis = analysis ∧
        performed.answer.failure?.isSome := by
  cases operation with
  | load paths =>
    rcases loading_cases analysis fs [] paths .done with
      ⟨declarations, read, added, answered⟩ | ⟨unread, kept, failed⟩
    · exact .inl ⟨declarations, read, added, fun _ => congrArg Answer.failure? answered⟩
    · exact .inr ⟨unread, rfl, kept, failed⟩
  | acquire paths =>
    rw [Operation.declarations?, FileSystem.sourcesIn?, perform, collect]
    obtain ⟨events, result⟩ := fs.collect analysis.settings.skipDirs paths
    cases result with
    | error error => exact .inr ⟨rfl, rfl, rfl, rfl⟩
    | ok found =>
      rcases loading_cases analysis fs events found (.paths found) with
        ⟨declarations, read, added, answered⟩ | ⟨unread, kept, failed⟩
      · exact .inl ⟨declarations, read, added, fun _ => congrArg Answer.failure? answered⟩
      · exact .inr ⟨unread, rfl, kept, failed⟩
  | addDeclarations declarations => exact .inl ⟨declarations, rfl, rfl, fun _ => rfl⟩
  | collect | edges | lines | count | text | write =>
    exact .inl ⟨[], rfl, perform_of_readsOnly rfl, nofun⟩

/-- Performing an operation adds its declarations and nothing else. -/
theorem perform_analysis (analysis : Analysis) (fs : FileSystem) (operation : Operation) :
    (analysis.perform fs operation).analysis =
      (analysis.addDeclarations (operation.declarations fs analysis.settings.skipDirs)).2 := by
  rcases perform_cases analysis fs operation with
    ⟨declarations, known, added, -⟩ | ⟨unknown, -, kept, -⟩
  · rw [Operation.declarations, known]
    exact added
  · rw [Operation.declarations, unknown]
    exact kept

/-- A run of operations is a run of the batches that they add. -/
theorem after_eq_addBatches (analysis : Analysis) (fs : FileSystem) (operations : List Operation) :
    analysis.after fs operations = analysis.addBatches
      (operations.map (Operation.declarations fs analysis.settings.skipDirs)) := by
  induction operations generalizing analysis with
  | nil => rfl
  | cons operation rest ih =>
    rw [after, List.foldl_cons, ← after, ih, perform_analysis]
    rfl

theorem settings_after (analysis : Analysis) (fs : FileSystem) (operations : List Operation) :
    (analysis.after fs operations).settings = analysis.settings := by
  rw [after_eq_addBatches, settings_addBatches]

theorem edges_after (settings : Settings) (fs : FileSystem) (operations : List Operation) :
    (after ⟨settings, .empty⟩ fs operations).edges =
      .ofDeclarations (operations.flatMap (Operation.declarations fs settings.skipDirs)) := by
  rw [after_eq_addBatches, edges_addBatches, EdgeSet.empty_union, ← List.flatMap_def]

/-- After every operation of a run the edges are those of all declarations that were added so far by
operations whose sources could all be found and read. An operation that is to add something fails
exactly if some source cannot. Whatever fails or only reads gives the analysis back as it was, and
no edge is ever lost. -/
theorem edges_of_successes (fs : FileSystem) (settings : Settings) (earlier : List Operation)
    (operation : Operation) :
    let before := after ⟨settings, .empty⟩ fs earlier
    let performed := before.perform fs operation
    performed.analysis.edges =
        .ofDeclarations ((earlier ++ [operation]).flatMap
          (Operation.declarations fs settings.skipDirs)) ∧
      (operation.readsOnly = false → (performed.answer.failure?.isSome ↔
        operation.declarations? fs settings.skipDirs = none)) ∧
      (performed.answer.failure?.isSome ∨ operation.readsOnly → performed.analysis = before) ∧
      before.edges ⊆ performed.analysis.edges := by
  intro before performed
  have kept : before.settings = settings := settings_after _ fs earlier
  have cases := perform_cases before fs operation
  rw [kept] at cases
  refine ⟨?_, ?_, ?_, ?_⟩
  · rw [← edges_after, after, List.foldl_append]
    rfl
  · intro adding
    rcases cases with ⟨declarations, known, -, answered⟩ | ⟨unknown, -, -, failed⟩
    · apply iff_of_false
      · rw [answered adding]
        exact Bool.false_ne_true
      · rw [known]
        exact Option.some_ne_none declarations
    · exact iff_of_true failed unknown
  · rintro (failed | reading)
    · rcases cases with ⟨declarations, -, -, answered⟩ | ⟨-, -, same, -⟩
      · cases reading : operation.readsOnly with
        | true => exact perform_of_readsOnly reading
        | false =>
          rw [answered reading] at failed
          contradiction
      · exact same
    · exact perform_of_readsOnly reading
  · have added : performed.analysis = _ := perform_analysis before fs operation
    rw [added]
    exact EdgeSet.subset_union _ _

end

section Half

open scoped Reference

/-- A protocol that listens to a child. -/
def listenerSource : String := "protocol RootInteractable: AListener \x7b\x7d"

/-- A Swift file, and a dump that breaks off. -/
def half : FileSystem where
  root := .directory [("A.swift", .file listenerSource.toUTF8), ("B.json", .file "\x7b".toUTF8)]
  working := []

theorem declarationsAt_listenerSource {fs : FileSystem} {path : Path}
    (read : fs.readText path = .ok listenerSource) (swift : path.isDump = false) :
    fs.declarationsAt () path =
      .ok ([⟨.protocol, some "RootInteractable", ["AListener"]⟩], ()) := by
  have outline : (Swift.declarations () listenerSource).1 =
      some [⟨.protocol, some "RootInteractable", ["AListener"]⟩] := by
    decide +kernel
  have parsed : Swift.declarations () listenerSource = (some _, ()) := Prod.ext outline rfl
  simp only [FileSystem.declarationsAt, read, swift, parsed, Bool.false_eq_true, ↓reduceIte]

theorem half_declarationsAt_swift :
    half.declarationsAt () (.ofString "A.swift") =
      .ok ([⟨.protocol, some "RootInteractable", ["AListener"]⟩], ()) :=
  declarationsAt_listenerSource
    (FileSystem.readText_of_namesOf "A.swift" (by decide +kernel) (by decide +kernel)
      (by decide +kernel) rfl rfl)
    (by decide +kernel)

theorem half_declarationsAt_dump :
    (half.declarationsAt () (.ofString "B.json")).toOption = none := by
  have read : half.readText (.ofString "B.json") = .ok "\x7b" :=
    FileSystem.readText_of_namesOf "B.json" (by decide +kernel) (by decide +kernel)
      (by decide +kernel) rfl rfl
  rw [FileSystem.declarationsAt, read]
  decide +kernel

theorem half_declarationsIn? :
    half.declarationsIn? [.ofString "A.swift"] =
        some [⟨.protocol, some "RootInteractable", ["AListener"]⟩] ∧
      half.declarationsIn? [.ofString "A.swift", .ofString "B.json"] = none := by
  have first : (half.declarationsAt () (.ofString "A.swift")).toOption = some _ :=
    congrArg Except.toOption half_declarationsAt_swift
  constructor
  · change half.declarationsFrom? () _ = _
    rw [FileSystem.declarationsFrom?, first]
    rfl
  · change half.declarationsFrom? () _ = _
    rw [FileSystem.declarationsFrom?, first]
    change (half.declarationsFrom? () [.ofString "B.json"]).bind _ = none
    rw [FileSystem.declarationsFrom?, half_declarationsAt_dump]
    rfl

/-- The broken dump undoes the load of both files but not the one before it, and neither does a sink
that is full after three bytes. -/
theorem half_edges_of_successes :
    let before := after ⟨{}, .empty⟩ half [.load [.ofString "A.swift"]]
    let loaded := before.perform half (.load [.ofString "A.swift", .ofString "B.json"])
    let written := before.perform half (.write "Root" (.ofRoom (some 3)))
    before.edges = .ofList [⟨"RootInteractable", "AListener", by decide⟩] ∧
      loaded.answer.failure?.isSome ∧ loaded.analysis = before ∧
      written.answer.failure?.isSome ∧ written.analysis = before := by
  intro before loaded written
  obtain ⟨first, both⟩ := half_declarationsIn?
  obtain ⟨-, fails, kept, -⟩ := edges_of_successes half {} [.load [.ofString "A.swift"]]
    (.load [.ofString "A.swift", .ofString "B.json"])
  have failed := (fails rfl).mpr both
  obtain ⟨-, -, kept', -⟩ := edges_of_successes half {} [.load [.ofString "A.swift"]]
    (.write "Root" (.ofRoom (some 3)))
  refine ⟨?_, failed, kept (.inl failed), ?_, kept' (.inr rfl)⟩
  · have edges := edges_after {} half [.load [.ofString "A.swift"]]
    rw [edges]
    simp only [List.flatMap_cons, List.flatMap_nil, Operation.declarations,
      Operation.declarations?, first]
    decide +kernel
  · decide +kernel

end Half

end Analysis

end RibMap
