import RibMap.CommandLine.Run
import RibMap.Proofs.Sources.Loading
import RibMap.Reference.CommandLine.Arguments
import RibMap.Reference.CommandLine.Log
import RibMap.Reference.CommandLine.Report

/-! # Runs that cannot acquire their sources

The sources of a run are collected and loaded before anything is made of them. If a path leads
nowhere, a directory cannot be listed, or a file cannot be read or parsed, the run ends there: it
has written no file and no line of a map or of a listing, however much had been loaded by then.
-/

namespace RibMap

namespace FileSystem

/-- The first path that fails decides. -/
theorem failure?_gather (fs : FileSystem) (skipDirs : List String) (paths : List Path) :
    (fs.gather skipDirs paths).failure? =
      paths.findSome? fun path => (fs.sourcesAt skipDirs path).failure? := by
  induction paths with
  | nil => rfl
  | cons path rest ih =>
    rw [gather, Finding.append, List.findSome?_cons, ← ih]
    cases here : (fs.sourcesAt skipDirs path).failure? with
    | none => rfl
    | some error => exact here

theorem collect_error_iff (fs : FileSystem) (skipDirs : List String) (paths : List Path)
    (error : SourceError) :
    (fs.collect skipDirs paths).2 = .error error ↔
      ∃ earlier path later, paths = earlier ++ path :: later ∧
        (fs.sourcesAt skipDirs path).failure? = some error ∧
        ∀ before ∈ earlier, (fs.sourcesAt skipDirs before).failure? = none := by
  rw [← List.findSome?_eq_some_iff, ← failure?_gather, collect]
  cases (fs.gather skipDirs paths).failure? <;> simp

/-- A parser loads files unless one of them fails, however many come before it. -/
theorem loadWith_error_iff [Json.Library] [Swift.Grammar] (fs : FileSystem)
    (parser : Swift.Grammar.Parser) (paths : List Path) (error : SourceError) :
    (fs.loadWith parser paths).2 = .error error ↔
      ∃ earlier path later parts between, paths = earlier ++ path :: later ∧
        fs.LoadsTo parser earlier parts between ∧
        fs.declarationsAt between path = .error error := by
  have stops {between : Swift.Grammar.Parser} {earlier : List Path} {path : Path}
      {parts : List (List Declaration)} {failure : SourceError}
      (loads : fs.LoadsTo parser earlier parts between)
      (failed : fs.declarationsAt between path = .error failure) (later : List Path) :
      (fs.loadWith parser (earlier ++ path :: later)).2 = .error failure := by
    rw [loadWith_append loads, loadWith, failed]
    rfl
  constructor
  · intro failed
    rcases loadsTo_or_first_failure fs parser paths with ⟨parts, behind, loads⟩ |
      ⟨earlier, path, later, parts, between, failure, rfl, loads, here⟩
    · have whole := loadWith_append loads []
      rw [List.append_nil] at whole
      rw [whole] at failed
      cases failed
    · obtain rfl := Except.error.inj ((stops loads here later).symm.trans failed)
      exact ⟨earlier, path, later, parts, between, rfl, loads, here⟩
  · rintro ⟨earlier, path, later, parts, between, rfl, loads, failed⟩
    exact stops loads failed later

theorem load_error_iff [Json.Library] [Swift.Grammar] (fs : FileSystem) (paths : List Path)
    (error : SourceError) :
    (fs.load paths).2 = .error error ↔
      (∃ cause, Swift.Grammar.load = .error cause ∧ error = .language cause) ∨
        ∃ parser earlier path later parts between, Swift.Grammar.load = .ok parser ∧
          paths = earlier ++ path :: later ∧ fs.LoadsTo parser earlier parts between ∧
          fs.declarationsAt between path = .error error := by
  cases new : (Swift.Grammar.load : Except String Swift.Grammar.Parser) with
  | error cause =>
    rw [load, new]
    simp [eq_comm]
  | ok parser =>
    rw [load_eq new, loadWith_error_iff]
    simp

section

variable {entries : List (String × Node)} {faults : Faults} {path : Path} (name : String)

/-- A file in the root directory, under a path that consists of its name, is a source. -/
theorem sourcesAt_of_namesOf {content : ByteArray} (taken : refusal? path.spelling = none)
    (names : namesOf path = [name])
    (plain : name ≠ "." ∧ name ≠ ".." ∧ ¬ nameLimit < name.utf8ByteSize)
    (found : nodeNamed? name entries = some (.file content)) (skipDirs : List String) :
    ({ root := .directory entries, working := [], faults } : FileSystem).sourcesAt skipDirs path =
      ⟨[path], [], none⟩ := by
  obtain ⟨proper, proper', short⟩ := plain
  have start : origin [] path.written = [] := ite_self _
  simp only [sourcesAt, look, taken, names, start, follow, entriesAt?, Node.at?, proper, proper',
    short, found, List.nil_append, Option.bind_some, ↓reduceIte]

/-- A path that consists of a name leads nowhere if nothing in the root directory has the name. -/
theorem sourcesAt_of_missing (taken : refusal? path.spelling = none)
    (names : namesOf path = [name])
    (plain : name ≠ "." ∧ name ≠ ".." ∧ ¬ nameLimit < name.utf8ByteSize)
    (missing : nodeNamed? name entries = none) (skipDirs : List String) :
    ({ root := .directory entries, working := [], faults } : FileSystem).sourcesAt skipDirs path =
      FileSystem.missing path := by
  obtain ⟨proper, proper', short⟩ := plain
  have start : origin [] path.written = [] := ite_self _
  simp only [sourcesAt, look, taken, names, start, follow, entriesAt?, Node.at?, proper, proper',
    short, missing, ↓reduceIte]

end

end FileSystem

/-- An analysis does not load what cannot be read. -/
theorem Analysis.load_of_error [Json.Library] [Swift.Grammar] {fs : FileSystem}
    {paths : List Path} {error : SourceError}
    (failed : (fs.load paths).2 = .error error) (analysis : Analysis) :
    analysis.load fs paths = ((fs.load paths).1, .error (.sources error)) := by
  rw [load]
  rcases loaded : fs.load paths with ⟨events, result⟩
  rw [loaded] at failed
  cases failed
  rfl

namespace CommandLine

/-- The line that says that there are no sources to work on. -/
def failureLine : String := "Cannot create structure. Check the target path.\n"

/-- The lines that announce a mindmap: the number of files and the root, between empty lines. -/
def preamble (environment : Environment) (files : Nat) (root : String) : String :=
  "\n" ++ Style.bold.paint environment.colours s!"Analyze {files} swift files." ++ "\n\n" ++
    Style.underline.paint environment.colours s!"Make RIBs tree under {root} RIB." ++ "\n\n"

/-- A run has failed and left behind nothing but a text in its output. -/
structure Outcome.FailsWith (outcome : Outcome) (files : FileSystem) (output : String) : Prop where
  code : outcome.code = 1
  files : outcome.files = files
  output : outcome.output = output

namespace Session

/-- The session of a run that is about to acquire its sources. -/
def opening (environment : Environment) (files : FileSystem) : Session :=
  ⟨environment, files, "", environment.settings.2⟩

variable [Json.Library] [Swift.Grammar] [Logger] [Reporter]
variable (session : Session) (analysis : Analysis)
variable {paths sources : List Path} {error : SourceError}

/-- A mindmap is not even announced if its sources cannot be collected. -/
theorem mindmap_of_uncollected
    (failed : (session.files.collect analysis.settings.skipDirs paths).2 = .error error)
    (root : String) (output : Option Path) :
    (session.mindmap analysis paths root output).FailsWith session.files
      (session.output ++ failureLine) := by
  rw [mindmap, Analysis.collect]
  simp only [failed]
  exact ⟨rfl, rfl, rfl⟩

/-- A mindmap is announced and not made if its sources cannot be loaded. -/
theorem mindmap_of_unloaded
    (collected : (session.files.collect analysis.settings.skipDirs paths).2 = .ok sources)
    (failed : (session.files.load sources).2 = .error error) (root : String)
    (output : Option Path) :
    (session.mindmap analysis paths root output).FailsWith session.files
      (session.output ++ (preamble session.environment sources.length root ++ failureLine)) := by
  rw [mindmap, Analysis.collect]
  simp only [collected, Except.mapError, announce, report, say, Analysis.load_of_error failed]
  refine ⟨rfl, rfl, ?_⟩
  simp [failSources, fail, say, preamble, failureLine, styled, String.append_assoc]

theorem edges_of_uncollected
    (failed : (session.files.collect analysis.settings.skipDirs paths).2 = .error error)
    (json : Bool) :
    (session.edges analysis paths json).FailsWith session.files
      (session.output ++ failureLine) := by
  rw [edges, Analysis.collect]
  simp only [failed]
  exact ⟨rfl, rfl, rfl⟩

theorem edges_of_unloaded
    (collected : (session.files.collect analysis.settings.skipDirs paths).2 = .ok sources)
    (failed : (session.files.load sources).2 = .error error) (json : Bool) :
    (session.edges analysis paths json).FailsWith session.files
      (session.output ++ failureLine) := by
  rw [edges, Analysis.collect]
  simp only [collected, Except.mapError, report, Analysis.load_of_error failed]
  exact ⟨rfl, rfl, rfl⟩

end Session

/-- The analysis of a run, which has no edges yet. -/
def Environment.analysis (environment : Environment) (overrides : Overrides) : Analysis :=
  ⟨environment.settings.1.override overrides, .empty⟩

section

variable [Json.Library] [Swift.Grammar] [ArgumentParser] [Logger] [Reporter]
variable {arguments : List String} {paths : List Path} {overrides : Overrides}
variable (environment : Environment) (files : FileSystem)

theorem run_of_mindmap {root : String} {output : Option Path}
    (asked : ArgumentParser.read arguments = .request (.mindmap paths root overrides output)) :
    run arguments environment files =
      (Session.opening environment files).mindmap (environment.analysis overrides) paths root
        output := by
  rw [run, asked]
  rfl

theorem run_of_edges {json : Bool}
    (asked : ArgumentParser.read arguments = .request (.edges paths overrides json)) :
    run arguments environment files =
      (Session.opening environment files).edges (environment.analysis overrides) paths json := by
  rw [run, asked]
  rfl

/-- A run whose sources cannot be acquired fails with nothing but a line in its output. All files
are as they were, the one for the output included. The line follows the announcement of a mindmap
exactly if the sources had been collected and could not be loaded. Collecting fails as the first of
the paths does that fails; loading fails if there is no parser, and else as the first of the files
does that fails, whatever was loaded before it. -/
theorem run_failsWith (arguments : List String) (environment : Environment) (files : FileSystem) :
    (∀ paths root overrides output,
      ArgumentParser.read arguments = .request (.mindmap paths root overrides output) →
        let skipDirs := (environment.settings.1.override overrides).skipDirs
        (∀ error, (files.collect skipDirs paths).2 = .error error →
          (run arguments environment files).FailsWith files failureLine) ∧
        ∀ sources error, (files.collect skipDirs paths).2 = .ok sources →
          (files.load sources).2 = .error error →
          (run arguments environment files).FailsWith files
            (preamble environment sources.length root ++ failureLine)) ∧
      (∀ paths overrides json,
        ArgumentParser.read arguments = .request (.edges paths overrides json) →
          let skipDirs := (environment.settings.1.override overrides).skipDirs
          (∀ error, (files.collect skipDirs paths).2 = .error error →
            (run arguments environment files).FailsWith files failureLine) ∧
          ∀ sources error, (files.collect skipDirs paths).2 = .ok sources →
            (files.load sources).2 = .error error →
            (run arguments environment files).FailsWith files failureLine) ∧
      (∀ skipDirs paths error, (files.collect skipDirs paths).2 = .error error ↔
        ∃ earlier path later, paths = earlier ++ path :: later ∧
          (files.sourcesAt skipDirs path).failure? = some error ∧
          ∀ before ∈ earlier, (files.sourcesAt skipDirs before).failure? = none) ∧
      ∀ sources error, (files.load sources).2 = .error error ↔
        (∃ cause, Swift.Grammar.load = .error cause ∧ error = .language cause) ∨
          ∃ parser earlier source later parts between, Swift.Grammar.load = .ok parser ∧
            sources = earlier ++ source :: later ∧ files.LoadsTo parser earlier parts between ∧
            files.declarationsAt between source = .error error := by
  refine ⟨fun paths root overrides output asked => ?_, fun paths overrides json asked => ?_,
    files.collect_error_iff, files.load_error_iff⟩
  · rw [run_of_mindmap environment files asked]
    constructor
    · intro error failed
      have fails := Session.mindmap_of_uncollected (.opening environment files)
        (environment.analysis overrides) failed root output
      rwa [Session.opening, String.empty_append] at fails
    · intro sources error collected failed
      have fails := Session.mindmap_of_unloaded (.opening environment files)
        (environment.analysis overrides) collected failed root output
      rwa [Session.opening, String.empty_append] at fails
  · rw [run_of_edges environment files asked]
    constructor
    · intro error failed
      have fails := Session.edges_of_uncollected (.opening environment files)
        (environment.analysis overrides) failed json
      rwa [Session.opening, String.empty_append] at fails
    · intro sources error collected failed
      have fails := Session.edges_of_unloaded (.opening environment files)
        (environment.analysis overrides) collected failed json
      rwa [Session.opening, String.empty_append] at fails

end

section BrokenDump

open scoped Reference

/-- A dump that breaks off, in a directory whose listing breaks off in front of it. -/
def brokenDump : FileSystem where
  root := .directory [("B.json", .file "\x7b".toUTF8)]
  working := []
  faults := { listing := fun _ => some (0, .other "Input/output error (os error 5)") }

theorem brokenDump_sourcesAt_file (skipDirs : List String) :
    brokenDump.sourcesAt skipDirs (.ofString "B.json") = ⟨[.ofString "B.json"], [], none⟩ :=
  FileSystem.sourcesAt_of_namesOf "B.json" (by decide +kernel) (by decide +kernel)
    (by decide +kernel) rfl skipDirs

theorem brokenDump_failure? (skipDirs : List String) :
    (brokenDump.sourcesAt skipDirs (.ofString ".")).failure? =
      some (.io "." (.other "Input/output error (os error 5)")) := by
  have unnamed : (Path.ofString ".").fileName? = none := by decide +kernel
  have taken : FileSystem.refusal? (Path.ofString ".").spelling = none := by decide +kernel
  have names : FileSystem.namesOf (.ofString ".") = ["."] := by decide +kernel
  have start : FileSystem.origin [] (Path.ofString ".").written = [] := ite_self _
  simp only [brokenDump, FileSystem.sourcesAt, FileSystem.look, taken, names, start,
    FileSystem.follow, FileSystem.entriesAt?, Node.at?, FileSystem.below, unnamed,
    FileSystem.listing, List.take_zero, FileSystem.belowEntries]
  rfl

theorem brokenDump_collect_file (skipDirs : List String) :
    (brokenDump.collect skipDirs [.ofString "B.json"]).2 = .ok [.ofString "B.json"] := by
  have single : Path.sortUnique [.ofString "B.json"] = [.ofString "B.json"] := by decide +kernel
  simp only [FileSystem.collect, FileSystem.gather, brokenDump_sourcesAt_file, Finding.append,
    Finding.empty, List.append_nil, single]

theorem brokenDump_load_file :
    ∃ error, (brokenDump.load [.ofString "B.json"]).2 = .error error := by
  have read : brokenDump.readText (.ofString "B.json") = .ok "\x7b" :=
    FileSystem.readText_of_namesOf "B.json" (by decide +kernel) (by decide +kernel)
      (by decide +kernel) rfl rfl
  have broken : (brokenDump.declarationsAt () (.ofString "B.json")).toOption = none := by
    rw [FileSystem.declarationsAt, read]
    decide +kernel
  -- Which error it is does not matter, so none is computed.
  cases failed : brokenDump.declarationsAt () (.ofString "B.json") with
  | ok declarations =>
    rw [failed] at broken
    cases broken
  | error error =>
    rw [FileSystem.load_singleton rfl, failed]
    exact ⟨error, rfl⟩

/-- A mindmap of a broken dump is announced but not made; with a path that leads nowhere, or with a
directory that cannot be listed, edges are not listed at all. -/
theorem run_failsWith_brokenDump :
    (run ["mindmap", "-r", "Root", "B.json", "-o", "B.json"] {} brokenDump).FailsWith brokenDump
        ("\nAnalyze 1 swift files.\n\nMake RIBs tree under Root RIB.\n\n" ++
          "Cannot create structure. Check the target path.\n") ∧
      (run ["edges", "B.json", "C.json"] {} brokenDump).FailsWith brokenDump
        "Cannot create structure. Check the target path.\n" ∧
      (run ["edges", "."] {} brokenDump).FailsWith brokenDump
        "Cannot create structure. Check the target path.\n" := by
  have asked : ArgumentParser.read ["mindmap", "-r", "Root", "B.json", "-o", "B.json"] =
      .request (.mindmap [.ofString "B.json"] "Root" {} (some (.ofString "B.json"))) := by
    rfl
  have asked' : ArgumentParser.read ["edges", "B.json", "C.json"] =
      .request (.edges [.ofString "B.json", .ofString "C.json"] {} false) := by
    rfl
  have asked'' :
      ArgumentParser.read ["edges", "."] = .request (.edges [.ofString "."] {} false) := by
    rfl
  have missing (skipDirs : List String) : brokenDump.sourcesAt skipDirs (.ofString "C.json") =
      FileSystem.missing (.ofString "C.json") :=
    FileSystem.sourcesAt_of_missing "C.json" (by decide +kernel) (by decide +kernel)
      (by decide +kernel) rfl skipDirs
  obtain ⟨mindmap, -, -, -⟩ :=
    run_failsWith ["mindmap", "-r", "Root", "B.json", "-o", "B.json"] {} brokenDump
  obtain ⟨-, edges, collects, -⟩ := run_failsWith ["edges", "B.json", "C.json"] {} brokenDump
  obtain ⟨-, edges', collects', -⟩ := run_failsWith ["edges", "."] {} brokenDump
  refine ⟨?_, ?_, ?_⟩
  · obtain ⟨error, unloaded⟩ := brokenDump_load_file
    exact (mindmap _ _ _ _ asked).2 _ error (brokenDump_collect_file _) unloaded
  · have uncollected (skipDirs : List String) := (collects skipDirs _ _).mpr
      ⟨[.ofString "B.json"], .ofString "C.json", [], rfl,
        congrArg Finding.failure? (missing skipDirs),
        List.forall_mem_singleton.mpr (congrArg Finding.failure? (brokenDump_sourcesAt_file _))⟩
    exact (edges _ _ _ asked').1 _ (uncollected _)
  · have uncollected (skipDirs : List String) := (collects' skipDirs _ _).mpr
      ⟨[], .ofString ".", [], rfl, brokenDump_failure? skipDirs, List.forall_mem_nil _⟩
    exact (edges' _ _ _ asked'').1 _ (uncollected _)

end BrokenDump

end CommandLine

end RibMap
