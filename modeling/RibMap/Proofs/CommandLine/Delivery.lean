import RibMap.Proofs.CommandLine.Failure
import RibMap.Proofs.FileSystem.Writing
import RibMap.Proofs.Mindmap.Writing

/-! # Runs that deliver a mindmap

A run that makes a mindmap acquires its sources, announces the mindmap, delivers it to the output or
to a file, and ends. The document is the one that the edges of the sources have under the settings
of the run. Where it is delivered to does not matter to it, nor does whether the output has colours:
these set off three of the texts around it and nothing else.
-/

namespace RibMap

/-- A path that stands for itself only is all that is collected from it. -/
theorem FileSystem.collect_of_sourcesAt {fs : FileSystem} {skipDirs : List String} {path : Path}
    (itself : fs.sourcesAt skipDirs path = ⟨[path], [], none⟩) :
    (fs.collect skipDirs [path]).2 = .ok [path] := by
  simp [collect, gather, itself, Finding.append, Finding.empty, Path.sortUnique, Path.dropRepeats]

section

variable [Json.Library] [Swift.Grammar]

/-- What was acquired from paths under some settings: the sources and their declarations. -/
structure Acquired (files : FileSystem) (settings : Settings) (paths : List Path) where
  sources : List Path
  declarations : List Declaration
  collected : (files.collect settings.skipDirs paths).2 = .ok sources
  loaded : (files.load sources).2 = .ok declarations

namespace Acquired

variable {files : FileSystem} {settings : Settings} {paths : List Path}

/-- There is at most one thing to acquire. -/
instance : Subsingleton (Acquired files settings paths) where
  allEq := by
    rintro ⟨sources, declarations, collected, loaded⟩ ⟨sources', declarations', collected', loaded'⟩
    obtain rfl := Except.ok.inj (collected.symm.trans collected')
    obtain rfl := Except.ok.inj (loaded.symm.trans loaded')
    rfl

/-- Sources are acquired, or they cannot be collected, or not all of them can be loaded. -/
theorem cases (files : FileSystem) (settings : Settings) (paths : List Path) :
    Nonempty (Acquired files settings paths) ∨
      (∃ error, (files.collect settings.skipDirs paths).2 = .error error) ∨
      ∃ sources error, (files.collect settings.skipDirs paths).2 = .ok sources ∧
        (files.load sources).2 = .error error := by
  cases collected : (files.collect settings.skipDirs paths).2 with
  | error error => exact .inr (.inl ⟨error, rfl⟩)
  | ok sources =>
    cases loaded : (files.load sources).2 with
    | error error => exact .inr (.inr ⟨sources, error, rfl, loaded⟩)
    | ok declarations => exact .inl ⟨⟨sources, declarations, collected, loaded⟩⟩

variable (acquired : Acquired files settings paths)

/-- The edges between what was acquired. -/
def edges : EdgeSet := .ofDeclarations acquired.declarations

/-- The mindmap of what was acquired. -/
def mindmap (root : String) : Mindmap := ⟨acquired.edges, root, settings.maxDepth⟩

/-- What was reported before the mindmap is made. -/
def events : List Event :=
  (files.collect settings.skipDirs paths).1 ++ (files.load acquired.sources).1 ++
    [.ofExtraction acquired.declarations, .gathered acquired.edges.size acquired.sources.length]

end Acquired

/-- An analysis without edges has those of the declarations that it loads. -/
theorem Analysis.load_of_ok {fs : FileSystem} {paths : List Path} {declarations : List Declaration}
    (loaded : (fs.load paths).2 = .ok declarations) (settings : Settings) :
    (⟨settings, .empty⟩ : Analysis).load fs paths =
      ((fs.load paths).1 ++ [.ofExtraction declarations],
        .ok ⟨settings, .ofDeclarations declarations⟩) := by
  rw [load]
  rcases read : fs.load paths with ⟨events, result⟩
  rw [read] at loaded
  cases loaded
  simp only [addDeclarations, EdgeSet.empty_union]

/-- An analysis that acquires the sources itself makes the same mindmap of them. -/
theorem Acquired.perform_acquire {files : FileSystem} {settings : Settings} {paths : List Path}
    (acquired : Acquired files settings paths) :
    ((⟨settings, .empty⟩ : Analysis).perform files (.acquire paths)).analysis =
      ⟨settings, acquired.edges⟩ := by
  rw [Analysis.perform, Analysis.collect]
  simp only [acquired.collected, Except.mapError, Analysis.loading,
    Analysis.load_of_ok acquired.loaded]
  rfl

end

namespace CommandLine

/-- The texts of a run where there are no colours. -/
def plain (_ : Style) (text : String) : String := text

/-- The texts of a run that are set off on a terminal: bold, underlined, and green. -/
def coloured : Style → String → String
  | .bold, text => "\x1b[1m" ++ text ++ "\x1b[0m"
  | .underline, text => "\x1b[4m" ++ text ++ "\x1b[0m"
  | .success, text => "\x1b[32m\x1b[1m" ++ text ++ "\x1b[0m"

/-- The output of a run that makes a mindmap: the announcement, what is delivered, and the end. -/
def transcript (paint : Style → String → String) (sources : Nat) (root delivered : String) :
    String :=
  "\n" ++ paint .bold s!"Analyze {sources} swift files." ++ "\n\n" ++
    paint .underline s!"Make RIBs tree under {root} RIB." ++ "\n\n" ++ delivered ++ "\n" ++
    paint .success "Successfully completed." ++ "\n"

/-- What the output has where the mindmap is delivered. -/
def delivered (document : String) : Option Path → String
  | none => document
  | some path => s!"Saved to: {path.spelling}\n"

/-- Files after a document was stored, if it was to be stored in one. -/
def Stores (files : FileSystem) (document : String) (after : FileSystem) : Option Path → Prop
  | none => after = files
  | some path => files.write path document.toUTF8 = .ok after

theorem paint_eq (style : Style) (colours : Bool) (text : String) :
    style.paint colours text = (if colours then coloured else plain) style text := by
  cases colours with
  | false => rfl
  | true =>
    have sequences :
        Style.sequence 1 = "\x1b[1m" ∧ Style.sequence 4 = "\x1b[4m" ∧
          Style.sequence 32 = "\x1b[32m" ∧ Style.sequence 0 = "\x1b[0m" := by decide +kernel
    obtain ⟨bold, underline, green, reset⟩ := sequences
    cases style <;>
      simp [Style.paint, Style.renditions, coloured, String.join, bold, underline, green, reset]

namespace Session

variable [Logger] [Reporter]
variable (session : Session) {document : Mindmap} {output : Option Path} {after : FileSystem}

/-- A mindmap that is stored where it is to be stored ends a run successfully. -/
theorem deliver_of_stores (stores : Stores session.files document.text after output) :
    session.deliver document output =
      ⟨0, session.output ++ delivered document.text output ++ "\n" ++
          Style.success.paint session.environment.colours "Successfully completed." ++ "\n",
        logOf session.environment.log (session.events ++ document.events),
        after⟩ := by
  cases output with
  | none =>
    obtain rfl := stores
    simp [deliver, finish, succeed, report, say, styled, log, delivered, String.append_assoc]
  | some path =>
    rw [deliver, show session.files.write path document.text.toUTF8 = .ok after from stores]
    simp [finish, succeed, report, say, styled, log, delivered, String.append_assoc]

theorem deliver_code_eq_zero_iff :
    (session.deliver document output).code = 0 ↔
      ∃ after, Stores session.files document.text after output := by
  constructor
  · intro succeeded
    cases output with
    | none => exact ⟨session.files, rfl⟩
    | some path =>
      cases written : session.files.write path document.text.toUTF8 with
      | ok after => exact ⟨after, written⟩
      | error error =>
        rw [deliver, written] at succeeded
        cases succeeded
  · rintro ⟨after, stores⟩
    rw [session.deliver_of_stores stores]

variable [Json.Library] [Swift.Grammar]
variable {settings : Settings} {paths : List Path} {root : String}

/-- A mindmap is not made unless its sources are acquired. -/
theorem acquired_of_mindmap
    (succeeded : (session.mindmap ⟨settings, .empty⟩ paths root output).code = 0) :
    Nonempty (Acquired session.files settings paths) := by
  obtain acquired | ⟨error, failed⟩ | ⟨sources, error, collected, failed⟩ :=
    Acquired.cases session.files settings paths
  · exact acquired
  · have failed := session.mindmap_of_uncollected ⟨settings, .empty⟩ failed root output
    exact absurd (succeeded.symm.trans failed.code) Nat.zero_ne_one
  · have failed := session.mindmap_of_unloaded ⟨settings, .empty⟩ collected failed root output
    exact absurd (succeeded.symm.trans failed.code) Nat.zero_ne_one

/-- A mindmap is announced and delivered if its sources can be acquired. -/
theorem mindmap_of_acquired (acquired : Acquired session.files settings paths) (root : String)
    (output : Option Path) :
    session.mindmap ⟨settings, .empty⟩ paths root output =
      Session.deliver
        { session with
          output := session.output ++ preamble session.environment acquired.sources.length root
          events := session.events ++ acquired.events }
        (acquired.mindmap root) output := by
  rw [mindmap, Analysis.collect]
  simp only [acquired.collected, Except.mapError, announce, report, say,
    Analysis.load_of_ok acquired.loaded, Analysis.mindmap]
  simp [preamble, styled, Acquired.events, Acquired.edges, Acquired.mindmap, String.append_assoc]

end Session

section

variable [Json.Library] [Swift.Grammar] [ArgumentParser] [Logger] [Reporter]
variable {arguments : List String} {paths : List Path} {root : String} {overrides : Overrides}
variable {output : Option Path} {environment : Environment} {files after : FileSystem}

/-- Everything that a run leaves behind which acquires its sources and stores its mindmap. -/
theorem run_of_stores (environment : Environment)
    (asked : ArgumentParser.read arguments = .request (.mindmap paths root overrides output))
    (acquired : Acquired files (environment.settings.1.override overrides) paths)
    (stores : Stores files (acquired.mindmap root).text after output) :
    run arguments environment files =
      ⟨0, transcript (if environment.colours then coloured else plain) acquired.sources.length root
          (delivered (acquired.mindmap root).text output),
        logOf environment.log
          (environment.settings.2 ++ acquired.events ++ (acquired.mindmap root).events),
        after⟩ := by
  rw [run_of_mindmap environment files asked, Environment.analysis, Session.mindmap_of_acquired,
    Session.deliver_of_stores _ stores]
  simp only [Session.opening, preamble, transcript, paint_eq, String.empty_append,
    String.append_assoc]

/-- A mindmap is made exactly if its sources can be acquired and it can be stored. -/
theorem run_code_eq_zero_iff (environment : Environment)
    (asked : ArgumentParser.read arguments = .request (.mindmap paths root overrides output)) :
    (run arguments environment files).code = 0 ↔
      ∃ (acquired : Acquired files (environment.settings.1.override overrides) paths)
        (after : FileSystem), Stores files (acquired.mindmap root).text after output := by
  constructor
  · intro succeeded
    rw [run_of_mindmap environment files asked] at succeeded
    obtain ⟨acquired⟩ := Session.acquired_of_mindmap _ succeeded
    rw [Environment.analysis, Session.mindmap_of_acquired _ acquired,
      Session.deliver_code_eq_zero_iff] at succeeded
    exact ⟨acquired, succeeded⟩
  · rintro ⟨acquired, after, stores⟩
    rw [run_of_stores environment asked acquired stores]

/-- Whatever a run that succeeds delivers is one document: the mindmap that the edges of the sources
have under the settings of the run, which an analysis makes of the same paths as well. Without a
path for it the output has it, between the announcement and the end, and no file changes. With a
path the output has this path instead, the file to which the path leads from then on consists of the
document, which is read from it unless reading at this place is refused, and nothing changes
anywhere else. Whether the output has colours shows in three texts of the output only. -/
theorem run_delivers
    (asked : ArgumentParser.read arguments = .request (.mindmap paths root overrides output))
    (succeeded : (run arguments environment files).code = 0) :
    let settings := environment.settings.1.override overrides
    ∃ (acquired : Acquired files settings paths) (after : FileSystem),
      let mindmap : Mindmap := ⟨.ofDeclarations acquired.declarations, root, settings.maxDepth⟩
      let library := ((⟨settings, .empty⟩ : Analysis).perform files (.acquire paths)).analysis
      (library.perform files (.text root)).answer = .text mindmap.text ∧
      (library.perform files (.write root (.ofRoom none))).answer =
        .written ⟨none, utf8 mindmap.text⟩ none ∧
      (∀ terminal noColor,
        run arguments { environment with terminal := terminal, noColor := noColor } files =
          ⟨0, transcript (if terminal && !noColor then coloured else plain)
              acquired.sources.length root (delivered mindmap.text output),
            logOf environment.log
              (environment.settings.2 ++ acquired.events ++ mindmap.events),
            after⟩) ∧
      (output = none → after = files) ∧
      ∀ path, output = some path →
        after.working = files.working ∧ after.faults = files.faults ∧
          ∃ place left, after.look path = .ok (place, left) ∧
            after.faceAt? place = some (.file mindmap.text.toUTF8) ∧
            (files.faults.reading place = none → after.readText path = .ok mindmap.text) ∧
            ∀ there ≠ place, after.faceAt? there = files.faceAt? there := by
  intro settings
  obtain ⟨acquired, after, stores⟩ := (run_code_eq_zero_iff environment asked).mp succeeded
  refine ⟨acquired, after, ?_⟩
  intro mindmap library
  have loaded : library = ⟨settings, acquired.edges⟩ := acquired.perform_acquire
  have written := (Mindmap.perform_write library files root (.ofRoom none)).2
  rw [loaded] at written ⊢
  refine ⟨rfl, ?_, fun terminal noColor => ?_, ?_, ?_⟩
  · rw [written, Mindmap.write_unbounded]
    rfl
  · exact run_of_stores { environment with terminal := terminal, noColor := noColor } asked
      acquired stores
  · rintro rfl
    exact stores
  · rintro path rfl
    exact FileSystem.readText_of_write stores

end

section Pair

open scoped Reference

/-- A Swift file, and a file that is overwritten. -/
def pair : FileSystem where
  root := .directory [("A.swift", .file Analysis.listenerSource.toUTF8),
    ("Out.puml", .file "@startmindmap".toUTF8)]
  working := []

/-- What is acquired from the Swift file. -/
def pairAcquired : Acquired pair {} [.ofString "A.swift"] where
  sources := [.ofString "A.swift"]
  declarations := [⟨.protocol, some "RootInteractable", ["AListener"]⟩]
  collected := FileSystem.collect_of_sourcesAt <|
    FileSystem.sourcesAt_of_namesOf "A.swift" (by decide +kernel) (by decide +kernel)
      (by decide +kernel) rfl _
  loaded := by
    have read : pair.readText (.ofString "A.swift") = .ok Analysis.listenerSource :=
      FileSystem.readText_of_namesOf "A.swift" (by decide +kernel) (by decide +kernel)
        (by decide +kernel) rfl rfl
    rw [FileSystem.load_singleton rfl,
      Analysis.declarationsAt_listenerSource read (by decide +kernel)]
    rfl

/-- The same mindmap on a terminal with colours and in the file that there was. -/
theorem run_delivers_pair :
    let document := Mindmap.unlines (Mindmap.headerLines ++
      ["* Root<<Viewless>>", "** A<<Viewless>>"] ++ Mindmap.footerLines)
    let shown := run ["mindmap", "-r", "Root", "A.swift"] { terminal := true } pair
    let stored := run ["mindmap", "-r", "Root", "A.swift", "-o", "Out.puml"] {} pair
    shown.output = "\n\x1b[1mAnalyze 1 swift files.\x1b[0m\n\n" ++
        "\x1b[4mMake RIBs tree under Root RIB.\x1b[0m\n\n" ++ document ++
        "\n\x1b[32m\x1b[1mSuccessfully completed.\x1b[0m\n" ∧
      stored.output = "\nAnalyze 1 swift files.\n\nMake RIBs tree under Root RIB.\n\n" ++
        "Saved to: Out.puml\n\nSuccessfully completed.\n" ∧
      stored.files.readText (.ofString "Out.puml") = .ok document := by
  intro document shown stored
  have text : (pairAcquired.mindmap "Root").text = document := by decide +kernel
  have asked : ArgumentParser.read ["mindmap", "-r", "Root", "A.swift"] =
      .request (.mindmap [.ofString "A.swift"] "Root" {} none) := by rfl
  have asked' : ArgumentParser.read ["mindmap", "-r", "Root", "A.swift", "-o", "Out.puml"] =
      .request (.mindmap [.ofString "A.swift"] "Root" {} (some (.ofString "Out.puml"))) := by
    rfl
  have written (content : ByteArray) : pair.write (.ofString "Out.puml") content =
      .ok (pair.put ["Out.puml"] (.file content)) :=
    FileSystem.write_of_namesOf "Out.puml" (by decide +kernel) (by decide +kernel)
      (by decide +kernel) ⟨by decide +kernel, by decide +kernel, by decide +kernel⟩ rfl content
  constructor
  · obtain ⟨acquired, after, -, -, runs, -⟩ := run_delivers asked
      ((run_code_eq_zero_iff { terminal := true } asked).mpr ⟨pairAcquired, pair, rfl⟩)
    obtain rfl := Subsingleton.elim pairAcquired acquired
    have output : shown.output =
        transcript coloured 1 "Root" (delivered (pairAcquired.mindmap "Root").text none) :=
      congrArg Outcome.output (runs true false)
    rw [output, text]
    decide +kernel
  · obtain ⟨acquired, after, -, -, runs, -, delivers⟩ := run_delivers asked'
      ((run_code_eq_zero_iff {} asked').mpr ⟨pairAcquired, _, written _⟩)
    obtain rfl := Subsingleton.elim pairAcquired acquired
    have output : stored.output = transcript plain 1 "Root"
        (delivered (pairAcquired.mindmap "Root").text (some (.ofString "Out.puml"))) :=
      congrArg Outcome.output (runs false false)
    constructor
    · rw [output, text]
      decide +kernel
    · rw [← text, show stored.files = after from congrArg Outcome.files (runs false false)]
      obtain ⟨-, -, place, left, -, -, readable, -⟩ := delivers _ rfl
      exact readable rfl

end Pair

end CommandLine

end RibMap
