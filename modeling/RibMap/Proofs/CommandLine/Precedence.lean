import RibMap.Proofs.CommandLine.Lines
import RibMap.Proofs.CommandLine.Listing
import RibMap.Proofs.Reference.CommandLine.Arguments
import RibMap.Proofs.Settings
import RibMap.Proofs.Sources.Exactness
import RibMap.Proofs.Sources.Skipping

/-! # Flags and variables

The depth limit and the names of directories to leave out can be given by flags and by variables. A
flag that is given hides its variable, and a value means the same in either place: the two readings
of a depth agree, and those of a list of names agree but for empty names, which leave nothing out.
Two runs are compared by what they leave behind besides their diagnostics.
-/

namespace RibMap

namespace Settings

theorem maxDepth_override_congr {settings settings' : Settings} {overrides : Overrides}
    (same : overrides.maxDepth.isSome = true ∨ settings.maxDepth = settings'.maxDepth) :
    (settings.override overrides).maxDepth = (settings'.override overrides).maxDepth := by
  rw [override, override]
  cases given : overrides.maxDepth with
  | none => exact same.resolve_left (by simp [given])
  | some depth => rfl

theorem skipDirs_override_congr {settings settings' : Settings} {overrides : Overrides}
    (same : overrides.skipDirs.isSome = true ∨ settings.skipDirs = settings'.skipDirs) :
    (settings.override overrides).skipDirs = (settings'.override overrides).skipDirs := by
  rw [override, override]
  cases given : overrides.skipDirs with
  | none => exact same.resolve_left (by simp [given])
  | some names => rfl

theorem depthOf_some {text : String} {depth : Nat} (read : wordOf? text.toList = some depth) :
    (depthOf (some text)).1 = depthLimit depth := by
  simp only [depthOf, read]

/-- The two readings of a list of names differ in nothing but empty names. -/
theorem sameSkips_namesOf {list : String}
    (unpadded : ∀ piece ∈ splitAt ',' list.toList, Unpadded piece) :
    FileSystem.SameSkips (namesOf list) (CommandLine.Flag.skipDirs.parts list) := by
  have trimmed : (splitAt ',' list.toList).map trim = splitAt ',' list.toList :=
    List.map_congr_left (fun piece mem => (unpadded piece mem).trim_eq) |>.trans (List.map_id _)
  intro name proper
  change _ ↔ name ∈ (splitAt ',' list.toList).map String.ofList
  rw [namesOf, trimmed, List.mem_map, List.mem_map]
  constructor
  · rintro ⟨piece, mem, rfl⟩
    exact ⟨piece, (List.mem_filter.mp mem).1, rfl⟩
  · rintro ⟨piece, mem, rfl⟩
    refine ⟨piece, List.mem_filter.mpr ⟨mem, ?_⟩, rfl⟩
    cases piece with
    | nil => exact absurd rfl proper
    | cons c rest => rfl

end Settings

namespace CommandLine

/-- Two runs leave the same behind, up to what they report. -/
structure Outcome.Agrees (first second : Outcome) : Prop where
  code : first.code = second.code
  output : first.output = second.output
  files : first.files = second.files

theorem Outcome.FailsWith.agrees {first second : Outcome} {files : FileSystem} {output : String}
    (fails : first.FailsWith files output) (fails' : second.FailsWith files output) :
    first.Agrees second where
  code := fails.code.trans fails'.code.symm
  output := fails.output.trans fails'.output.symm
  files := fails.files.trans fails'.files.symm

section

variable [Json.Library] [Swift.Grammar] [Logger] [Reporter]

omit [Json.Library] [Swift.Grammar] in
/-- Delivery depends on nothing but the files, the output so far and the colours. -/
theorem Session.deliver_agrees {session session' : Session} (files : session.files = session'.files)
    (output : session.output = session'.output)
    (colours : session.environment.colours = session'.environment.colours) (document : Mindmap)
    (target : Option Path) :
    (session.deliver document target).Agrees (session'.deliver document target) := by
  cases target with
  | none =>
    refine ⟨rfl, ?_, files⟩
    simp [deliver, finish, succeed, report, say, styled, output, colours]
  | some path =>
    rw [deliver, deliver, ← files]
    cases session.files.write path document.text.toUTF8 with
    | error error => exact ⟨rfl, output, files⟩
    | ok after =>
      refine ⟨rfl, ?_, rfl⟩
      simp [finish, succeed, report, say, styled, output, colours]

/-- Nothing is printed if the listing cannot be made. -/
theorem Session.edges_of_unlisted (session : Session) {settings : Settings} {paths : List Path}
    {json : Bool} (acquired : Acquired session.files settings paths) {cause : String}
    (unlisted : listing acquired.edges json = .error cause) :
    (session.edges ⟨settings, .empty⟩ paths json).FailsWith session.files session.output := by
  rw [Acquired.edges] at unlisted
  rw [edges, Analysis.collect]
  simp only [acquired.collected, Except.mapError, report, Analysis.load_of_ok acquired.loaded,
    unlisted]
  exact ⟨rfl, rfl, rfl⟩

variable {environment environment' : Environment} {files : FileSystem}

section

variable {settings settings' : Settings} {paths : List Path}
  (collected : (files.collect settings.skipDirs paths).2 =
    (files.collect settings'.skipDirs paths).2)
include collected

theorem Session.edges_agrees (json : Bool) :
    ((opening environment files).edges ⟨settings, .empty⟩ paths json).Agrees
      ((opening environment' files).edges ⟨settings', .empty⟩ paths json) := by
  obtain ⟨⟨acquired⟩⟩ | ⟨error, failed⟩ | ⟨sources, error, found, failed⟩ :=
    Acquired.cases files settings paths
  · let acquired' : Acquired files settings' paths :=
      { acquired with collected := collected.symm.trans acquired.collected }
    have same : acquired'.edges = acquired.edges := rfl
    cases listed : listing acquired.edges json with
    | error cause =>
      exact (edges_of_unlisted _ acquired listed).agrees
        (edges_of_unlisted _ acquired' (same ▸ listed))
    | ok text =>
      rw [edges_of_acquired _ acquired listed, edges_of_acquired _ acquired' (same ▸ listed)]
      exact ⟨rfl, rfl, rfl⟩
  · exact (edges_of_uncollected _ ⟨settings, .empty⟩ failed json).agrees
      (edges_of_uncollected _ ⟨settings', .empty⟩ (collected.symm.trans failed) json)
  · exact (edges_of_unloaded _ ⟨settings, .empty⟩ found failed json).agrees
      (edges_of_unloaded _ ⟨settings', .empty⟩ (collected.symm.trans found) failed json)

theorem Session.mindmap_agrees (colours : environment.colours = environment'.colours)
    (depth : settings.maxDepth = settings'.maxDepth) (root : String) (output : Option Path) :
    ((opening environment files).mindmap ⟨settings, .empty⟩ paths root output).Agrees
      ((opening environment' files).mindmap ⟨settings', .empty⟩ paths root output) := by
  have announced (count : Nat) :
      preamble environment count root = preamble environment' count root := by
    rw [preamble, preamble, colours]
  obtain ⟨⟨acquired⟩⟩ | ⟨error, failed⟩ | ⟨sources, error, found, failed⟩ :=
    Acquired.cases files settings paths
  · let acquired' : Acquired files settings' paths :=
      { acquired with collected := collected.symm.trans acquired.collected }
    have document : acquired'.mindmap root = acquired.mindmap root := by
      rw [Acquired.mindmap, Acquired.mindmap, depth]
      rfl
    rw [mindmap_of_acquired _ acquired, mindmap_of_acquired _ acquired']
    change (deliver _ (acquired.mindmap root) output).Agrees
      (deliver _ (acquired'.mindmap root) output)
    rw [document]
    apply deliver_agrees
    · rfl
    · exact congrArg ("" ++ ·) (announced _)
    · exact colours
  · exact (mindmap_of_uncollected _ ⟨settings, .empty⟩ failed root output).agrees
      (mindmap_of_uncollected _ ⟨settings', .empty⟩ (collected.symm.trans failed) root output)
  · have fails := mindmap_of_unloaded (opening environment files) ⟨settings, .empty⟩ found failed
      root output
    have fails' := mindmap_of_unloaded (opening environment' files) ⟨settings', .empty⟩
      (collected.symm.trans found) failed root output
    rw [opening, ← announced] at fails'
    exact fails.agrees fails'

end

variable [ArgumentParser] {arguments arguments' : List String} {paths : List Path}
  {overrides overrides' : Overrides}

theorem run_agrees_of_mindmap {root : String} {output : Option Path}
    (asked : ArgumentParser.read arguments = .request (.mindmap paths root overrides output))
    (asked' : ArgumentParser.read arguments' = .request (.mindmap paths root overrides' output))
    (colours : environment.colours = environment'.colours)
    (depth : (environment.settings.1.override overrides).maxDepth =
      (environment'.settings.1.override overrides').maxDepth)
    (collected : files.collect (environment.settings.1.override overrides).skipDirs paths =
      files.collect (environment'.settings.1.override overrides').skipDirs paths) :
    (run arguments environment files).Agrees (run arguments' environment' files) := by
  rw [run_of_mindmap environment files asked, run_of_mindmap environment' files asked']
  exact Session.mindmap_agrees (congrArg Prod.snd collected) colours depth root output

/-- The depth limit does not matter to a listing of edges. -/
theorem run_agrees_of_edges {json : Bool}
    (asked : ArgumentParser.read arguments = .request (.edges paths overrides json))
    (asked' : ArgumentParser.read arguments' = .request (.edges paths overrides' json))
    (collected : files.collect (environment.settings.1.override overrides).skipDirs paths =
      files.collect (environment'.settings.1.override overrides').skipDirs paths) :
    (run arguments environment files).Agrees (run arguments' environment' files) := by
  rw [run_of_edges environment files asked, run_of_edges environment' files asked']
  exact Session.edges_agrees (congrArg Prod.snd collected) json

theorem run_agrees_of_refused {text text' : String}
    (refused : ArgumentParser.read arguments = .refused text)
    (refused' : ArgumentParser.read arguments' = .refused text') :
    (run arguments environment files).Agrees (run arguments' environment' files) := by
  rw [run, run, refused, refused']
  exact ⟨rfl, rfl, rfl⟩

/-- A variable does not matter to a mindmap if the settings do not change with it. -/
theorem run_agrees_of_hidden {line : Line} (reads : ReadsLines) (fits : line.fits .mindmap = true)
    (colours : environment.colours = environment'.colours)
    (depth : line.texts .maxDepth ≠ [] ∨ environment.maxDepth = environment'.maxDepth)
    (skipDirs : line.texts .skipDirs ≠ [] ∨ environment.skipDirs = environment'.skipDirs) :
    (run (Command.mindmap.line line) environment files).Agrees
      (run (Command.mindmap.line line) environment' files) := by
  cases asked : line.request? .mindmap with
  | none =>
    obtain ⟨text, refused⟩ := reads.refused .mindmap line fits asked
    exact run_agrees_of_refused refused refused
  | some request =>
    obtain ⟨paths, root, overrides, output, rfl, limited, named, -⟩ := line.exists_mindmap asked
    have read := reads.asked .mindmap line _ fits asked
    apply run_agrees_of_mindmap read read colours
    · refine Settings.maxDepth_override_congr (depth.imp limited.mpr fun same => ?_)
      rw [Environment.settings, Environment.settings, Settings.maxDepth_ofVariables,
        Settings.maxDepth_ofVariables, same]
    · rw [Settings.skipDirs_override_congr (skipDirs.imp named.mpr fun same => ?_)]
      rw [Environment.settings, Environment.settings, Settings.skipDirs_ofVariables,
        Settings.skipDirs_ofVariables, same]

/-- A flag that is put into a line does what a variable does, if the settings come to the same. -/
theorem run_agrees_of_inserted {line line' : Line} {more : Overrides} (reads : ReadsLines)
    (fits : line.fits .mindmap = true) (fits' : line'.fits .mindmap = true)
    (inserted : line'.request? .mindmap = (line.request? .mindmap).map (·.adding more))
    (colours : environment.colours = environment'.colours)
    (same : ∀ (overrides : Overrides) (paths : List Path),
      (overrides.maxDepth.isSome = true ↔ line.texts .maxDepth ≠ []) →
      (overrides.skipDirs.isSome = true ↔ line.texts .skipDirs ≠ []) →
      (∀ path ∈ paths, path.fileName? ≠ some "") →
      (environment.settings.1.override overrides).maxDepth =
          (environment'.settings.1.override (overrides.adding more)).maxDepth ∧
        files.collect (environment.settings.1.override overrides).skipDirs paths =
          files.collect (environment'.settings.1.override (overrides.adding more)).skipDirs paths) :
    (run (Command.mindmap.line line) environment files).Agrees
      (run (Command.mindmap.line line') environment' files) := by
  cases asked : line.request? .mindmap with
  | none =>
    obtain ⟨text, refused⟩ := reads.refused .mindmap line fits asked
    rw [asked] at inserted
    obtain ⟨text', refused'⟩ := reads.refused .mindmap line' fits' inserted
    exact run_agrees_of_refused refused refused'
  | some request =>
    obtain ⟨paths, root, overrides, output, rfl, limited, named, spelled⟩ :=
      line.exists_mindmap asked
    have proper : ∀ path ∈ paths, path.fileName? ≠ some "" := by
      intro path mem
      obtain ⟨text, rfl⟩ := spelled path mem
      exact Path.fileName?_ofString_ne text
    obtain ⟨depth, collected⟩ := same overrides paths limited named proper
    rw [asked] at inserted
    exact run_agrees_of_mindmap (reads.asked .mindmap line _ fits asked)
      (reads.asked .mindmap line' _ fits' inserted) colours depth collected

section

variable {before after : List Item} {behind : Option (List String)} {form : Form}
  (reads : ReadsLines) (fits : Line.fits .mindmap ⟨before ++ after, behind⟩ = true)
include reads fits

/-- A depth that is given by the flag is the one that the variable gives. -/
theorem run_agrees_of_depth {text : String} {depth : Nat} {depth? : Option String}
    (flag : (Item.value .maxDepth form text).fits .mindmap = true)
    (fresh : Line.texts ⟨before ++ after, behind⟩ .maxDepth = [])
    (read : wordOf? text.toList = some depth)
    (value : (Settings.depthOf depth?).1 = Settings.depthLimit depth) :
    (run (Command.mindmap.line ⟨before ++ after, behind⟩) { environment with maxDepth := depth? }
        files).Agrees
      (run (Command.mindmap.line ⟨before ++ .value .maxDepth form text :: after, behind⟩)
        environment files) := by
  refine run_agrees_of_inserted reads fits (Line.fits_insert flag fits)
    (Line.request?_insert_maxDepth fresh read) rfl fun overrides paths limited _ _ => ?_
  have unset : overrides.maxDepth = none := by simpa [fresh] using limited
  simp [Settings.override, Overrides.adding, unset, Environment.settings, value,
    Settings.maxDepth_ofVariables, Settings.skipDirs_ofVariables]

/-- Names that are given by the flag leave out what those in the variable do. -/
theorem run_agrees_of_names {list : String} (named : files.root.Named)
    (flag : (Item.value .skipDirs form list).fits .mindmap = true)
    (fresh : Line.texts ⟨before ++ after, behind⟩ .skipDirs = [])
    (unpadded : ∀ piece ∈ splitAt ',' list.toList, Settings.Unpadded piece) :
    (run (Command.mindmap.line ⟨before ++ after, behind⟩)
        { environment with skipDirs := some list } files).Agrees
      (run (Command.mindmap.line ⟨before ++ .value .skipDirs form list :: after, behind⟩)
        environment files) := by
  refine run_agrees_of_inserted reads fits (Line.fits_insert flag fits)
    (Line.request?_insert_skipDirs fresh) rfl fun overrides paths _ names proper => ?_
  have unset : overrides.skipDirs = none := by simpa [fresh] using names
  have same := FileSystem.collect_congr (Settings.sameSkips_namesOf unpadded) named proper
  simpa [Settings.override, Overrides.adding, unset, Environment.settings,
    Settings.maxDepth_ofVariables, Settings.skipDirs_ofVariables] using same

end

/-- Flags override variables and mean the same. If a flag is among the arguments of a mindmap, what
its variable holds does not show, and without the flag the variable does what the flag with the same
value does wherever it is put in and in whichever form: a number limits the depth, and zero is no
limit, as if there were no variable; names without blanks around them leave out the same
directories, although the flag keeps the empty ones. The variable for the depth does not show in a
listing of edges. All this holds for lines that ask for nothing as well. -/
theorem flags_override_variables (reads : ReadsLines) (environment : Environment)
    (files : FileSystem) :
    (∀ line : Line, line.fits .mindmap = true → line.texts .maxDepth ≠ [] → ∀ depth? depth?',
      (run (Command.mindmap.line line) { environment with maxDepth := depth? } files).Agrees
        (run (Command.mindmap.line line) { environment with maxDepth := depth?' } files)) ∧
    (∀ line : Line, line.fits .mindmap = true → line.texts .skipDirs ≠ [] → ∀ list? list?',
      (run (Command.mindmap.line line) { environment with skipDirs := list? } files).Agrees
        (run (Command.mindmap.line line) { environment with skipDirs := list?' } files)) ∧
    (∀ before after behind form text depth,
      let line : Line := ⟨before ++ after, behind⟩
      let flag : Item := .value .maxDepth form text
      line.fits .mindmap = true → flag.fits .mindmap = true → line.texts .maxDepth = [] →
        wordOf? text.toList = some depth →
          let flagged :=
            run (Command.mindmap.line ⟨before ++ flag :: after, behind⟩) environment files
          (run (Command.mindmap.line line) { environment with maxDepth := some text }
              files).Agrees flagged ∧
            (depth = 0 →
              (run (Command.mindmap.line line) { environment with maxDepth := none }
                files).Agrees flagged)) ∧
    (∀ before after behind form list,
      let line : Line := ⟨before ++ after, behind⟩
      let flag : Item := .value .skipDirs form list
      files.root.Named → line.fits .mindmap = true → flag.fits .mindmap = true →
        line.texts .skipDirs = [] →
          (∀ piece ∈ splitAt ',' list.toList, Settings.Unpadded piece) →
            (run (Command.mindmap.line line) { environment with skipDirs := some list }
              files).Agrees
              (run (Command.mindmap.line ⟨before ++ flag :: after, behind⟩) environment files)) ∧
    ∀ line : Line, line.fits .edges = true → ∀ depth? depth?',
      (run (Command.edges.line line) { environment with maxDepth := depth? } files).Agrees
        (run (Command.edges.line line) { environment with maxDepth := depth?' } files) := by
  refine ⟨fun line fits given depth? depth?' => ?_, fun line fits given list? list?' => ?_,
    ?_, ?_, fun line fits depth? depth?' => ?_⟩
  · exact run_agrees_of_hidden reads fits rfl (.inl given) (.inr rfl)
  · exact run_agrees_of_hidden reads fits rfl (.inr rfl) (.inl given)
  · intro before after behind form text depth line flag fits itself fresh read
    refine ⟨run_agrees_of_depth reads fits itself fresh read (Settings.depthOf_some read), ?_⟩
    rintro rfl
    exact run_agrees_of_depth reads fits itself fresh read rfl
  · intro before after behind form list line flag named fits itself fresh unpadded
    exact run_agrees_of_names reads fits named itself fresh unpadded
  · cases asked : line.request? .edges with
    | none =>
      obtain ⟨text, refused⟩ := reads.refused .edges line fits asked
      exact run_agrees_of_refused refused refused
    | some request =>
      obtain ⟨paths, overrides, json, rfl⟩ := line.exists_edges asked
      have read := reads.asked .edges line _ fits asked
      apply run_agrees_of_edges read read
      rw [Settings.skipDirs_override_congr (.inr _)]
      rw [Environment.settings, Environment.settings, Settings.skipDirs_ofVariables,
        Settings.skipDirs_ofVariables]

end

section App

open scoped Reference

/-- The products of an app are left out by the flag as by the variable, a depth of zero limits
nothing in either place, and flags hide a variable that is no number and one with other names. -/
theorem flags_override_variables_app :
    let app := FileSystem.appOf FileSystem.appEntries
    (run ["mindmap", "-r", "Root", "App", "-d", "2"] { maxDepth := some "deep" } app).Agrees
        (run ["mindmap", "-r", "Root", "App", "-d", "2"] {} app) ∧
      (run ["mindmap", "-r", "Root", "--skip-dirs", "Build", "App"] { skipDirs := some "Core" }
          app).Agrees
        (run ["mindmap", "-r", "Root", "--skip-dirs", "Build", "App"] {} app) ∧
      (run ["mindmap", "-r", "Root", "App"] {} app).Agrees
        (run ["mindmap", "-r", "Root", "--max-depth=0", "App"] { maxDepth := some "3" } app) ∧
      (run ["mindmap", "-r", "Root", "App"] { skipDirs := some "Build,,Pods" } app).Agrees
        (run ["mindmap", "-r", "Root", "App", "--skip-dirs=Build,,Pods"] { skipDirs := some "Core" }
          app) := by
  intro app
  have named : app.root.Named := by
    have sources : (Node.directory [("A.swift", .file .empty)]).Named :=
      .directory (by simp) (by simpa using .file .empty)
    have entries : (Node.directory FileSystem.appEntries).Named :=
      .directory (by simp [FileSystem.appEntries])
        (by simpa [FileSystem.appEntries] using ⟨.file .empty, sources⟩)
    exact .directory (by simp) (by simpa using entries)
  let root : Item := .value .root (.letterApart 'r') "Root"
  have reads := Reference.readsLines
  refine ⟨?_, ?_, ?_, ?_⟩
  · obtain ⟨hidden, -⟩ := flags_override_variables reads {} app
    exact hidden ⟨[root, .path "App", .value .maxDepth (.letterApart 'd') "2"], none⟩
      (by decide +kernel) (by decide +kernel) (some "deep") none
  · obtain ⟨-, hidden, -⟩ := flags_override_variables reads {} app
    exact hidden ⟨[root, .value .skipDirs .apart "Build", .path "App"], none⟩ (by decide +kernel)
      (by decide +kernel) (some "Core") none
  · obtain ⟨-, -, depths, -⟩ := flags_override_variables reads { maxDepth := some "3" } app
    exact (depths [root] [.path "App"] none .equals "0" 0 (by decide +kernel) (by decide +kernel)
      (by decide +kernel) (by decide +kernel)).2 rfl
  · obtain ⟨-, -, -, names, -⟩ := flags_override_variables reads { skipDirs := some "Core" } app
    exact names [root, .path "App"] [] none .equals "Build,,Pods" named (by decide +kernel)
      (by decide +kernel) (by decide +kernel) (by decide +kernel)

end App

end CommandLine

end RibMap
