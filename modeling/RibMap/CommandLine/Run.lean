import RibMap.Analysis
import RibMap.CommandLine.Arguments
import RibMap.CommandLine.Log
import RibMap.CommandLine.Report
import RibMap.CommandLine.Style
import RibMap.Edge.Written

/-! # Runs of the command line

A run takes a command line, an environment and a file system, and leaves behind an exit code, the
texts of its two output streams and the file system with the file it may have written.
-/

namespace RibMap.CommandLine

/-- What a run can see of its surroundings besides the files. -/
structure Environment where
  /-- The variable for the depth limit. -/
  maxDepth : Option String := none
  /-- The variable for the directories that are left out. -/
  skipDirs : Option String := none
  /-- The variable for the level of the log. -/
  log : Option String := none
  /-- Whether the variable against colours is set, to whatever text. -/
  noColor : Bool := false
  /-- Whether the output goes to a terminal. -/
  terminal : Bool := false

namespace Environment

/-- Whether the output has colours. -/
def colours (environment : Environment) : Bool :=
  environment.terminal && !environment.noColor

/-- The settings that the variables give, and what is to be reported about them. -/
def settings (environment : Environment) : Settings × List Event :=
  Settings.ofVariables environment.maxDepth environment.skipDirs

end Environment

/-- What a run leaves behind. -/
structure Outcome where
  code : Nat
  output : String
  diagnostics : String
  files : FileSystem

/-- A run on its way. -/
structure Session where
  environment : Environment
  files : FileSystem
  output : String := ""
  events : List Event := []

namespace Session

variable [Json.Library] [Swift.Grammar] [Logger] [Reporter]

def say (session : Session) (text : String) : Session :=
  { session with output := session.output ++ text }

def report (session : Session) (events : List Event) : Session :=
  { session with events := session.events ++ events }

def log (session : Session) : String :=
  logOf session.environment.log session.events

def succeed (session : Session) : Outcome :=
  ⟨0, session.output, session.log, session.files⟩

def fail (session : Session) (failure : Failure) : Outcome :=
  ⟨1, session.output, session.log ++ Reporter.report failure, session.files⟩

/-- End with a failure to acquire sources, which the output mentions as well. -/
def failSources (session : Session) (error : AnalysisError) : Outcome :=
  (session.say "Cannot create structure. Check the target path.\n").fail
    ⟨error.message, error.causes⟩

def styled (session : Session) (style : Style) (text : String) : String :=
  style.paint session.environment.colours text ++ "\n"

def announce (session : Session) (files : Nat) (root : String) : Session :=
  session.say <|
    "\n" ++ session.styled .bold s!"Analyze {files} swift files." ++
    "\n" ++ session.styled .underline s!"Make RIBs tree under {root} RIB." ++ "\n"

def finish (session : Session) : Outcome :=
  (session.say ("\n" ++ session.styled .success "Successfully completed.")).succeed

def deliver (session : Session) (mindmap : Mindmap) : Option Path → Outcome
  | none => ((session.report mindmap.events).say mindmap.text).finish
  | some path =>
    match session.files.write path mindmap.text.toUTF8 with
    | .error error => session.fail ⟨error.message, []⟩
    | .ok files =>
      let session := { session with files := files }
      ((session.report mindmap.events).say s!"Saved to: {path.spelling}\n").finish

def mindmap (session : Session) (analysis : Analysis) (paths : List Path) (root : String)
    (output : Option Path) : Outcome :=
  let (events, collected) := analysis.collect session.files paths
  let session := session.report events
  match collected with
  | .error error => session.failSources error
  | .ok sources =>
    let session := session.announce sources.length root
    let (events, loaded) := analysis.load session.files sources
    let session := session.report events
    match loaded with
    | .error error => session.failSources error
    | .ok analysis =>
      let session := session.report [.gathered analysis.edges.size sources.length]
      session.deliver (analysis.mindmap root) output

/-- The listing of an edge set, or why it cannot be written as JSON. -/
def listing (edges : EdgeSet) (json : Bool) : Except String String :=
  if json then edges.toJsonIndented.map (· ++ "\n")
  else .ok (String.join (edges.toList.map (·.listed ++ "\n")))

def edges (session : Session) (analysis : Analysis) (paths : List Path) (json : Bool) : Outcome :=
  let (events, collected) := analysis.collect session.files paths
  let session := session.report events
  match collected with
  | .error error => session.failSources error
  | .ok sources =>
    let (events, loaded) := analysis.load session.files sources
    let session := session.report events
    match loaded with
    | .error error => session.failSources error
    | .ok analysis =>
      let session := session.report [.analyzed sources.length]
      match listing analysis.edges json with
      | .error cause => session.fail ⟨cause, []⟩
      | .ok text => (session.say text).succeed

/-- An analysis without edges under the settings of the variables, as far as they are not
overridden. -/
def prepare (session : Session) (overrides : Overrides) : Session × Analysis :=
  let (settings, events) := session.environment.settings
  (session.report events, { settings := settings.override overrides })

end Session

variable [Json.Library] [Swift.Grammar] [ArgumentParser] [Logger] [Reporter]

def Request.run (request : Request) (environment : Environment) (files : FileSystem) : Outcome :=
  let session : Session := { environment := environment, files := files }
  match request with
  | mindmap paths root overrides output =>
    let (session, analysis) := session.prepare overrides
    session.mindmap analysis paths root output
  | edges paths overrides json =>
    let (session, analysis) := session.prepare overrides
    session.edges analysis paths json

def run (arguments : List String) (environment : Environment) (files : FileSystem) : Outcome :=
  match ArgumentParser.read arguments with
  | .shown text => ⟨0, text, "", files⟩
  | .refused text => ⟨2, "", text, files⟩
  | .request request => request.run environment files

end RibMap.CommandLine
