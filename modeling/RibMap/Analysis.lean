import RibMap.Edge.Extraction
import RibMap.Mindmap
import RibMap.Settings
import RibMap.Sources.Collection
import RibMap.Sources.Loading

/-! # Analyses

An analysis holds the edges of everything loaded so far, under fixed settings. An operation either
succeeds or leaves the edges as they were: a list of files of which one cannot be read adds nothing.
-/

namespace RibMap

inductive AnalysisError where
  | sources (cause : SourceError)
  /-- The sink of a mindmap was full. -/
  | fullSink

namespace AnalysisError

/-- The wording of a failure. -/
def message : AnalysisError → String
  | sources cause => s!"Structure not found: {cause.message}"
  | fullSink => s!"IO error: {Sink.fullMessage}"

/-- The wordings of the causes, from the nearest on. -/
def causes : AnalysisError → List String
  | sources cause => cause.message :: cause.cause?.toList
  | fullSink => [Sink.fullMessage]

end AnalysisError

structure Analysis where
  settings : Settings := {}
  edges : EdgeSet := .empty

namespace Analysis

/-- The sources that given paths stand for. -/
def collect (analysis : Analysis) (fs : FileSystem) (paths : List Path) :
    List Event × Except AnalysisError (List Path) :=
  let (events, result) := fs.collect analysis.settings.skipDirs paths
  (events, result.mapError .sources)

/-- Add the edges of declarations. -/
def addDeclarations (analysis : Analysis) (declarations : List Declaration) :
    List Event × Analysis :=
  ([.ofExtraction declarations],
    { analysis with edges := analysis.edges.union (.ofDeclarations declarations) })

def load [Json.Library] [Swift.Grammar] (analysis : Analysis) (fs : FileSystem)
    (paths : List Path) : List Event × Except AnalysisError Analysis :=
  match fs.load paths with
  | (events, .error error) => (events, .error (.sources error))
  | (events, .ok declarations) =>
    let (more, analysis) := analysis.addDeclarations declarations
    (events ++ more, .ok analysis)

def walk (analysis : Analysis) (root : String) : Walk :=
  .ofEdges analysis.edges root analysis.settings.maxDepth

def mindmap (analysis : Analysis) (root : String) : Mindmap :=
  ⟨analysis.edges, root, analysis.settings.maxDepth⟩

end Analysis

end RibMap
