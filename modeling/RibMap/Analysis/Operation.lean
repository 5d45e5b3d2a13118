import RibMap.Analysis

/-! # Operations of an analysis

The operations that make up the use of an analysis, as values. Performing one gives the analysis
after it and an answer; an operation that fails or only reads gives back the analysis it was given.
-/

namespace RibMap.Analysis

inductive Operation where
  | collect (paths : List Path)
  | load (paths : List Path)
  /-- Collect sources and load them. -/
  | acquire (paths : List Path)
  | addDeclarations (declarations : List Declaration)
  | edges
  | lines (root : String)
  | count (root : String)
  /-- Make the whole text of a mindmap. -/
  | text (root : String)
  /-- Write a mindmap into a sink. -/
  | write (root : String) (sink : Sink)

/-- What an operation answers. -/
inductive Answer where
  | done
  | paths (paths : List Path)
  | edges (edges : EdgeSet)
  | lines (lines : List String)
  | count (count : Nat)
  | text (text : String)
  | written (sink : Sink) (error : Option AnalysisError)
  | failed (error : AnalysisError)

/-- The analysis after an operation, what was reported, and the answer. -/
structure Performed where
  analysis : Analysis
  events : List Event
  answer : Answer

def answering (analysis : Analysis) (events : List Event) (answer : Answer) : Performed :=
  ⟨analysis, events, answer⟩

variable [Json.Library] [Swift.Grammar]

/-- Load sources and answer. -/
def loading (analysis : Analysis) (fs : FileSystem) (earlier : List Event) (paths : List Path)
    (answer : Answer) : Performed :=
  match analysis.load fs paths with
  | (events, .error error) => analysis.answering (earlier ++ events) (.failed error)
  | (events, .ok after) => ⟨after, earlier ++ events, answer⟩

def perform (analysis : Analysis) (fs : FileSystem) : Operation → Performed
  | .collect paths =>
    match analysis.collect fs paths with
    | (events, .error error) => analysis.answering events (.failed error)
    | (events, .ok found) => analysis.answering events (.paths found)
  | .load paths => analysis.loading fs [] paths .done
  | .acquire paths =>
    match analysis.collect fs paths with
    | (events, .error error) => analysis.answering events (.failed error)
    | (events, .ok found) => analysis.loading fs events found (.paths found)
  | .addDeclarations declarations =>
    let (events, after) := analysis.addDeclarations declarations
    ⟨after, events, .done⟩
  | .edges => analysis.answering [] (.edges analysis.edges)
  | .lines root =>
    let walk := analysis.walk root
    analysis.answering walk.events (.lines walk.lines)
  | .count root =>
    let walk := analysis.walk root
    analysis.answering walk.events (.count walk.ribs.length)
  | .text root =>
    let mindmap := analysis.mindmap root
    analysis.answering mindmap.events (.text mindmap.text)
  | .write root sink =>
    let written := (analysis.mindmap root).write sink
    let error := if written.complete then none else some .fullSink
    analysis.answering written.events (.written written.sink error)

end RibMap.Analysis
