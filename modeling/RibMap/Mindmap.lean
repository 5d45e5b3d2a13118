import RibMap.Sink
import RibMap.Walk

/-! # Mindmaps

A mindmap is a PlantUML document with one line for every node of a walk, between a style for both
kinds of views and a link to a previewer. It is written node by node: a node is visited only when
everything before its line has been written.
-/

namespace RibMap

/-- What a mindmap shows. -/
structure Mindmap where
  edges : EdgeSet
  root : String
  limit : Option Nat

namespace Mindmap

/-- The lines that open the document and set the colours of the views. -/
def headerLines : List String :=
  ["@startmindmap",
    "<style>",
    "mindmapDiagram \x7b",
    "  .Viewful \x7b",
    "    BackGroundColor #00c88b",
    "  \x7d",
    "  .Viewless \x7b",
    "    BackGroundColor #d3d3d3",
    "  \x7d",
    "\x7d",
    "</style>"]

/-- The lines that close the document, with two empty ones before the link. -/
def footerLines : List String :=
  ["@endmindmap", "", "", "https://sujoyu.github.io/plantuml-previewer/"]

def unlines (lines : List String) : String :=
  String.join (lines.map (· ++ "\n"))

def walk (mindmap : Mindmap) : Walk :=
  .ofEdges mindmap.edges mindmap.root mindmap.limit

def text (mindmap : Mindmap) : String :=
  unlines headerLines ++ unlines mindmap.walk.lines ++ unlines footerLines

/-- What is reported while the whole document is written. -/
def events (mindmap : Mindmap) : List Event :=
  mindmap.walk.events ++ [.rendered mindmap.walk.ribs.length mindmap.root]

/-- The result of writing: the sink, what was reported, and whether everything fitted. -/
structure Written where
  sink : Sink
  events : List Event
  complete : Bool

/-- Report something before the rest of the writing. -/
def Written.after (events : List Event) (written : Written) : Written :=
  { written with events := events ++ written.events }

/-- Write the lines of visits and the end of the document, stopping where the sink is full. -/
def writeVisits (root : String) (count : Nat) (sink : Sink) : List Visit → Written
  | [] =>
    let (sink, complete) := sink.write (unlines footerLines)
    ⟨sink, [.rendered count root], complete⟩
  | visit :: visits =>
    match sink.write (visit.rib.line ++ "\n") with
    | (sink, true) => (writeVisits root (count + 1) sink visits).after visit.events
    | (sink, false) => ⟨sink, visit.events, false⟩

def write (mindmap : Mindmap) (sink : Sink) : Written :=
  match sink.write (unlines headerLines) with
  | (sink, true) => writeVisits mindmap.root 0 sink mindmap.walk.visits
  | (sink, false) => ⟨sink, [], false⟩

end Mindmap

end RibMap
