/-! # Events

What the program reports while it works. An event is a value; its wording, its weight and the part
of the program that reports it are functions of the value.
-/

namespace RibMap

/-- The weight of an event, from the lightest to the heaviest. -/
inductive Level where
  | debug
  | info
  | warn
  | error
  deriving DecidableEq, Repr

def Level.label : Level → String
  | debug => "DEBUG"
  | info => "INFO"
  | warn => "WARN"
  | error => "ERROR"

/-- Something that is reported. -/
inductive Event where
  /-- A child is one of its own ancestors, so its branch is not followed. -/
  | cycle (path : List String) (child : String)
  /-- A mindmap was written as far as its last node. -/
  | rendered (count : Nat) (root : String)
  /-- The variable for the depth limit holds no number. -/
  | ignoredDepth (value : String)
  /-- Edges were taken from declarations. -/
  | extracted (edges declarations : Nat)
  /-- A file was read. -/
  | declared (path : String) (declarations : Nat)
  /-- A directory was left out. -/
  | skipped (directory : String)
  /-- All files of a mindmap were read. -/
  | gathered (edges files : Nat)
  /-- All files of an edge list were read. -/
  | analyzed (files : Nat)
  deriving DecidableEq, Repr

namespace Event

def level : Event → Level
  | cycle .. | ignoredDepth .. => .warn
  | rendered .. | gathered .. | analyzed .. => .info
  | extracted .. | declared .. | skipped .. => .debug

/-- The part of the program that reports an event. -/
def reporter : Event → String
  | cycle .. => "ribs::tree"
  | rendered .. => "ribs::mindmap"
  | ignoredDepth .. => "ribs::config"
  | extracted .. => "ribs::graph"
  | declared .. => "structure"
  | skipped .. => "structure::files"
  | gathered .. | analyzed .. => "ribstree::mindmap_cli"

def message : Event → String
  | cycle path child =>
    "Cycle detected: " ++ String.intercalate " -> " (path ++ [child]) ++ ", branch truncated"
  | rendered count root => s!"Rendered {count} RIBs under {root}"
  | ignoredDepth value => s!"Ignoring invalid RIBSTREE_MAX_DEPTH: {value}"
  | extracted edges declarations => s!"Extracted {edges} edges from {declarations} declarations"
  | declared path declarations => s!"{path}: {declarations} declarations"
  | skipped directory => s!"Skipping {directory}"
  | gathered edges files => s!"{edges} edges from {files} files"
  | analyzed files => s!"Analyzed {files} files"

/-- An event with its level in front. -/
def entry (event : Event) : String :=
  event.level.label ++ " " ++ event.message

end Event

end RibMap
