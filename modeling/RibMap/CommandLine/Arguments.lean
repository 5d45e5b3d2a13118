import RibMap.Path
import RibMap.Settings

/-! # Command lines

The commands with their flags, and what a command line can ask for. Command lines are taken apart by
a parser that is not part of this development; it is told the commands and the flags below.
-/

namespace RibMap.CommandLine

inductive Request where
  | mindmap (paths : List Path) (root : String) (overrides : Overrides) (output : Option Path)
  | edges (paths : List Path) (overrides : Overrides) (json : Bool)
  deriving DecidableEq, Repr

/-- The commands. Each of them takes at least one path, besides its flags. -/
inductive Command where
  | mindmap
  | edges
  deriving DecidableEq, Repr

def Command.name : Command → String
  | mindmap => "mindmap"
  | edges => "edges"

/-- The flags of the commands. -/
inductive Flag where
  | root
  | maxDepth
  | skipDirs
  | output
  | json
  deriving DecidableEq, Repr

/-- What belongs to a flag. -/
inductive Flag.Value where
  | nothing
  | text
  | path
  /-- A number of one machine word. -/
  | word
  /-- Texts with a character between them; the flag may be given more than once. -/
  | texts (delimiter : Char)

namespace Flag

def name : Flag → String
  | root => "root"
  | maxDepth => "max-depth"
  | skipDirs => "skip-dirs"
  | output => "output"
  | json => "json"

def letter? : Flag → Option Char
  | root => some 'r'
  | maxDepth => some 'd'
  | output => some 'o'
  | skipDirs | json => none

def value : Flag → Value
  | root => .text
  | maxDepth => .word
  | skipDirs => .texts ','
  | output => .path
  | json => .nothing

end Flag

/-- The flags of a command. The root of a mindmap must be given, and every other flag may be. -/
def Command.flags : Command → List Flag
  | mindmap => [.root, .maxDepth, .skipDirs, .output]
  | edges => [.skipDirs, .json]

/-- What comes of a command line. -/
inductive Reading where
  | request (request : Request)
  /-- There is something to show instead, such as the version or help. -/
  | shown (text : String)
  /-- The command line is not understood, with an explanation. -/
  | refused (text : String)

/-- A parser of command lines. -/
class ArgumentParser where
  read : List String → Reading

end RibMap.CommandLine
