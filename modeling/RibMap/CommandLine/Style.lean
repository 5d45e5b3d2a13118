/-! # Styles of informational lines

On a terminal some lines are set off from the others. Mindmaps never are.
-/

namespace RibMap.CommandLine

/-- How a line is set off. -/
inductive Style where
  | bold
  | underline
  | success
  deriving DecidableEq, Repr

namespace Style

def sequence (number : Nat) : String :=
  s!"\x1b[{number}m"

/-- The numbers of the renditions that make up a style: one is bold, four underlined, and thirty-two
green. -/
def renditions : Style → List Nat
  | bold => [1]
  | underline => [4]
  | success => [32, 1]

/-- A text in a style, if there are colours; afterwards everything is reset. -/
def paint (style : Style) (colours : Bool) (text : String) : String :=
  if colours then String.join (style.renditions.map sequence) ++ text ++ sequence 0 else text

end Style

end RibMap.CommandLine
