import RibMap.Event

/-! # The log of the command line

Events are logged by a logger that is not part of this development. A variable says which of them;
if it is not set, or to nothing that the logger understands, warnings and what is heavier are
logged.
-/

namespace RibMap.CommandLine

/-- A logger: filters and how they are written, what a filter lets through, and the lines of
events. -/
class Logger where
  Filter : Type
  /-- The filter of a text, if all of the text is understood. -/
  filter? : String → Option Filter
  /-- The filter of as much of a text as is understood. -/
  filter : String → Filter
  admits : Filter → Event → Bool
  line : Event → String

def filterOf [Logger] (setting? : Option String) : Logger.Filter :=
  (setting?.bind Logger.filter?).getD (Logger.filter "warn")

/-- The log of events under a variable. -/
def logOf [Logger] (setting? : Option String) (events : List Event) : String :=
  String.join ((events.filter (Logger.admits (filterOf setting?))).map Logger.line)

end RibMap.CommandLine
