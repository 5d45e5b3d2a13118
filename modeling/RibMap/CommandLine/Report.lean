/-! # Failure reports

A run that fails ends with a failure and the chain of its causes. How they are laid out is up to a
reporter that is not part of this development.
-/

namespace RibMap.CommandLine

/-- A failure with its causes, from the nearest on. -/
structure Failure where
  message : String
  causes : List String := []
  deriving DecidableEq, Repr

class Reporter where
  report : Failure → String

end RibMap.CommandLine
