import RibMap.Event
import RibMap.Text.Blank
import RibMap.Text.Cut
import RibMap.Text.Numeral

/-! # Settings

How deep the map goes and which directories are left out, with the values that two environment
variables give. A depth of zero means no limit here; a text that is no number is reported and
otherwise counts as not given.
-/

namespace RibMap

structure Settings where
  /-- The depth limit of the map, if there is one. -/
  maxDepth : Option Nat := none
  /-- Names of directories that are left out. -/
  skipDirs : List String := [".build", "Build", "DerivedData", "Pods", "Carthage"]
  deriving DecidableEq, Repr

namespace Settings

def depthLimit (depth : Nat) : Option Nat :=
  if depth = 0 then none else some depth

/-- The names in a list with commas: trimmed, and without empty ones. -/
def namesOf (list : String) : List String :=
  (((splitAt ',' list.toList).map trim).filter fun name => !name.isEmpty).map String.ofList

/-- The depth limit of the variable, and a report if it holds no number. -/
def depthOf (setting? : Option String) : Option Nat × List Event :=
  match setting? with
  | none => (none, [])
  | some value =>
    match wordOf? value.toList with
    | none => (none, [.ignoredDepth value])
    | some depth => (depthLimit depth, [])

/-- The settings that the variables give, and what is to be reported about them. -/
def ofVariables (depth? skipDirs? : Option String) : Settings × List Event :=
  let (maxDepth, events) := depthOf depth?
  let settings : Settings := { maxDepth := maxDepth }
  match skipDirs? with
  | none => (settings, events)
  | some list => ({ settings with skipDirs := namesOf list }, events)

end Settings

/-- What a command line changes about the settings. -/
structure Overrides where
  maxDepth : Option Nat := none
  skipDirs : Option (List String) := none
  deriving DecidableEq, Repr

namespace Settings

def override (settings : Settings) (overrides : Overrides) : Settings where
  maxDepth :=
    match overrides.maxDepth with
    | none => settings.maxDepth
    | some depth => depthLimit depth
  skipDirs := overrides.skipDirs.getD settings.skipDirs

end Settings

end RibMap
