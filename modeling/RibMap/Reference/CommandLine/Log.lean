import RibMap.CommandLine.Log

/-! # A logger

Events of a chosen level and of heavier ones are logged, a line for each. Characters that a terminal
could take for a command are spelled out in the wording of an event.

The program is run and tested with this logger, and none of its own definitions refers to it.
-/

namespace RibMap.CommandLine

/-- The place of a level among all of them, the heaviest first. -/
def Log.rank : Level → Nat
  | .error => 0
  | .warn => 1
  | .info => 2
  | .debug => 3

/-- The lightest level that is logged, or nothing at all. -/
abbrev Threshold := Option Level

namespace Threshold

def admits (threshold : Threshold) (event : Event) : Bool :=
  match threshold with
  | none => false
  | some lightest => Log.rank event.level ≤ Log.rank lightest

/-- The threshold of a name or number, whatever the case of its letters. -/
def ofName? (name : String) : Option Threshold :=
  match String.ofList (name.toList.map Char.toLower) with
  | "off" | "0" => some none
  | "" | "error" | "1" => some (some .error)
  | "warn" | "2" => some (some .warn)
  | "info" | "3" => some (some .info)
  | "debug" | "4" | "trace" | "5" => some (some .debug)
  | _ => none

end Threshold

namespace Log

def hexPair (value : Nat) : List Char :=
  [Nat.digitChar (value / 16), Nat.digitChar (value % 16)]

/-- A character as it is logged. -/
def visible (c : Char) : List Char :=
  if c.toNat ∈ [0x07, 0x08, 0x0c, 0x1b, 0x7f] then '\\' :: 'x' :: hexPair c.toNat
  else if 0x80 ≤ c.toNat ∧ c.toNat ≤ 0x9f then
    '\\' :: 'u' :: '\x7b' :: hexPair c.toNat ++ ['\x7d']
  else [c]

def line (event : Event) : String :=
  s!"{event.level.label} {event.reporter}: " ++
    String.ofList (event.message.toList.flatMap visible) ++ "\n"

end Log

end RibMap.CommandLine

namespace RibMap.Reference

open CommandLine

/-- Errors are logged under a filter that is not understood. -/
scoped instance logger : Logger where
  Filter := Threshold
  filter? := Threshold.ofName?
  filter text := (Threshold.ofName? text).getD (some .error)
  admits := Threshold.admits
  line := Log.line

end RibMap.Reference
