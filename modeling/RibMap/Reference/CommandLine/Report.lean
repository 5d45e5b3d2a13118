import RibMap.CommandLine.Report
import RibMap.Text.Cut

/-! # A reporter of failures

A failure is reported with the chain of its causes, indented; the causes are numbered if there are
several, and the lines of one cause are set below each other.

The program is run and tested with this reporter, and none of its own definitions refers to it.
-/

namespace RibMap.CommandLine

namespace Failure

/-- Join lines, each behind the first one with a margin. -/
def setBelow (first margin : String) (text : String) : String :=
  first ++ String.intercalate ("\n" ++ margin) ((splitAt '\n' text.toList).map String.ofList)

def margin : String := "    "

/-- A cause with its number; there is room for numbers of five digits. -/
def numbered (number : Nat) (cause : String) : String :=
  let digits := toString number
  setBelow ("".pushn ' ' (5 - digits.length) ++ digits ++ ": ") (margin ++ "   ") cause

/-- The causes, one or more lines for each. -/
def causeLines : List String → List String
  | [cause] => [setBelow margin margin cause]
  | causes => causes.mapIdx numbered

def report (failure : Failure) : String :=
  let causes :=
    if failure.causes.isEmpty then ""
    else "\n\nCaused by:" ++ String.join ((causeLines failure.causes).map ("\n" ++ ·))
  s!"Error: {failure.message}" ++ causes ++ "\n"

end Failure

end RibMap.CommandLine

namespace RibMap.Reference

open CommandLine

scoped instance reporter : Reporter where
  report := Failure.report

end RibMap.Reference
