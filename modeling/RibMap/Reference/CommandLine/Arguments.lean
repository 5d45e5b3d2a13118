import RibMap.CommandLine.Line

/-! # A parser of command lines

A line is taken apart into its items, and then asks for what it does. A command line that is none
asks for nothing, and all such lines are treated alike. Asking for help ends the reading, so only
what stands before it has to be right.

The program is run and tested with this parser, and none of its own definitions refers to it.
-/

namespace RibMap.CommandLine

/-- One argument, read by itself. -/
inductive Argument where
  /-- Everything behind this argument is a path. -/
  | separator
  | help
  | item (item : Item)
  /-- A flag whose value is the next argument. -/
  | waiting (flag : Flag) (form : Form)

namespace Argument

/-- A flag with its long name; only flags with a value may have something attached. -/
def ofName? (command : Command) (text : List Char) : Option Argument :=
  let name := text.takeWhile (· ≠ '=')
  if text = "help".toList then some .help
  else
    match command.flags.find? fun flag => flag.name.toList = name with
    | none => none
    | some flag =>
      match text.drop name.length, flag.takesValue with
      | [], true => some (.waiting flag .apart)
      | [], false => some (.item (.bare flag))
      | _ :: value, true => some (.item (.value flag .equals (String.ofList value)))
      | _ :: _, false => none

/-- What stands behind the letter of a flag. -/
def ofAttached (flag : Flag) (letter : Char) : List Char → Argument
  | [] => .waiting flag (.letterApart letter)
  | '=' :: value => .item (.value flag (.letterEquals letter) (String.ofList value))
  | value => .item (.value flag (.letterGlued letter) (String.ofList value))

/-- A flag with its letter; all of these take values. -/
def ofLetter? (command : Command) (letter : Char) (rest : List Char) : Option Argument :=
  if letter = 'h' then some .help
  else
    (command.flags.find? fun flag => flag.letter? = some letter).map fun flag =>
      ofAttached flag letter rest

/-- Read one argument of a command; a lone dash is a path. -/
def of? (command : Command) (text : String) : Option Argument :=
  match text.toList with
  | ['-', '-'] => some .separator
  | '-' :: '-' :: name => ofName? command name
  | '-' :: letter :: rest => ofLetter? command letter rest
  | _ => some (.item (.path text))

end Argument

/-- How the arguments of a command end. -/
inductive Ending where
  /-- With all of them, where paths may stand behind a separator. -/
  | all (behind : Option (List String))
  | help
  /-- At an argument that is not understood. -/
  | wrong

/-- The items of the arguments of a command, up to their end. -/
def itemsOf (command : Command) : List String → List Item × Ending
  | [] => ([], .all none)
  | text :: rest =>
    match Argument.of? command text with
    | none => ([], .wrong)
    | some .separator => ([], .all (some rest))
    | some .help => ([], .help)
    | some (.item item) => (itemsOf command rest).map (item :: ·) id
    | some (.waiting flag form) =>
      match rest with
      | [] => ([], .wrong)
      | value :: rest =>
        if isPlain value then (itemsOf command rest).map (.value flag form value :: ·) id
        else ([], .wrong)

def usage : String :=
  String.join <| [
    "Build a RIBs tree mindmap from Swift sources",
    "",
    "Usage: ribstree mindmap <PATHS>... --root <ROOT> [--max-depth <N>] [--skip-dirs <NAMES>]",
    "                        [--output <FILE>]",
    "       ribstree edges <PATHS>... [--skip-dirs <NAMES>] [--json]",
    "       ribstree --help | --version"].map (· ++ "\n")

def readArguments (command : Command) (arguments : List String) : Option Reading :=
  match itemsOf command arguments with
  | (items, .all behind) => (Line.request? ⟨items, behind⟩ command).map .request
  | (items, .help) => if Line.isFaultless ⟨items, none⟩ then some (.shown usage) else none
  | (_, .wrong) => none

def Command.ofName? (name : String) : Option Command :=
  [mindmap, edges].find? (·.name = name)

/-- What may follow when help is asked for by a command of its own. -/
def isTopic : List String → Bool
  | [] => true
  | [topic] => topic == "help" || (Command.ofName? topic).isSome
  | _ => false

def versionLine : String := "ribstree 0.1.0\n"

/-- What stands in place of a command. -/
def globalReading? (text : String) : Option Reading :=
  match text.toList with
  | '-' :: 'V' :: _ => some (.shown versionLine)
  | '-' :: 'h' :: _ => some (.shown usage)
  | _ =>
    match text with
    | "--version" => some (.shown versionLine)
    | "--help" => some (.shown usage)
    | _ => none

def readCommandLine? : List String → Option Reading
  | [] => none
  | first :: rest =>
    match Command.ofName? first with
    | some command => readArguments command rest
    | none =>
      if first = "help" then if isTopic rest then some (.shown usage) else none
      else globalReading? first

end RibMap.CommandLine

namespace RibMap.Reference

open CommandLine

scoped instance argumentParser : ArgumentParser where
  read arguments := (readCommandLine? arguments).getD (.refused usage)

end RibMap.Reference
