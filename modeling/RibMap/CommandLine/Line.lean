import RibMap.CommandLine.Arguments
import RibMap.Text.Cut
import RibMap.Text.Numeral

/-! # Lines of arguments

The arguments of a command are its paths and flags, in any order; behind `--` everything is a path.
A flag has its value attached or in front of the next argument, which must not look like a flag. A
line asks for something if it has at least one path, no empty one, and the flags that must be given,
if each flag that takes one value is given once at the most, and if the values are of the kinds of
their flags.
-/

namespace RibMap.CommandLine

def Flag.takesValue (flag : Flag) : Bool :=
  match flag.value with
  | .nothing => false
  | _ => true

def Flag.parts (flag : Flag) (text : String) : List String :=
  match flag.value with
  | .texts delimiter => (splitAt delimiter text.toList).map String.ofList
  | _ => [text]

/-- How a flag is written with its value. -/
inductive Form where
  /-- `--name value`, which are two arguments. -/
  | apart
  /-- `--name=value` -/
  | equals
  /-- `-n value`, which are two arguments. -/
  | letterApart (letter : Char)
  /-- `-n=value` -/
  | letterEquals (letter : Char)
  /-- `-nvalue` -/
  | letterGlued (letter : Char)
  deriving DecidableEq, Repr

/-- Whether an argument does not look like a flag; a lone dash does not. -/
def isPlain (text : String) : Bool :=
  match text.toList with
  | '-' :: _ :: _ => false
  | _ => true

/-- Whether a value of a flag can be written in a form. -/
def Form.fits (flag : Flag) (text : String) : Form → Bool
  | apart => isPlain text
  | equals => true
  | letterApart letter => flag.letter? = some letter && isPlain text
  | letterEquals letter => flag.letter? = some letter
  | letterGlued letter =>
    flag.letter? = some letter && text.toList.head?.any (· ≠ '=')

/-- A path or a flag among the arguments of a command. -/
inductive Item where
  | path (text : String)
  /-- A flag without a value. -/
  | bare (flag : Flag)
  | value (flag : Flag) (form : Form) (text : String)
  deriving DecidableEq, Repr

namespace Item

def arguments : Item → List String
  | path text => [text]
  | bare flag => ["--" ++ flag.name]
  | value flag .apart text => ["--" ++ flag.name, text]
  | value flag .equals text => ["--" ++ flag.name ++ "=" ++ text]
  | value _ (.letterApart letter) text => ["-" ++ letter.toString, text]
  | value _ (.letterEquals letter) text => ["-" ++ letter.toString ++ "=" ++ text]
  | value _ (.letterGlued letter) text => ["-" ++ letter.toString ++ text]

/-- Whether an item can stand among the arguments of a command. -/
def fits (command : Command) : Item → Bool
  | path text => isPlain text
  | bare flag => flag ∈ command.flags && !flag.takesValue
  | value flag form text => flag ∈ command.flags && flag.takesValue && form.fits flag text

def path? : Item → Option String
  | path text => some text
  | _ => none

/-- What an item says of a flag. The name of a flag without a value says nothing more. -/
def text? (flag : Flag) : Item → Option String
  | path _ => none
  | bare other => if other = flag then some "" else none
  | value other _ text => if other = flag then some text else none

end Item

/-- The arguments of a command. -/
structure Line where
  items : List Item
  /-- The paths behind the separator, if it is there. -/
  behind : Option (List String) := none
  deriving DecidableEq, Repr

/-- Read what may be given once at the most. Nothing comes of a text that cannot be read, and of
several texts. -/
def once? {α : Type} (read : String → Option α) : List String → Option (Option α)
  | [] => some none
  | [text] => (read text).map some
  | _ :: _ :: _ => none

/-- A path, which is not empty. -/
def pathOf? (text : String) : Option Path :=
  if text.isEmpty then none else some (.ofString text)

namespace Line

/-- What a line is written as. -/
def arguments (line : Line) : List String :=
  line.items.flatMap Item.arguments ++
    match line.behind with
    | none => []
    | some paths => "--" :: paths

/-- Whether the arguments of a line can follow a command. -/
def fits (command : Command) (line : Line) : Bool :=
  line.items.all (·.fits command)

def paths (line : Line) : List String :=
  line.items.filterMap Item.path? ++ line.behind.getD []

/-- What is said of a flag, one text each time that it is given. -/
def texts (line : Line) (flag : Flag) : List String :=
  line.items.filterMap (Item.text? flag)

def root? (line : Line) : Option (Option String) :=
  once? some (line.texts .root)

def maxDepth? (line : Line) : Option (Option Nat) :=
  once? (wordOf? ·.toList) (line.texts .maxDepth)

def output? (line : Line) : Option (Option Path) :=
  once? pathOf? (line.texts .output)

def json? (line : Line) : Option Bool :=
  (once? some (line.texts .json)).map Option.isSome

/-- Names of directories, which may be given in several places. -/
def skipDirs (line : Line) : Option (List String) :=
  match line.texts .skipDirs with
  | [] => none
  | first :: rest => some ((first :: rest).flatMap Flag.skipDirs.parts)

/-- Whether there is nothing wrong with a line, though something may be missing. -/
def isFaultless (line : Line) : Bool :=
  !line.paths.any String.isEmpty && line.root?.isSome && line.maxDepth?.isSome &&
    line.output?.isSome && line.json?.isSome

/-- What a line asks for as the arguments of a command. -/
def request? (line : Line) (command : Command) : Option Request := do
  if line.paths.isEmpty || line.paths.any String.isEmpty then none
  else
    let paths := line.paths.map Path.ofString
    match command with
    | .mindmap =>
      let root ← (← line.root?)
      let depth ← line.maxDepth?
      let output ← line.output?
      return .mindmap paths root ⟨depth, line.skipDirs⟩ output
    | .edges =>
      let json ← line.json?
      return .edges paths ⟨none, line.skipDirs⟩ json

end Line

/-- A command line, from the name of the command on. -/
def Command.line (command : Command) (line : Line) : List String :=
  command.name :: line.arguments

end RibMap.CommandLine
