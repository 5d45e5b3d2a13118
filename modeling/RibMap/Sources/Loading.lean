import RibMap.Dump
import RibMap.Event
import RibMap.Sources.Error
import RibMap.Swift.Syntax

/-! # Loading sources

A file with the extension of a dump is read as a dump and any other file as Swift source. Loading a
list of files gives the declarations of all of them in order, or the failure of the first file that
has one; the files before it have been reported by then. One parser goes through all of the files.
-/

namespace RibMap.FileSystem

variable [Json.Library] [Swift.Grammar]

/-- The declarations of one file, and the parser after it. -/
def declarationsAt (fs : FileSystem) (parser : Swift.Grammar.Parser) (path : Path) :
    Except SourceError (List Declaration × Swift.Grammar.Parser) :=
  match fs.readText path with
  | .error error => .error (.io path.spelling error)
  | .ok text =>
    if path.isDump then
      match Dump.declarations text with
      | .error cause => .error (.dump path.spelling cause)
      | .ok declarations => .ok (declarations, parser)
    else
      match Swift.declarations parser text with
      | (none, _) => .error (.parse path.spelling)
      | (some declarations, parser) => .ok (declarations, parser)

/-- The declarations of files, with a report for every file that was read. -/
def loadWith (fs : FileSystem) (parser : Swift.Grammar.Parser) :
    List Path → List Event × Except SourceError (List Declaration)
  | [] => ([], .ok [])
  | path :: rest =>
    match fs.declarationsAt parser path with
    | .error error => ([], .error error)
    | .ok (declarations, parser) =>
      let (events, result) := fs.loadWith parser rest
      (.declared path.spelling declarations.length :: events, result.map (declarations ++ ·))

/-- Load files with a new parser. -/
def load (fs : FileSystem) (paths : List Path) :
    List Event × Except SourceError (List Declaration) :=
  match Swift.Grammar.load with
  | .error cause => ([], .error (.language cause))
  | .ok parser => fs.loadWith parser paths

end RibMap.FileSystem
