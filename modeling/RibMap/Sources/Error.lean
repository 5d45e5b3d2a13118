import RibMap.FileSystem

/-! # Failures of acquisition

Why sources could not be found or read. A failure names the path that it is about, if it is about
one, and may have a cause of its own.
-/

namespace RibMap

inductive SourceError where
  | io (path : String) (cause : OsError)
  /-- A dump is no JSON text of the right shape; the JSON library words the cause. -/
  | dump (path : String) (cause : String)
  /-- Parsing Swift source was given up. -/
  | parse (path : String)
  | notFound (path : String)
  /-- The grammar of Swift could not be loaded, for a cause that the grammar words. -/
  | language (cause : String)
  deriving DecidableEq

namespace SourceError

def message : SourceError → String
  | io path cause => s!"IO error at {path}: {cause.message}"
  | dump path cause => s!"Invalid SourceKitten structure in {path}: {cause}"
  | parse path => s!"Failed to parse Swift source: {path}"
  | notFound path => s!"Path not found: {path}"
  | language cause => s!"Failed to load Swift grammar: {cause}"

/-- The wording of the cause, if there is one. -/
def cause? : SourceError → Option String
  | io _ cause => some cause.message
  | dump _ cause | language cause => some cause
  | parse _ | notFound _ => none

end SourceError

end RibMap
