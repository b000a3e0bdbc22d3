import SchemaTypes.Derive.OptionsReader
import SchemaTypes.Files.Glob
import SchemaTypes.Query.Run

namespace SchemaTypes

/-- Why a command stops. -/
inductive Failure where
  | unreadable (path : String) (cause : FileError)
  | unwritable (path : String) (cause : FileError)
  /-- The text of a document is no JSON. -/
  | malformed (origin text : String) (cause : ReadError)
  /-- A pattern is malformed, or a directory cannot be listed for it. -/
  | badPattern (cause : GlobError)
  | noMatch (pattern : String)
  /-- A pointer selects nothing in a document. -/
  | missing (pointer origin : String)
  | badQuery (origin source : String) (cause : QueryError)
  | badOptions (origin text : String) (cause : OptionsError)

namespace Failure

/-- The message of what lies below a failure, if that has one of its own. -/
def cause? : Failure → Option String
  | .unreadable _ cause => some cause.message
  | .unwritable _ cause => some cause.message
  | .malformed _ text cause => some (cause.message text)
  | .badOptions _ text cause => some (cause.message text)
  | .badPattern _ => none
  | .noMatch _ => none
  | .missing _ _ => none
  | .badQuery _ _ _ => none

def message : Failure → String
  | .unreadable path cause => s!"failed to read {path}: {cause.message}"
  | .unwritable path cause => s!"failed to write {path}: {cause.message}"
  | .malformed origin text cause => s!"failed to parse JSON ({origin}): {cause.message text}"
  | .badPattern cause => cause.message
  | .noMatch pattern => s!"glob pattern matched no files: {pattern}"
  | .missing pointer origin => s!"JSON pointer {pointer} selects nothing in {origin}"
  | .badQuery origin source cause =>
    s!"failed to apply jq expression ({origin}): {cause.message source}"
  | .badOptions origin text cause => s!"invalid config {origin}: {cause.message text}"

/-- The line that tells of a failure. A cause is told once more behind the message. -/
def report (failure : Failure) : String :=
  let cause := match failure.cause? with
    | some cause => ": " ++ cause
    | none => ""
  s!"error: schema-typeof failed: {failure.message}{cause}\n"

end Failure

end SchemaTypes
