import SchemaTypes.Json.Printer
import SchemaTypes.Json.Reader
import SchemaTypes.Query.Eval
import SchemaTypes.Query.Parser
import SchemaTypes.Query.Scope

namespace SchemaTypes

/-- Why a filter gives no documents. -/
inductive QueryError where
  /-- The text is no filter. -/
  | unreadable
  /-- The filter uses names without a meaning. -/
  | undefined (names : List Undefined)
  /-- The filter fails on the document. -/
  | failed (fault : Fault)
  /-- An output of the filter cannot be read again as a document. -/
  | unprintable (error : ReadError)

/-- The message of a failure of the filter `source`. Only undefined names are told
    in detail. -/
def QueryError.message (source : String) : QueryError → String
  | .unreadable => s!"cannot read `{source}`"
  | .undefined names => String.join (names.map (Undefined.message source))
  | .failed _ => s!"`{source}` fails"
  | .unprintable _ => s!"`{source}` gives no document"

namespace Query

/-- The document that an output is printed as. -/
def reread (value : Json) : Except QueryError Json :=
  match Json.parse value.compact with
  | .ok value => .ok value
  | .error e => .error (.unprintable e)

/-- Each output of a filter as a document of its own. The first failure is that of
    the whole. -/
def documents : Outputs → Except QueryError (List Json)
  | [] => .ok []
  | .error fault :: _ => .error (.failed fault)
  | .ok value :: rest => do
    let value ← reread value
    let values ← documents rest
    .ok (value :: values)

/-- What the filter with a given text makes of a document. A text that is no filter, or one
    that uses names without a meaning, is refused. Of any other the outputs are told in
    order, and where the filter fails, the failure stands among them. -/
abbrev Interpreter := String → Json → Except QueryError Outputs

/-- The documents that a filter makes of a document. -/
def runWith (interpreter : Interpreter) (source : String) (input : Json) :
    Except QueryError (List Json) := do
  documents (← interpreter source input)

/-- The interpreter of the filters of `Query`, which are a part of jq. Every other
    filter of jq is refused: its text is not read, or a name in it is undefined.
    All names are checked before a filter runs. -/
def interpret : Interpreter := fun source input =>
  match parse? source with
  | none => .error .unreadable
  | some query =>
    match query.undefinedNames with
    | [] => .ok (query.eval input)
    | names => .error (.undefined names)

/-- Runs a filter of `Query` on a document. -/
def run (source : String) (input : Json) : Except QueryError (List Json) :=
  runWith interpret source input

end Query

end SchemaTypes
