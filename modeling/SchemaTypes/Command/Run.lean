import SchemaTypes.Command.Echo
import SchemaTypes.Command.Workspace
import SchemaTypes.Derive.Deriver
import SchemaTypes.Json.Pointer
import SchemaTypes.Ty.View
import SchemaTypes.TypeScript.Declarations

namespace SchemaTypes

open Work

/-- A schema, and where it was found. -/
structure LoadedSchema where
  origin : String
  schema : Json

namespace DeriveSettings

/-- The options in a file. -/
def readOptions (path : String) : Work Options := do
  let text ← readFile path
  let options ← orFail (.badOptions path text) (Options.parse text)
  note .info .options s!"loaded derive options from {path}: {options.describe}"
  return options

/-- The options of the file, if there is one, as changed by the settings. -/
def options (settings : DeriveSettings) : Work Options := do
  let options ← match settings.config with
    | some path => readOptions path
    | none => pure {}
  return {
    maxDepth := settings.maxDepth.or options.maxDepth
    memoize := options.memoize && !settings.noMemoize }

end DeriveSettings

namespace InputSettings

/-- Whether a text is a pattern and not a path. -/
def isPattern (text : String) : Bool :=
  text.toList.any fun c => c == '*' || c == '?' || c == '[' || c == '\x7b'

/-- The paths that a text stands for. A pattern must fit at least one. -/
def pathsOf (files : FileTree) (text : String) : Except Failure (List String) :=
  if isPattern text then
    match files.glob text with
    | .error e => .error (.badPattern e)
    | .ok [] => .error (.noMatch text)
    | .ok paths => .ok paths
  else .ok [text]

/-- Whether a path is the dash that stands for standard input. -/
def isStandardInput (path : String) : Bool := (Route.ofText path).same ⟨false, ["-"]⟩

/-- The text at a path, or that of standard input. -/
def readSource (path : String) : Work String := do
  if isStandardInput path then orFail (.unreadable path) (← takeInput)
  else readFile path

/-- The part of a document that is looked at. -/
def select (settings : InputSettings) (origin : String) (document : Json) : Work Json :=
  match settings.pointer with
  | none => pure document
  | some pointer =>
    match document.pointer? pointer with
    | some part => pure part
    | none => throw (.missing pointer origin)

/-- The schemas in a document: the document itself, or each output of the filter. -/
def schemasIn (settings : InputSettings) (jq : Query.Interpreter) (origin : String)
    (document : Json) : Work (List LoadedSchema) :=
  match settings.query with
  | none => return [⟨origin, document⟩]
  | some source => do
    let outputs ← orFail (.badQuery origin source) (Query.runWith jq source document)
    note .debug .query s!"jq `{source}` produced {outputs.length} document(s)"
    return outputs.zipIdx.map fun (schema, i) => ⟨s!"{origin}#{i}", schema⟩

/-- The schemas that are found at a path. -/
def loadPath (settings : InputSettings) (jq : Query.Interpreter) (path : String) :
    Work (List LoadedSchema) := do
  let text ← readSource path
  let document ← orFail (.malformed path text) (Json.parse text)
  settings.schemasIn jq path (← settings.select path document)

/-- All schemas, in the order of the paths. Every pattern is expanded before a
    document is read. -/
def load (settings : InputSettings) (jq : Query.Interpreter) : Work (List LoadedSchema) := do
  let paths ← settings.paths.mapM fun text => do orFail id (pathsOf (← get).files text)
  let schemas ← paths.flatten.mapM (settings.loadPath jq)
  note .info .commandLine s!"loaded {schemas.flatten.length} schema(s)"
  return schemas.flatten

end InputSettings

/-- The type of a schema. Nothing is kept for the next one. -/
def LoadedSchema.derive (options : Options) (loaded : LoadedSchema) : Work Ty := do
  let (ty, deriver) := ({ options } : Deriver).derive loaded.schema
  modify fun space => { space with log := space.log ++ deriver.memo.log }
  note .debug .commandLine s!"derived {loaded.origin} ({deriver.memo.hits} cache hits)"
  return ty

namespace Target

/-- The name under which each type is declared: the given one if there is one
    type, and numbered from one otherwise. -/
def named (typeName : String) : List Ty → List (String × Ty)
  | [ty] => [(typeName, ty)]
  | types => types.zipIdx.map fun (ty, i) => (s!"{typeName}{i + 1}", ty)

/-- The list of types, each with its origin. -/
def view (types : List (String × Ty)) : Json :=
  .arr (types.map fun (origin, ty) => .obj [("origin", .str origin), ("type", ty.toJson)])

/-- The text for the types that were found at the given origins. -/
def text (target : Target) (types : List (String × Ty)) : String :=
  match target with
  | .typeScript typeName => (Declarations.ofList (named typeName (types.map (·.2)))).text
  | .json => (view types).pretty

end Target

namespace Command

/-- The text that a command makes of the schemas it finds. -/
def compose (command : Command) (jq : Query.Interpreter) : Work String := do
  let options ← command.derivation.options
  let schemas ← command.input.load jq
  let types ← schemas.mapM fun loaded => return (loaded.origin, ← loaded.derive options)
  return command.target.text types

/-- All that a command does. Nothing is written before all is derived. -/
def perform (command : Command) (jq : Query.Interpreter) : Work Unit := do
  if command.noOp then modify (·.printError (command.outline.text ++ "\n"))
  else deliver command.out (← command.compose jq)

/-- Runs a command with an interpreter for its filter. -/
def run (command : Command) (space : Workspace) (jq : Query.Interpreter := Query.interpret) :
    Except Failure Unit × Workspace :=
  (command.perform jq).run space

end Command

end SchemaTypes
