import SchemaTypes.Json.Reader

namespace SchemaTypes

/-- A schema with the TypeScript type that it should have. -/
structure Fixture where
  name : String
  schema : Json
  typescript : String

namespace Fixture

/-- A fixture is an object with exactly these three entries, or the list of their values. -/
def ofJson? : Json → Option Fixture
  | .arr [.str name, schema, .str typescript] => some ⟨name, schema.lastWins, typescript⟩
  | .obj entries =>
    if entries.length ≠ 3 then none
    else
      match entries.lookup "name", entries.lookup "schema", entries.lookup "typescript" with
      | some (.str name), some schema, some (.str typescript) =>
        some ⟨name, schema.lastWins, typescript⟩
      | _, _, _ => none
  | _ => none

/-- The fixtures of a file, which holds a list of them or a single one. -/
def listOfJson? (value : Json) : Option (List Fixture) :=
  let single := (ofJson? value).map fun fixture => [fixture]
  match value with
  | .arr items => (items.mapM ofJson?).or single
  | _ => single

end Fixture

/-- Why a text holds no fixtures. -/
inductive FixtureError where
  | malformed (cause : ReadError)
  | unfit

def FixtureError.message (text : String) : FixtureError → String
  | .malformed cause => s!"at JSON path {pathText cause.path} → {cause.message text}"
  | .unfit => "at JSON path . → data did not match any variant of untagged enum FixtureFile"

/-- Reads the fixtures in the first value of a text. What follows that value is
    not looked at. -/
def Fixture.parse (text : String) : Except FixtureError (List Fixture) :=
  match Json.readFirst text with
  | .error e => .error (.malformed e)
  | .ok (value, _) =>
    match listOfJson? value with
    | some fixtures => .ok fixtures
    | none => .error .unfit

end SchemaTypes
