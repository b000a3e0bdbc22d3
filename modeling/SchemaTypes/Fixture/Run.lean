import SchemaTypes.Derive.Deriver
import SchemaTypes.Files.Glob
import SchemaTypes.Fixture.Basic
import SchemaTypes.TypeScript.OfTy

namespace SchemaTypes

/-- Why fixtures cannot be checked. -/
inductive FixtureFailure where
  | badPattern (pattern : String) (cause : PatternError)
  /-- The directory of the fixtures, or one on the way to it, cannot be listed. -/
  | unlisted (directory : String) (cause : GlobError)
  | unreadable (path : String) (cause : FileError)
  | badFixture (path text : String) (cause : FixtureError)

namespace FixtureFailure

def context : FixtureFailure → String
  | .badPattern pattern _ => s!"bad fixture pattern {pattern}"
  | .unlisted directory _ => s!"failed to list {directory}"
  | .unreadable path _ => s!"failed to read {path}"
  | .badFixture path _ _ => s!"bad fixture {path}"

def cause : FixtureFailure → String
  | .badPattern _ cause => cause.message
  | .unlisted _ cause => cause.message
  | .unreadable _ cause => cause.message
  | .badFixture _ text cause => cause.message text

/-- The failure with what caused it, set in by four columns. -/
def report (failure : FixtureFailure) : String :=
  let cause := "\n    ".intercalate (failure.cause.splitOn "\n")
  s!"Error: {failure.context}\n\nCaused by:\n    {cause}\n"

end FixtureFailure

/-- How many fixtures passed and failed, and what was told of them. -/
structure FixtureTally where
  passed : Nat := 0
  failed : Nat := 0
  text : String := ""

namespace FixtureTally

/-- Checks a fixture of the file at `path`. -/
def check (tally : FixtureTally) (path : String) (fixture : Fixture) : FixtureTally :=
  let actual := (typeOf fixture.schema).render
  if actual = fixture.typescript then
    { tally with passed := tally.passed + 1, text := tally.text ++ s!"✅ pass {fixture.name}\n" }
  else
    { tally with
      failed := tally.failed + 1
      text := tally.text ++ s!"❌ fail {fixture.name} ({path})\n" ++
        s!"   expected: {fixture.typescript}\n   actual:   {actual}\n" }

/-- Checks all fixtures of a file. -/
def checkFile (tally : FixtureTally) (files : FileTree) (path : String) :
    Except FixtureFailure FixtureTally :=
  match files.readText path with
  | .error e => .error (.unreadable path e)
  | .ok text =>
    match Fixture.parse text with
    | .error e => .error (.badFixture path text e)
    | .ok fixtures => .ok (fixtures.foldl (fun tally fixture => tally.check path fixture) tally)

/-- Checks files up to the first that cannot be checked. -/
def checkFiles (tally : FixtureTally) (files : FileTree) :
    List String → FixtureTally × Option FixtureFailure
  | [] => (tally, none)
  | path :: paths =>
    match tally.checkFile files path with
    | .error failure => (tally, some failure)
    | .ok tally => tally.checkFiles files paths

end FixtureTally

namespace Route

/-- Points come before other names. -/
def nameRank (name : String) : Nat :=
  if name = "." then 0 else if name = ".." then 1 else 2

def namesLe : List String → List String → Bool
  | [], _ => true
  | _ :: _, [] => false
  | a :: as, b :: bs =>
    if a = b then namesLe as bs
    else nameRank a < nameRank b || (nameRank a == nameRank b && decide (a < b))

/-- The order of paths, name by name. Those that start at the root come first. -/
def le (a b : Route) : Bool :=
  if a.absolute = b.absolute then namesLe a.names b.names else a.absolute

end Route

/-- The end of a check of fixtures: whether all is well, and what was told. -/
structure FixtureReport where
  success : Bool
  text : String

/-- Checks the fixtures in the JSON files of a directory, in the order of their paths. -/
def checkFixtures (files : FileTree) (directory : String) : FixtureReport :=
  let pattern := directory ++ "/*.json"
  match files.glob pattern with
  | .error (.malformed e) => ⟨false, (FixtureFailure.badPattern pattern e).report⟩
  | .error e => ⟨false, (FixtureFailure.unlisted directory e).report⟩
  | .ok paths =>
    let sorted := paths.mergeSort fun a b => (Route.ofText a).le (.ofText b)
    match ({} : FixtureTally).checkFiles files sorted with
    | (tally, some failure) => ⟨false, tally.text ++ failure.report⟩
    | (tally, none) =>
      ⟨tally.failed = 0,
        tally.text ++ s!"—— {tally.passed} passed, {tally.failed} failed ——\n"⟩

end SchemaTypes
