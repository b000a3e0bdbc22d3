import SchemaTypes.Command.Arguments
import SchemaTypes.Command.Run

namespace SchemaTypes

/-- What a program leaves behind when it ends. -/
structure Invocation where
  code : Nat
  space : Workspace

namespace Invocation

def versionText : String := "schema-typeof 0.1.0\n"

def usageText : String :=
  "Usage: schema-typeof [-v]... (ts | json) -i INPUT... [--json-pointer POINTER] [--jq-expr FILTER]\n" ++
  "         [--config FILE] [--max-depth N] [--no-memoize] [-o FILE] [--no-op]\n" ++
  "       schema-typeof ts ... [--type-name NAME]\n" ++
  "       schema-typeof --version\n"

/-- Answers a question about usage, or refuses the words of a command line. -/
def ofUsageError (space : Workspace) : UsageError → Invocation
  | .help => ⟨0, space.print usageText⟩
  | .version => ⟨0, space.print versionText⟩
  | _ => ⟨2, space.printError usageText⟩

/-- Runs the program with the words of a command line. Log lines are shown in
    front of the message of a failure. -/
def ofWords (words : List String) (space : Workspace)
    (jq : Query.Interpreter := Query.interpret) : Invocation :=
  match Command.parse words with
  | .error e => ofUsageError space e
  | .ok command =>
    let (result, space) := command.run space jq
    let space := space.printError (space.shownLog command.verbosity)
    match result with
    | .ok () => ⟨0, space⟩
    | .error failure => ⟨1, space.printError failure.report⟩

end Invocation

end SchemaTypes
