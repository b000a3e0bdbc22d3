import SchemaTypes.Command.Basic

namespace SchemaTypes

/-- Why the words of a command line are no command. The first two are questions,
    which are answered. -/
inductive UsageError where
  | help
  | version
  /-- There are no words at all. -/
  | nothing
  | missingSubcommand
  | unknownSubcommand
  | unknownArgument
  | missingInput
  /-- An option without its value, or an empty path. -/
  | missingValue
  | unneededValue
  | malformedValue
  | repeated
deriving DecidableEq

/-- An option that takes a value. -/
inductive Setting where
  | pointer
  | query
  | input
  | config
  | maxDepth
  | typeName
  | out
deriving DecidableEq

/-- An option without a value. -/
inductive Switch where
  | noMemoize
  | noOp
  | verbose
  | help
  | version
deriving DecidableEq

inductive Argument where
  | setting (setting : Setting)
  | switch (switch : Switch)

/-- The options of which an argument is read: those in front of the subcommand, or
    its own. -/
inductive Scope where
  | program
  | typeScript
  | json
deriving DecidableEq

namespace Scope

/-- The option of a long name. Names are not abbreviated. -/
def long? (scope : Scope) (name : String) : Option Argument :=
  match name, scope with
  | "verbose", _ => some (.switch .verbose)
  | "help", _ => some (.switch .help)
  | "version", .program => some (.switch .version)
  | _, .program => none
  | "json-pointer", _ => some (.setting .pointer)
  | "jq-expr", _ => some (.setting .query)
  | "input", _ => some (.setting .input)
  | "config", _ => some (.setting .config)
  | "max-depth", _ => some (.setting .maxDepth)
  | "no-memoize", _ => some (.switch .noMemoize)
  | "type-name", .typeScript => some (.setting .typeName)
  | "out", _ => some (.setting .out)
  | "no-op", _ => some (.switch .noOp)
  | _, _ => none

/-- The option of a letter. -/
def short? (scope : Scope) (letter : Char) : Option Argument :=
  match letter, scope with
  | 'v', _ => some (.switch .verbose)
  | 'h', _ => some (.switch .help)
  | 'V', .program => some (.switch .version)
  | _, .program => none
  | 'i', _ => some (.setting .input)
  | 'o', _ => some (.setting .out)
  | _, _ => none

end Scope

/-- The options that have been read. -/
structure GivenArguments where
  pointer : Option String := none
  query : Option String := none
  paths : List String := []
  config : Option String := none
  maxDepth : Option Nat := none
  typeName : Option String := none
  out : Option String := none
  noMemoize : Bool := false
  noOp : Bool := false
  verbosity : Nat := 0

namespace GivenArguments

/-- The greatest verbosity that is counted. -/
def maxVerbosity : Nat := 255

/-- An option that may be given once. -/
def once {α : Type} (old : Option α) (value : Except UsageError α) :
    Except UsageError (Option α) :=
  match old with
  | some _ => .error .repeated
  | none => value.map some

def switchOnce : Bool → Except UsageError Bool
  | true => .error .repeated
  | false => .ok true

/-- A path, which is not empty. -/
def pathValue (value : String) : Except UsageError String :=
  if value = "" then .error .missingValue else .ok value

/-- The digits of a number, after a plus sign if there is one. -/
def depthDigits (value : String) : List Char :=
  match value.toList with
  | '+' :: digits => digits
  | digits => digits

/-- A number of at most 64 bits. -/
def depthValue (value : String) : Except UsageError Nat :=
  let digits := depthDigits value
  let n := digits.foldl (fun n c => 10 * n + (c.toNat - '0'.toNat)) 0
  if digits ≠ [] ∧ digits.all Char.isDigit ∧ n < 1 <<< 64 then .ok n else .error .malformedValue

/-- Takes an option with its values, of which only `input` has more than one. -/
def set (given : GivenArguments) (setting : Setting) :
    List String → Except UsageError GivenArguments
  | [] => .error .missingValue
  | value :: values =>
    match setting with
    | .input => .ok { given with paths := given.paths ++ value :: values }
    | .pointer => return { given with pointer := ← once given.pointer (.ok value) }
    | .query => return { given with query := ← once given.query (.ok value) }
    | .typeName => return { given with typeName := ← once given.typeName (.ok value) }
    | .config => return { given with config := ← once given.config (pathValue value) }
    | .out => return { given with out := ← once given.out (pathValue value) }
    | .maxDepth => return { given with maxDepth := ← once given.maxDepth (depthValue value) }

/-- Takes a switch. -/
def turn (given : GivenArguments) : Switch → Except UsageError GivenArguments
  | .noMemoize => return { given with noMemoize := ← switchOnce given.noMemoize }
  | .noOp => return { given with noOp := ← switchOnce given.noOp }
  | .verbose => .ok { given with verbosity := min maxVerbosity (given.verbosity + 1) }
  | .help => .error .help
  | .version => .error .version

end GivenArguments

/-- An option with the values read for it so far. -/
structure PendingSetting where
  setting : Setting
  values : List String := []

/-- Whether one more word may be a value. -/
def PendingSetting.takesMore (pending : PendingSetting) : Bool :=
  pending.setting = .input || pending.values.isEmpty

/-- The options that have been read, and the one whose values are being read. Its
    values are checked when the next option is met. -/
structure ArgumentReader where
  given : GivenArguments := {}
  pending : Option PendingSetting := none

namespace ArgumentReader

/-- Takes the pending option. -/
def settle (reader : ArgumentReader) : Except UsageError GivenArguments :=
  match reader.pending with
  | none => .ok reader.given
  | some pending => reader.given.set pending.setting pending.values

/-- Takes a switch. -/
def turn (reader : ArgumentReader) (switch : Switch) : Except UsageError ArgumentReader :=
  return { given := ← (← reader.settle).turn switch }

/-- Takes an option, with its value if that is in the same word. -/
def set (reader : ArgumentReader) (setting : Setting) (attached : Option String) :
    Except UsageError ArgumentReader := do
  let given ← reader.settle
  match attached with
  | some value => return { given := ← given.set setting [value] }
  | none => return { given, pending := some { setting } }

/-- Reads a long option, behind its dashes. -/
def long (reader : ArgumentReader) (scope : Scope) (s : List Char) :
    Except UsageError ArgumentReader :=
  let attached := match s.dropWhile (· ≠ '=') with
    | [] => none
    | _ :: value => some (String.ofList value)
  match scope.long? (String.ofList (s.takeWhile (· ≠ '='))), attached with
  | none, _ => .error .unknownArgument
  | some (.setting setting), _ => reader.set setting attached
  | some (.switch switch), none => reader.turn switch
  | some (.switch _), some _ => .error .unneededValue

/-- Reads letters that stand together behind a dash. What follows the letter of an
    option with a value is the value. -/
def short (reader : ArgumentReader) (scope : Scope) :
    List Char → Except UsageError ArgumentReader
  | [] => .ok reader
  | letter :: rest =>
    match scope.short? letter with
    | none => .error .unknownArgument
    | some (.switch switch) => do short (← reader.turn switch) scope rest
    | some (.setting setting) =>
      match rest with
      | [] => reader.set setting none
      | '=' :: value => reader.set setting (some (String.ofList value))
      | value => reader.set setting (some (String.ofList value))

/-- Reads a word that is no option. -/
def value (reader : ArgumentReader) (word : String) : Except UsageError ArgumentReader :=
  match reader.pending with
  | some pending =>
    if pending.takesMore then
      .ok { reader with pending := some { pending with values := pending.values ++ [word] } }
    else .error .unknownArgument
  | none => .error .unknownArgument

/-- Reads the words behind a subcommand. Two dashes end the options, and nothing
    may follow them. -/
def words (reader : ArgumentReader) (scope : Scope) :
    List String → Except UsageError GivenArguments
  | [] => reader.settle
  | "--" :: [] => reader.settle
  | "--" :: _ :: _ => .error .unknownArgument
  | word :: rest => do
    match word.toList with
    | '-' :: '-' :: name => words (← reader.long scope name) scope rest
    | '-' :: letter :: letters => words (← reader.short scope (letter :: letters)) scope rest
    | _ => words (← reader.value word) scope rest

end ArgumentReader

namespace Command

/-- The command of a subcommand's options. Verbosity given to the subcommand
    replaces what stands in front of it. -/
def ofGiven (verbosity : Nat) (target : Target) (given : GivenArguments) :
    Except UsageError Command :=
  if given.paths = [] then .error .missingInput
  else
    .ok {
      verbosity := if given.verbosity = 0 then verbosity else given.verbosity
      target
      input := { pointer := given.pointer, query := given.query, paths := given.paths }
      derivation :=
        { config := given.config, maxDepth := given.maxDepth, noMemoize := given.noMemoize }
      out := given.out
      noOp := given.noOp }

/-- Reads the words behind the name of a subcommand. -/
def ofSubcommand (verbosity : Nat) (name : String) (words : List String) :
    Except UsageError Command :=
  match name with
  | "ts" => do
    let given ← ({} : ArgumentReader).words .typeScript words
    ofGiven verbosity (.typeScript (given.typeName.getD "Root")) given
  | "json" => do
    let given ← ({} : ArgumentReader).words .json words
    ofGiven verbosity .json given
  | "help" =>
    match words with
    | [] => .error .help
    | [name] => .error (if isSubcommand name then .help else .unknownSubcommand)
    | _ => .error .unknownSubcommand
  | _ => .error .unknownSubcommand
where
  isSubcommand (name : String) : Bool := name = "ts" || name = "json" || name = "help"

/-- Reads the words in front of the subcommand, and then the rest. -/
def ofWords (reader : ArgumentReader) : List String → Except UsageError Command
  | [] => .error (if reader.given.verbosity = 0 then .nothing else .missingSubcommand)
  | "--" :: [] => ofWords reader []
  | "--" :: word :: _ =>
    .error (if ofSubcommand.isSubcommand word then .unknownArgument else .unknownSubcommand)
  | word :: rest => do
    match word.toList with
    | '-' :: '-' :: name => ofWords (← reader.long .program name) rest
    | '-' :: letter :: letters => ofWords (← reader.short .program (letter :: letters)) rest
    | _ => ofSubcommand reader.given.verbosity word rest

/-- Reads the words of a command line. -/
def parse (words : List String) : Except UsageError Command := ofWords {} words

end Command

end SchemaTypes
