import SchemaTypes.Query.Syntax

namespace SchemaTypes

/-- A name that a filter uses and that has no meaning. -/
inductive Undefined where
  | filter (name : String) (args : Nat)
  | variable (name : String)

/-- The line that reports an undefined name of the filter `source`. -/
def Undefined.message (source : String) : Undefined → String
  | .filter name args => s!"undefined `{name}`: Filter({args}) in `{source}`\n"
  | .variable name => s!"undefined `${name}`: Var in `{source}`\n"

namespace Query

/-- The names of filters, with the number of their arguments. -/
def isDefined (name : String) (args : Nat) : Bool :=
  match args with
  | 0 => ["null", "true", "false", "empty", "not", "length", "keys", "to_entries", "error"].contains
      name
  | 1 => ["select", "has", "map", "error"].contains name
  | _ => false

mutual

/-- The undefined names of a filter in the order in which they stand in it. -/
def undefinedNames : Query → List Undefined
  | .identity | .number _ | .text _ => []
  | .variable name => [.variable name]
  | .call name args =>
    (if isDefined name args.length then [] else [.filter name args.length]) ++ undefinedInAll args
  | .negate operand => operand.undefinedNames
  | .attempt body => body.undefinedNames
  | .list body => undefinedInSome body
  | .object entries => undefinedInEntries entries
  | .index base key _ => base.undefinedNames ++ key.undefinedNames
  | .slice base first last _ =>
    base.undefinedNames ++ undefinedInSome first ++ undefinedInSome last
  | .each base _ => base.undefinedNames
  | .ifElse condition yes no =>
    condition.undefinedNames ++ yes.undefinedNames ++ no.undefinedNames
  | .pipe first second => first.undefinedNames ++ second.undefinedNames
  | .comma first second => first.undefinedNames ++ second.undefinedNames
  | .orElse first second => first.undefinedNames ++ second.undefinedNames
  | .equal left right => left.undefinedNames ++ right.undefinedNames
  | .add left right => left.undefinedNames ++ right.undefinedNames
  | .subtract left right => left.undefinedNames ++ right.undefinedNames

def undefinedInAll : List Query → List Undefined
  | [] => []
  | query :: rest => query.undefinedNames ++ undefinedInAll rest

def undefinedInSome : Option Query → List Undefined
  | none => []
  | some query => query.undefinedNames

def undefinedInEntries : List (Query × Query) → List Undefined
  | [] => []
  | (key, value) :: rest => key.undefinedNames ++ value.undefinedNames ++ undefinedInEntries rest

end

end Query

end SchemaTypes
