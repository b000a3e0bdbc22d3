import SchemaTypes.Number.Literal

namespace SchemaTypes

/-- A filter in a part of the jq language: paths with slices, iteration and optional marks, literals,
    lists and objects, conditions, pipes, commas, alternatives, equality, sums and differences, and
    the named filters of `Query.isDefined`.

    The rest of jq is left out: recursion (`..`, `recurse`), bindings and patterns (`as`, `reduce`,
    `foreach`, `label`), definitions and modules (`def`, `import`, `include`), assignments (`=`, `|=`,
    `+=` and the like), `and` and `or`, the comparisons other than equality, products, quotients and
    remainders, `try` and `catch`, formats and interpolated strings, and all other named filters
    (`type`, `add`, `with_entries`, `sort_by`, `test` and so on). -/
inductive Query where
  /-- The input. -/
  | identity
  | number (literal : NumberLiteral)
  | text (value : String)
  | variable (name : String)
  /-- A filter by name with its arguments. -/
  | call (name : String) (args : List Query)
  | negate (operand : Query)
  /-- The outputs of a filter without its failures. -/
  | attempt (body : Query)
  /-- The list of all outputs. -/
  | list (body : Option Query)
  | object (entries : List (Query × Query))
  /-- A part of each output of `base`. A failure to find it is dropped if it is
      `optional`. -/
  | index (base key : Query) (optional : Bool)
  | slice (base : Query) (first last : Option Query) (optional : Bool)
  | each (base : Query) (optional : Bool)
  | ifElse (condition yes no : Query)
  | pipe (first second : Query)
  | comma (first second : Query)
  | orElse (first second : Query)
  | equal (left right : Query)
  | add (left right : Query)
  | subtract (left right : Query)

end SchemaTypes
