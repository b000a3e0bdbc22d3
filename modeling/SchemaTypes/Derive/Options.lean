namespace SchemaTypes

/-- Settings of a derivation: how deep nested schemas are followed, and whether
    types of nested schemas are kept for reuse. -/
structure Options where
  maxDepth : Option Nat := none
  memoize : Bool := true
deriving DecidableEq

namespace Options

def tooDeep (options : Options) (depth : Nat) : Bool :=
  match options.maxDepth with
  | some limit => limit < depth
  | none => false

/-- How much deeper schemas may be nested below `depth`. -/
def remaining (options : Options) (depth : Nat) : Option Nat :=
  options.maxDepth.map (· - depth)

def describe (options : Options) : String :=
  let depth := match options.maxDepth with
    | some limit => s!"Some({limit})"
    | none => "None"
  s!"DeriveOptions \x7b max_depth: {depth}, memoize: {options.memoize} \x7d"

end Options

end SchemaTypes
