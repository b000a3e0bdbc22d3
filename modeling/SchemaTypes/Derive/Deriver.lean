import SchemaTypes.Derive.Options
import SchemaTypes.Json.Printer
import SchemaTypes.Log
import SchemaTypes.Schema.Classify
import SchemaTypes.Ty.OfShape

namespace SchemaTypes

/-- The types found so far, how often one was reused, and the log. -/
structure Memo where
  cache : Entries Ty := []
  hits : Nat := 0
  log : Array LogRecord := #[]

namespace Memo

def note (memo : Memo) (level : Level) (message : String) : Memo :=
  { memo with log := memo.log.push ⟨level, .derivation, message⟩ }

def hit (memo : Memo) : Memo := { memo with hits := memo.hits + 1 }

def remember (memo : Memo) (key : String) (ty : Ty) : Memo :=
  { memo with cache := (key, ty) :: memo.cache }

end Memo

namespace Options

/-- The text under which the type of a nested schema is kept: the text of the
    schema, and in front of it how much deeper schemas may be nested in it, if
    that is limited. -/
def cacheKey (options : Options) (schema : Json) (depth : Nat) : String :=
  match options.remaining depth with
  | some levels => String.ofList (Layout.digits levels ++ ':' :: schema.chars)
  | none => schema.compact

/-- The type of a schema that is nested `depth` deep. Only schemas that may hold
    others are looked up among the types found so far. -/
def resolve (options : Options) (schema : Json) (depth : Nat) : StateM Memo Ty := do
  if options.tooDeep depth then
    modify (·.note .debug s!"schema nested {depth} levels deep; falling back to Value")
    pure .any
  else
    let shape := Schema.classify schema
    modify (·.note .trace s!"depth {depth}: {shape.tag} schema")
    if options.memoize && shape.isComposite then
      let key := options.cacheKey schema depth
      match (← get).cache.lookup key with
      | some ty =>
        modify (·.hit.note .debug s!"cache hit for {shape.tag} schema at depth {depth}")
        pure ty
      | none =>
        let parts ← (Schema.parts schema).mapM fun ⟨part, _⟩ => options.resolve part (depth + 1)
        let ty := Ty.ofShape parts
        modify (·.remember key ty)
        pure ty
    else
      match shape with
      | .unrecognized =>
        modify (·.note .debug "unrecognized schema shape; falling back to Value")
        pure .any
      | _ =>
        let parts ← (Schema.parts schema).mapM fun ⟨part, _⟩ => options.resolve part (depth + 1)
        pure (Ty.ofShape parts)
termination_by sizeOf schema

end Options

/-- A derivation of types that keeps what it has found from one schema to the next. -/
structure Deriver where
  options : Options
  memo : Memo := {}

namespace Deriver

/-- The type of the data that a schema describes. -/
def derive (deriver : Deriver) (schema : Json) : Ty × Deriver :=
  let (ty, memo) := (deriver.options.resolve schema 0).run deriver.memo
  (ty, { deriver with memo })

end Deriver

/-- The type of the data that a schema describes, with the usual settings. -/
def typeOf (schema : Json) : Ty := (({ options := {} } : Deriver).derive schema).1

end SchemaTypes
