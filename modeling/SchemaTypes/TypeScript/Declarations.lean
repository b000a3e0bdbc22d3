import SchemaTypes.TypeScript.OfTy

namespace SchemaTypes

/-- The declarations of a TypeScript module, in order, and whether one of them is
    that of `Value`, the name by which the type of all values is written. -/
structure Declarations where
  lines : List String := []
  valueDeclared : Bool := false

namespace Declarations

def valueLine : String :=
  "export type Value = null | number | string | boolean | readonly Value[] | object;"

def typeLine (name : String) (ty : Ty) : String := s!"export type {name} = {ty.render};"

/-- Declares a type. The first one that mentions `Value` is preceded by its declaration. -/
def emit (declarations : Declarations) (name : String) (ty : Ty) : Declarations :=
  if ty.mentionsAny && !declarations.valueDeclared then
    ⟨declarations.lines ++ [valueLine, typeLine name ty], true⟩
  else { declarations with lines := declarations.lines ++ [typeLine name ty] }

def ofList (types : List (String × Ty)) : Declarations :=
  types.foldl (fun declarations type => declarations.emit type.1 type.2) {}

/-- The text of a module: each declaration on a line of its own, with an empty
    line between any two. -/
def text (declarations : Declarations) : String :=
  "\n".intercalate (declarations.lines.map (· ++ "\n"))

end Declarations

end SchemaTypes
