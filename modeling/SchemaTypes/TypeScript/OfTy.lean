import SchemaTypes.Ty.Basic
import SchemaTypes.TypeScript.TypeExpr

namespace SchemaTypes

namespace TypeExpr

mutual

/-- The type of exactly one JSON value. -/
def ofLiteral : Json → TypeExpr
  | .arr items => .tuple (ofLiterals items)
  | .obj entries => .object (ofEntries entries)
  | value => .scalar value

def ofLiterals : List Json → List TypeExpr
  | [] => []
  | value :: rest => ofLiteral value :: ofLiterals rest

def ofEntries : List (String × Json) → List (Property TypeExpr)
  | [] => []
  | (name, value) :: rest => ⟨name, true, false, ofLiteral value⟩ :: ofEntries rest

end

/-- An object type with named properties and a type for all names. Where both are given they
    are joined, since the named properties lie under the type for all names too. -/
def ofObject : List (Property TypeExpr) → Option TypeExpr → TypeExpr
  | properties, none => .object properties
  | [], some index => .mapped index
  | properties, some index => .both (.object properties) (.mapped index)

/-- A list of a union is written in the generic form. -/
def ofArray : Ty → TypeExpr → TypeExpr
  | .union _, item => .genericArray item
  | _, item => .arrayOf item

mutual

/-- The type expression of a type. -/
def ofTy : Ty → TypeExpr
  | .never => .keyword .never
  | .any => .keyword .value
  | .null => .keyword .null
  | .number => .keyword .number
  | .string => .keyword .string
  | .boolean => .keyword .boolean
  | .literal value => ofLiteral value
  | .array item => ofArray item (ofTy item)
  | .object fields none => ofObject (ofFields fields) none
  | .object fields (some index) => ofObject (ofFields fields) (some (ofTy index))
  | .union members => .union (ofMembers members)

def ofFields : List (String × Field Ty) → List (Property TypeExpr)
  | [] => []
  | (name, ⟨ty, optional⟩) :: rest => ⟨name, false, optional, ofTy ty⟩ :: ofFields rest

def ofMembers : List Ty → List TypeExpr
  | [] => []
  | ty :: rest => ofTy ty :: ofMembers rest

end

end TypeExpr

/-- The type as a TypeScript type expression. -/
def Ty.render (ty : Ty) : String := (TypeExpr.ofTy ty).text

end SchemaTypes
