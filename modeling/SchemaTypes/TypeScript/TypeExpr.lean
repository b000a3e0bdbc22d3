import SchemaTypes.Json.Printer

namespace SchemaTypes

/-- A property in an object type. -/
structure Property (τ : Type) where
  name : String
  readonly : Bool
  optional : Bool
  ty : τ

/-- The types that are written as a single word. -/
inductive Keyword where
  | never
  | value
  | null
  | number
  | string
  | boolean
deriving DecidableEq

def Keyword.text : Keyword → String
  | .never => "never"
  | .value => "Value"
  | .null => "null"
  | .number => "number"
  | .string => "string"
  | .boolean => "boolean"

/-- A TypeScript type expression, of the forms in which types are written. -/
inductive TypeExpr where
  /-- A word. -/
  | keyword (word : Keyword)
  /-- A literal `null`, boolean, number or string. -/
  | scalar (value : Json)
  /-- `readonly [A, B]`. -/
  | tuple (items : List TypeExpr)
  /-- `A[]`. -/
  | arrayOf (item : TypeExpr)
  /-- `Array<A>`. -/
  | genericArray (item : TypeExpr)
  /-- An object type with named properties, such as `a?: A; b: B` in braces. -/
  | object (properties : List (Property TypeExpr))
  /-- The object type in which every name has type `A`, written
      `[K in string]?: A` in braces. -/
  | mapped (ty : TypeExpr)
  /-- `A & B`. -/
  | both (left right : TypeExpr)
  /-- `A | B | C`. -/
  | union (members : List TypeExpr)

/-- What stands around an expression, from the loosest binding to the tightest. -/
inductive Context where
  | union
  | intersection
  | suffix
deriving DecidableEq

namespace TypeExpr

def isNameStart (c : Char) : Bool := c.isAlpha || c == '_' || c == '$'

def isNameChar (c : Char) : Bool := isNameStart c || c.isDigit

/-- Names that are identifiers in ASCII are written bare, all others as quoted text. -/
def nameChars (name : String) : List Char :=
  match name.toList with
  | [] => Json.quotedChars name
  | c :: rest =>
    if isNameStart c && rest.all isNameChar then c :: rest else Json.quotedChars name

def parenthesized (wrap : Bool) (text : List Char) : List Char :=
  if wrap then '(' :: text ++ [')'] else text

def braced (text : List Char) : List Char :=
  ['\x7b', ' '] ++ text ++ [' ', '\x7d']

mutual

/-- The text of an expression. Parentheses are put around an expression that binds
    less tightly than its context. -/
def chars (context : Context) : TypeExpr → List Char
  | .keyword word => word.text.toList
  | .scalar value => value.chars
  | .tuple items =>
    parenthesized (context == .suffix)
      ("readonly [".toList ++ joinChars [',', ' '] (itemChars .union items) ++ [']'])
  | .arrayOf item => item.chars .suffix ++ ['[', ']']
  | .genericArray item => "Array<".toList ++ item.chars .union ++ ['>']
  | .object properties =>
    match propertyChars properties with
    | [] => ['\x7b', '\x7d']
    | parts => braced (joinChars [';', ' '] parts)
  | .mapped ty => braced ("[K in string]?: ".toList ++ ty.chars .union)
  | .both left right =>
    parenthesized (context == .suffix)
      (left.chars .intersection ++ [' ', '&', ' '] ++ right.chars .intersection)
  | .union members =>
    parenthesized (context != .union)
      (joinChars [' ', '|', ' '] (itemChars .intersection members))

def itemChars (context : Context) : List TypeExpr → List (List Char)
  | [] => []
  | item :: rest => item.chars context :: itemChars context rest

def propertyChars : List (Property TypeExpr) → List (List Char)
  | [] => []
  | ⟨name, readonly, optional, ty⟩ :: rest =>
    ((if readonly then "readonly ".toList else []) ++ nameChars name ++
      (if optional then ['?'] else []) ++ [':', ' '] ++ ty.chars .union) :: propertyChars rest

end

def text (expr : TypeExpr) : String := String.ofList (expr.chars .union)

end TypeExpr

end SchemaTypes
