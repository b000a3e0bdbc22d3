import SchemaTypes.Schema.Shape
import SchemaTypes.Ty.Meet

namespace SchemaTypes

/-- The types of the first items of a list. A list schema that says nothing of its
    items allows any. -/
def Items.types : Items Ty → List Ty
  | .absent => [.any]
  | .single ty => [ty]
  | .positional tys => tys

/-- The type of what a schema does not name, if it allows anything there. -/
def Additional.type? : Additional Ty → Option Ty
  | .absent | .deny => none
  | .allow => some .any
  | .constrain ty => some ty

namespace Ty

/-- The fields of an object: the properties in order, optional unless required,
    and behind them the required names that no property has. -/
def objectFields (properties : List (String × Ty)) (required : List String) :
    List (String × Field Ty) :=
  (properties.map fun property => (property.1, ⟨property.2, !required.contains property.1⟩)) ++
    (required.filter fun name => !Entries.has properties name).map fun name => (name, ⟨.any, false⟩)

/-- The type of the data a schema describes, from its shape and the types of its
    nested schemas. Positions in a list are not told apart, and neither integers
    from other numbers. -/
def ofShape : Shape Ty → Ty
  | .absent => .any
  | .oneOf tys => unionOf tys
  | .allOf tys => meetAll tys
  | .const value => .literal value
  | .enum values => unionOf (values.map .literal)
  | .null => .null
  | .number => .number
  | .integer => .number
  | .string => .string
  | .boolean => .boolean
  | .array items additional => .array (unionOf (items.types ++ additional.type?.toList))
  | .object properties required additional =>
    .object (objectFields (properties.getD []) required) additional.type?
  | .unrecognized => .any

end Ty

end SchemaTypes
