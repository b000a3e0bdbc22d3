import SchemaTypes.Ty.Basic

namespace SchemaTypes

namespace Ty

def kind (name : String) (rest : List (String × Json)) : Json :=
  .obj (("kind", .str name) :: rest)

mutual

/-- The type as a JSON value: an object whose `kind` says which type it is. -/
def toJson : Ty → Json
  | .never => kind "never" []
  | .any => kind "any" []
  | .null => kind "null" []
  | .number => kind "number" []
  | .string => kind "string" []
  | .boolean => kind "boolean" []
  | .literal value => kind "literal" [("value", value)]
  | .array item => kind "array" [("item", item.toJson)]
  | .object fields none => kind "object" [("fields", .obj (fieldsToJson fields))]
  | .object fields (some index) =>
    kind "object" [("fields", .obj (fieldsToJson fields)), ("index", index.toJson)]
  | .union members => kind "union" [("members", .arr (membersToJson members))]

def fieldsToJson : List (String × Field Ty) → List (String × Json)
  | [] => []
  | (name, ⟨ty, optional⟩) :: rest =>
    (name, .obj [("ty", ty.toJson), ("optional", .bool optional)]) :: fieldsToJson rest

def membersToJson : List Ty → List Json
  | [] => []
  | ty :: rest => ty.toJson :: membersToJson rest

end

end Ty

end SchemaTypes
