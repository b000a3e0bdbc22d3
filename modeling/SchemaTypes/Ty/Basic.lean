import SchemaTypes.Json.Basic

namespace SchemaTypes

/-- The type of a named field, and whether the field may be missing. -/
structure Field (τ : Type) where
  ty : τ
  optional : Bool

/-- A set of JSON values, as it is printed: `never` is empty, `any` holds every
    value, and a `literal` holds one. An object type lists fields by name, and its
    index, if it has one, is the type of all other fields. -/
inductive Ty where
  | never
  | any
  | null
  | number
  | string
  | boolean
  | literal (value : Json)
  | array (item : Ty)
  | object (fields : List (String × Field Ty)) (index : Option Ty)
  | union (members : List Ty)

namespace Ty

instance : Inhabited Ty := ⟨.never⟩

/-- The type of a field is smaller than the list of fields, for recursion that
    goes through objects. -/
theorem sizeOf_ty_lt {fields : List (String × Field Ty)} {entry : String × Field Ty}
    (h : entry ∈ fields) : sizeOf entry.2.ty < sizeOf fields := by
  have hmem := List.sizeOf_lt_of_mem h
  obtain ⟨name, ty, optional⟩ := entry
  simp only [Prod.mk.sizeOf_spec, Field.mk.sizeOf_spec] at hmem ⊢
  omega

/-- The members of a union, or the type alone. -/
def members : Ty → List Ty
  | .union members => members
  | ty => [ty]

mutual

/-- Whether `any` occurs in the type. -/
def mentionsAny : Ty → Bool
  | .any => true
  | .array item => item.mentionsAny
  | .object fields none => fieldsMentionAny fields
  | .object fields (some index) => fieldsMentionAny fields || index.mentionsAny
  | .union members => membersMentionAny members
  | _ => false

def fieldsMentionAny : List (String × Field Ty) → Bool
  | [] => false
  | (_, ⟨ty, _⟩) :: rest => ty.mentionsAny || fieldsMentionAny rest

def membersMentionAny : List Ty → Bool
  | [] => false
  | ty :: rest => ty.mentionsAny || membersMentionAny rest

end

mutual

/-- Whether a value belongs to the type. Fields that an object type does not name
    are accepted unless its index rejects them. -/
def admits : Ty → Json → Bool
  | .any, _ => true
  | .null, .null => true
  | .number, .num _ => true
  | .string, .str _ => true
  | .boolean, .bool _ => true
  | .literal value, v => value.sameValue v
  | .array item, .arr values => values.all fun v => item.admits v
  | .object fields none, .obj entries => fieldsAdmit fields entries
  | .object fields (some index), .obj entries =>
    fieldsAdmit fields entries &&
      entries.all fun entry => Entries.has fields entry.1 || index.admits entry.2
  | .union members, v => someAdmits members v
  | _, _ => false

/-- Every field admits the entry of its name, or may be missing and is. -/
def fieldsAdmit : List (String × Field Ty) → List (String × Json) → Bool
  | [], _ => true
  | (name, ⟨ty, optional⟩) :: rest, entries =>
    (match entries.lookup name with
      | none => optional
      | some v => ty.admits v) && fieldsAdmit rest entries

def someAdmits : List Ty → Json → Bool
  | [], _ => false
  | ty :: rest, v => ty.admits v || someAdmits rest v

end

@[simp]
theorem not_admits_never {v : Json} : never.admits v = false := by simp [admits]

@[simp]
theorem admits_any {v : Json} : any.admits v = true := by simp [admits]

/-- Equality of types up to the order of fields and members. Two unions are equal
    if they have the same number of members and each one of the first is among
    those of the second; when members are repeated, this depends on which of the
    two comes first. -/
def same : Ty → Ty → Bool
  | .never, .never => true
  | .any, .any => true
  | .null, .null => true
  | .number, .number => true
  | .string, .string => true
  | .boolean, .boolean => true
  | .literal a, .literal b => a.sameValue b
  | .array a, .array b => a.same b
  | .object fields index, .object others other =>
    fields.length == others.length &&
    (fields.attach.all fun ⟨entry, _⟩ => others.attach.any fun ⟨o, _⟩ =>
      o.1 == entry.1 && (entry.2.ty.same o.2.ty && entry.2.optional == o.2.optional)) &&
    match index, other with
    | none, none => true
    | some a, some b => a.same b
    | _, _ => false
  | .union members, .union others =>
    members.length == others.length &&
    members.attach.all fun ⟨member, _⟩ => others.attach.any fun ⟨o, _⟩ => o.same member
  | _, _ => false
termination_by a b => sizeOf a + sizeOf b
decreasing_by
  all_goals simp only [array.sizeOf_spec, object.sizeOf_spec, union.sizeOf_spec,
    Option.some.sizeOf_spec]
  · omega
  · rename_i hentry ho
    have := sizeOf_ty_lt hentry
    have := sizeOf_ty_lt ho
    omega
  · omega
  · rename_i hmember ho
    have := List.sizeOf_lt_of_mem hmember
    have := List.sizeOf_lt_of_mem ho
    omega

mutual

/-- The members that a type adds to a union: those of a union are taken apart, and
    `never` adds nothing. -/
def alternatives : Ty → List Ty
  | .never => []
  | .union members => allAlternatives members
  | ty => [ty]

def allAlternatives : List Ty → List Ty
  | [] => []
  | ty :: rest => ty.alternatives ++ allAlternatives rest

end

/-- The types that are not equal to one that stands before them. -/
def distinct (tys : List Ty) : List Ty :=
  tys.foldl (fun kept ty => if kept.any (·.same ty) then kept else kept ++ [ty]) []

/-- The union of types, without nested unions and repeated members. A union of no
    members is `never`, and one of a single member is that member. -/
def unionOf (tys : List Ty) : Ty :=
  match distinct (allAlternatives tys) with
  | [] => .never
  | [ty] => ty
  | members => .union members

end Ty

end SchemaTypes
