import SchemaTypes.Ty.Basic

namespace SchemaTypes

namespace Ty

theorem sizeOf_lookup_ty_lt {fields : List (String × Field Ty)} {name : String} {field : Field Ty}
    (h : fields.lookup name = some field) : sizeOf field.ty < sizeOf fields :=
  sizeOf_ty_lt (Entries.mem_of_lookup h)

/-- The type of the values that belong to both types. A union is met member by
    member. An object type has the fields of both, those of the first in front: a
    field that both name has the meet of both types and is optional if both are,
    and a field that only one names is met with the index of the other. -/
def meet : Ty → Ty → Ty
  | .never, _ => .never
  | _, .never => .never
  | .any, b => b
  | a, .any => a
  | .union members, b => unionOf (members.attach.map fun ⟨member, _⟩ => member.meet b)
  | a, .union members => unionOf (members.attach.map fun ⟨member, _⟩ => member.meet a)
  | .literal value, b => if b.admits value then .literal value else .never
  | a, .literal value => if a.admits value then .literal value else .never
  | .array a, .array b => .array (a.meet b)
  | .object as aIndex, .object bs bIndex =>
    .object
      ((as.attach.map fun ⟨a, _⟩ => (a.1,
        match _h : bs.lookup a.1, bIndex with
        | some b, _ => ⟨a.2.ty.meet b.ty, a.2.optional && b.optional⟩
        | none, some index => ⟨a.2.ty.meet index, a.2.optional⟩
        | none, none => a.2)) ++
      (bs.filter fun b => !Entries.has as b.1).attach.map fun ⟨b, _⟩ => (b.1,
        match aIndex with
        | some index => ⟨b.2.ty.meet index, b.2.optional⟩
        | none => b.2))
      (match aIndex, bIndex with
        | some a, some b => some (a.meet b)
        | some a, none => some a
        | none, b => b)
  | a, b => if a.same b then a else .never
termination_by a b => sizeOf a + sizeOf b
decreasing_by
  all_goals simp only [array.sizeOf_spec, object.sizeOf_spec, union.sizeOf_spec,
    Option.some.sizeOf_spec]
  · have := List.sizeOf_lt_of_mem (by assumption)
    omega
  · have := List.sizeOf_lt_of_mem (by assumption)
    omega
  · omega
  · have := sizeOf_ty_lt (by assumption)
    have := sizeOf_lookup_ty_lt (by assumption)
    omega
  · have := sizeOf_ty_lt (by assumption)
    omega
  · have := sizeOf_ty_lt (List.mem_filter.mp (by assumption)).1
    omega
  · omega

theorem meet_never_left (b : Ty) : never.meet b = never := by rw [meet]

/-- The meet of all types, which is `any` if there are none. -/
def meetAll (tys : List Ty) : Ty := tys.foldl meet .any

/-- The meet of the members of a union. -/
def meetMembers (ty : Ty) : Ty := meetAll ty.members

/-- A field with the index of an object type that does not name it. -/
def constrain (field : Field Ty) : Option Ty → Field Ty
  | some index => ⟨field.ty.meet index, field.optional⟩
  | none => field

/-- The field of an object type with what another object type says of the same name. -/
def meetField (name : String) (field : Field Ty) (others : List (String × Field Ty))
    (index : Option Ty) : Field Ty :=
  match others.lookup name with
  | some other => ⟨field.ty.meet other.ty, field.optional && other.optional⟩
  | none => constrain field index

def meetIndex : Option Ty → Option Ty → Option Ty
  | some a, some b => some (a.meet b)
  | some a, none => some a
  | none, b => b

/-- The meet of two object types through functions that do not carry the proofs which the
    recursion needs. Whatever is proved of such a meet starts from this form. -/
theorem meet_object (as bs : List (String × Field Ty)) (aIndex bIndex : Option Ty) :
    (object as aIndex).meet (object bs bIndex) =
      object
        ((as.map fun a => (a.1, meetField a.1 a.2 bs bIndex)) ++
          (bs.filter fun b => !Entries.has as b.1).map fun b => (b.1, constrain b.2 aIndex))
        (meetIndex aIndex bIndex) := by
  rw [meet.eq_def]
  dsimp only
  congr 1
  · congr 1
    · conv => rhs; rw [← List.attach_map_subtype_val as, List.map_map]
      apply List.map_congr_left
      intro a _
      simp only [Function.comp_apply, meetField, constrain]
      split <;> simp [*]
    · conv => rhs; rw [← List.attach_map_subtype_val (bs.filter _), List.map_map]
      apply List.map_congr_left
      intro b _
      simp only [Function.comp_apply, constrain]

end Ty

end SchemaTypes
