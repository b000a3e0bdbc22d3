import SchemaTypes.Proofs.Json.Basic

namespace SchemaTypes

namespace Ty

/-- Induction over a type and all types inside it. The fields and members of a type come as
    lists, for which the generated principle would ask for motives of their own. -/
@[elab_as_elim, induction_eliminator]
theorem nestedInduction {motive : Ty → Prop} (never : motive .never) (any : motive .any)
    (null : motive .null) (number : motive .number) (string : motive .string)
    (boolean : motive .boolean) (literal : ∀ value, motive (.literal value))
    (array : ∀ item, motive item → motive (.array item))
    (object : ∀ fields index, (∀ entry ∈ fields, motive entry.2.ty) → (∀ ty ∈ index, motive ty) →
      motive (.object fields index))
    (union : ∀ members, (∀ member ∈ members, motive member) → motive (.union members)) :
    ∀ ty, motive ty
  | .never => never
  | .any => any
  | .null => null
  | .number => number
  | .string => string
  | .boolean => boolean
  | .literal value => literal value
  | .array item => array item
      (nestedInduction never any null number string boolean literal array object union item)
  | .object fields index => object fields index
      (fun entry _ => nestedInduction never any null number string boolean literal array object union
        entry.2.ty)
      (fun ty _ => nestedInduction never any null number string boolean literal array object union
        ty)
  | .union members => union members fun member _ =>
      nestedInduction never any null number string boolean literal array object union member
termination_by ty => sizeOf ty
decreasing_by
  · simp
  · have := sizeOf_ty_lt (by assumption)
    simp only [Ty.object.sizeOf_spec]
    omega
  · rename_i hty
    rw [Option.mem_def] at hty
    subst hty
    simp only [Ty.object.sizeOf_spec, Option.some.sizeOf_spec]
    omega
  · have := List.sizeOf_lt_of_mem (by assumption)
    simp only [Ty.union.sizeOf_spec]
    omega

/-- A type stands in another at any depth, or is that type itself. -/
inductive Inside (ty : Ty) : Ty → Prop where
  | self : Inside ty ty
  | item {item : Ty} (h : Inside ty item) : Inside ty (.array item)
  | field {fields : List (String × Field Ty)} {index : Option Ty} {entry : String × Field Ty}
      (hentry : entry ∈ fields) (h : Inside ty entry.2.ty) : Inside ty (.object fields index)
  | index {fields : List (String × Field Ty)} {index : Option Ty} {rest : Ty} (hrest : rest ∈ index)
      (h : Inside ty rest) : Inside ty (.object fields index)
  | member {members : List Ty} {member : Ty} (hmember : member ∈ members) (h : Inside ty member) :
    Inside ty (.union members)

theorem Inside.trans {a b c : Ty} (hab : Inside a b) (hbc : Inside b c) : Inside a c := by
  induction hbc with
  | self => exact hab
  | item _ ih => exact .item ih
  | field hentry _ ih => exact .field hentry ih
  | index hrest _ ih => exact .index hrest ih
  | member hmember _ ih => exact .member hmember ih

/-- A type that may stand in a union: it is neither `never` nor a union itself. -/
def isPlain : Ty → Bool
  | .never | .union _ => false
  | _ => true

/-- The kind of values that a type holds, if it is given by a kind alone or by
    what is inside values of one kind. -/
def kind? : Ty → Option Kind
  | .null => some .null
  | .boolean => some .boolean
  | .number => some .number
  | .string => some .string
  | .array _ => some .array
  | .object _ _ => some .object
  | _ => none

/-- A type of one kind is neither `never` nor a union. -/
theorem isPlain_of_kind {ty : Ty} {kind : Kind} (h : ty.kind? = some kind) : ty.isPlain = true := by
  cases ty <;> simp [kind?, isPlain] at h ⊢

/-- The form that unions are kept in. Every union anywhere in the type has at
    least two members, all of them plain, and no two of them are equal. Names are
    distinct wherever they stand, as they are in a map. -/
inductive Normalized : Ty → Prop where
  | never : Normalized .never
  | any : Normalized .any
  | null : Normalized .null
  | number : Normalized .number
  | string : Normalized .string
  | boolean : Normalized .boolean
  | literal {value : Json} (hvalue : value.NamesDistinct) : Normalized (.literal value)
  | array {item : Ty} (hitem : Normalized item) : Normalized (.array item)
  | object {fields : List (String × Field Ty)} {index : Option Ty}
      (hnames : (Entries.names fields).Nodup) (hfields : ∀ entry ∈ fields, Normalized entry.2.ty)
      (hindex : ∀ ty ∈ index, Normalized ty) : Normalized (.object fields index)
  | union {members : List Ty} (htwo : 2 ≤ members.length)
      (hplain : ∀ member ∈ members, member.isPlain = true)
      (hmembers : ∀ member ∈ members, Normalized member)
      (hapart : members.Pairwise fun a b => a.same b = false ∧ b.same a = false) :
      Normalized (.union members)

section Inversion

variable {fields : List (String × Field Ty)} {index : Option Ty} {members : List Ty} {ty : Ty}

theorem Normalized.literal_value {value : Json} (h : (Ty.literal value).Normalized) :
    value.NamesDistinct := by
  cases h with
  | literal hvalue => exact hvalue

theorem Normalized.array_item (h : (Ty.array ty).Normalized) : ty.Normalized := by
  cases h with
  | array hitem => exact hitem

theorem Normalized.field_names (h : (Ty.object fields index).Normalized) :
    (Entries.names fields).Nodup := by
  cases h with
  | object hnames _ _ => exact hnames

theorem Normalized.field_ty (h : (Ty.object fields index).Normalized) {entry : String × Field Ty}
    (hentry : entry ∈ fields) : entry.2.ty.Normalized := by
  cases h with
  | object _ hfields _ => exact hfields entry hentry

theorem Normalized.index_ty (h : (Ty.object fields index).Normalized) (hty : ty ∈ index) :
    ty.Normalized := by
  cases h with
  | object _ _ hindex => exact hindex ty hty

theorem Normalized.member (h : (Ty.union members).Normalized) (hty : ty ∈ members) :
    ty.Normalized := by
  cases h with
  | union _ _ hmembers _ => exact hmembers ty hty

theorem Normalized.member_plain (h : (Ty.union members).Normalized) (hty : ty ∈ members) :
    ty.isPlain = true := by
  cases h with
  | union _ hplain _ _ => exact hplain ty hty

/-- No two members of a union are equal, in whichever order they are compared. -/
theorem Normalized.members_apart (h : (Ty.union members).Normalized) :
    members.Pairwise fun a b => a.same b = false ∧ b.same a = false := by
  cases h with
  | union _ _ _ hapart => exact hapart

end Inversion

end Ty

end SchemaTypes
