import SchemaTypes.Proofs.Derive.NormalForm
import SchemaTypes.Proofs.TypeScript.RoundTrip

namespace SchemaTypes

namespace TypeExpr

mutual

/-- Whether a JSON value belongs to the type that an expression stands for. An object type
    leaves the names free that it does not list, and `&` asks both of its types. -/
def holds : TypeExpr → Json → Bool
  | .keyword .value, _ => true
  | .keyword .null, .null => true
  | .keyword .number, .num _ => true
  | .keyword .string, .str _ => true
  | .keyword .boolean, .bool _ => true
  | .scalar value, v => value.sameValue v
  | .tuple items, .arr values => eachHolds items values
  | .arrayOf item, .arr values => values.all fun v => item.holds v
  | .genericArray item, .arr values => values.all fun v => item.holds v
  | .object properties, .obj entries => propertiesHold properties entries
  | .mapped ty, .obj entries => entries.all fun entry => ty.holds entry.2
  | .both left right, v => left.holds v && right.holds v
  | .union members, v => someHolds members v
  | _, _ => false

/-- The values belong to the types one by one. -/
def eachHolds : List TypeExpr → List Json → Bool
  | [], [] => true
  | item :: items, v :: values => item.holds v && eachHolds items values
  | _, _ => false

/-- Every property holds the entry of its name, or may be missing and is. -/
def propertiesHold : List (Property TypeExpr) → List (String × Json) → Bool
  | [], _ => true
  | ⟨name, _, optional, ty⟩ :: rest, entries =>
    (match entries.lookup name with
      | none => optional
      | some v => ty.holds v) && propertiesHold rest entries

def someHolds : List TypeExpr → Json → Bool
  | [], _ => false
  | member :: rest, v => member.holds v || someHolds rest v

end

/-- Whether a value belongs to the type that a text stands for. -/
def accepts (text : String) (v : Json) : Bool := (parse text).any (·.holds v)

end TypeExpr

/-- Whether a property holds what an object has under its name, which may be nothing. -/
def Property.holds (property : Property TypeExpr) : Option Json → Bool
  | none => property.optional
  | some v => property.ty.holds v

namespace TypeExpr

section Cases

variable {v : Json} {values : List Json} {entries : List (String × Json)}

/-- A tuple holds the lists of its length whose items belong to its types, place
    by place. -/
theorem holds_tuple {items : List TypeExpr} :
    (tuple items).holds (.arr values) = true ↔ items.length = values.length ∧
      ∀ (i : Nat) (item : TypeExpr) (v : Json), items[i]? = some item → values[i]? = some v →
        item.holds v = true := by
  show eachHolds items values = true ↔ _
  induction items generalizing values with
  | nil => cases values <;> simp [eachHolds]
  | cons item items ih =>
    cases values with
    | nil => simp [eachHolds]
    | cons v values =>
      simp only [eachHolds, Bool.and_eq_true, ih, List.length_cons, Nat.add_right_cancel_iff]
      constructor
      · rintro ⟨hhead, hlength, htail⟩
        refine ⟨hlength, fun i item' v' hitem hv => ?_⟩
        cases i with
        | zero => simp_all
        | succ i => exact htail i item' v' (by simpa using hitem) (by simpa using hv)
      · rintro ⟨hlength, hitems⟩
        exact ⟨hitems 0 item v rfl rfl, hlength,
          fun i item' v' hitem hv => hitems (i + 1) item' v' (by simpa using hitem) (by simpa using hv)⟩

theorem holds_arrayOf {item : TypeExpr} :
    (arrayOf item).holds (.arr values) = true ↔ ∀ v ∈ values, item.holds v = true :=
  List.all_eq_true

theorem holds_genericArray {item : TypeExpr} :
    (genericArray item).holds (.arr values) = true ↔ ∀ v ∈ values, item.holds v = true :=
  List.all_eq_true

/-- Properties are looked up by name, and entries that no property names are let through. -/
theorem holds_object {properties : List (Property TypeExpr)} :
    (object properties).holds (.obj entries) = true ↔
      ∀ property ∈ properties, property.holds (entries.lookup property.name) = true := by
  show propertiesHold properties entries = true ↔ _
  induction properties with
  | nil => simp [propertiesHold]
  | cons property properties ih =>
    obtain ⟨name, readonly, optional, ty⟩ := property
    simp only [propertiesHold, Bool.and_eq_true, ih, List.forall_mem_cons]
    cases entries.lookup name <;> simp [Property.holds]

theorem holds_mapped {ty : TypeExpr} :
    (mapped ty).holds (.obj entries) = true ↔ ∀ entry ∈ entries, ty.holds entry.2 = true :=
  List.all_eq_true

theorem holds_both {left right : TypeExpr} :
    (both left right).holds v = true ↔ left.holds v = true ∧ right.holds v = true :=
  Bool.and_eq_true_iff

theorem holds_union {members : List TypeExpr} :
    (union members).holds v = true ↔ ∃ member ∈ members, member.holds v = true := by
  show someHolds members v = true ↔ _
  induction members with
  | nil => simp [someHolds]
  | cons member members ih => simp [someHolds, ih]

end Cases

/-- The type of one value holds the values that are equal to it. An object type
    lets more entries through, so that the converse does not hold. -/
theorem holds_ofLiteral {value v : Json} (h : value.sameValue v = true) :
    (ofLiteral value).holds v = true := by
  induction value generalizing v with
  | null | bool | num | str => exact h
  | arr items ih =>
    cases v with
    | arr values =>
      obtain ⟨hlength, hitems⟩ := Json.sameValue_arr.mp h
      show (tuple (ofLiterals items)).holds (.arr values) = true
      rw [holds_tuple, ofLiterals_eq_map, List.length_map]
      refine ⟨hlength, fun i expr v hexpr hv => ?_⟩
      rw [List.getElem?_map, Option.map_eq_some_iff] at hexpr
      obtain ⟨item, hitem, rfl⟩ := hexpr
      exact ih item (List.mem_of_getElem? hitem) (hitems i item v hitem hv)
    | _ => simp [Json.sameValue, Json.sameBy] at h
  | obj entries ih =>
    cases v with
    | obj others =>
      obtain ⟨_, hentries⟩ := Json.sameValue_obj.mp h
      show (object (ofEntries entries)).holds (.obj others) = true
      rw [holds_object, ofEntries_eq_map, List.forall_mem_map]
      intro entry hentry
      obtain ⟨other, hlookup, hsame⟩ := hentries entry hentry
      rw [hlookup]
      exact ih entry hentry hsame
    | _ => simp [Json.sameValue, Json.sameBy] at h

/-- Beside named properties the type for all names is asked as well, and without
    them it stands alone. -/
theorem holds_ofObject {properties : List (Property TypeExpr)} {index : Option TypeExpr}
    {entries : List (String × Json)} :
    (ofObject properties index).holds (.obj entries) = true ↔
      (∀ property ∈ properties, property.holds (entries.lookup property.name) = true) ∧
        ∀ ty ∈ index, ∀ entry ∈ entries, ty.holds entry.2 = true := by
  cases index with
  | none => simp [ofObject, holds_object]
  | some ty =>
    cases properties with
    | nil => simp [ofObject, holds_mapped]
    | cons property properties =>
      simp only [ofObject, holds_both, holds_object, holds_mapped, Option.mem_def,
        Option.some.injEq, forall_eq']

end TypeExpr

namespace Ty

/-- A value belongs to a type in such a way that wherever an object type has an index, the
    values of all entries belong to the index, also of those that a field names. -/
inductive AdmitsThroughout : Ty → Json → Prop where
  | any (v : Json) : AdmitsThroughout .any v
  | null : AdmitsThroughout .null .null
  | number (n : Number) : AdmitsThroughout .number (.num n)
  | string (text : String) : AdmitsThroughout .string (.str text)
  | boolean (b : Bool) : AdmitsThroughout .boolean (.bool b)
  | literal {value v : Json} (h : value.sameValue v = true) : AdmitsThroughout (.literal value) v
  | array {item : Ty} {values : List Json} (h : ∀ v ∈ values, AdmitsThroughout item v) :
    AdmitsThroughout (.array item) (.arr values)
  | object {fields : List (String × Field Ty)} {index : Option Ty} {entries : List (String × Json)}
      (hmissing : ∀ field ∈ fields, entries.lookup field.1 = none → field.2.optional = true)
      (hfields : ∀ field ∈ fields, ∀ v, entries.lookup field.1 = some v →
        AdmitsThroughout field.2.ty v)
      (hindex : ∀ ty ∈ index, ∀ entry ∈ entries, AdmitsThroughout ty entry.2) :
    AdmitsThroughout (.object fields index) (.obj entries)
  | union {members : List Ty} {member : Ty} {v : Json} (hmember : member ∈ members)
      (h : AdmitsThroughout member v) : AdmitsThroughout (.union members) v

variable {ty : Ty} {v : Json}

/-- Asking the index of all entries is asking more than the type does. -/
theorem AdmitsThroughout.admits (h : ty.AdmitsThroughout v) : ty.admits v = true := by
  induction h with
  | any v => exact admits_any
  | null => rfl
  | number n => rfl
  | string text => rfl
  | boolean b => rfl
  | literal h => rwa [admits_literal]
  | array _ ih => exact admits_array.mpr ih
  | @object fields index entries hmissing _ _ ihfields ihindex =>
    refine admits_object.mpr ⟨fun field hfield => ?_, fun ty hty entry hentry _ => ?_⟩
    case refine_2 => exact ihindex ty hty entry hentry
    cases hlookup : entries.lookup field.1 with
    | none => exact hmissing field hfield hlookup
    | some v => exact ihfields field hfield v hlookup
  | union hmember _ ih => exact admits_union.mpr ⟨_, hmember, ih⟩

/-- The expression of a type holds what the type holds with the index asked throughout. -/
theorem AdmitsThroughout.holds (h : ty.AdmitsThroughout v) : (TypeExpr.ofTy ty).holds v = true := by
  induction h with
  | any v => rfl
  | null => rfl
  | number n => rfl
  | string text => rfl
  | boolean b => rfl
  | literal h => exact TypeExpr.holds_ofLiteral h
  | @array item values _ ih =>
    show (TypeExpr.ofArray item (TypeExpr.ofTy item)).holds (.arr values) = true
    obtain heq | heq := TypeExpr.ofArray_cases item (TypeExpr.ofTy item) <;> rw [heq]
    · exact TypeExpr.holds_genericArray.mpr ih
    · exact TypeExpr.holds_arrayOf.mpr ih
  | @object fields index entries hmissing _ _ ihfields ihindex =>
    have hexpr : TypeExpr.ofTy (.object fields index) =
        TypeExpr.ofObject (TypeExpr.ofFields fields) (index.map TypeExpr.ofTy) := by
      cases index <;> rfl
    rw [hexpr, TypeExpr.holds_ofObject, TypeExpr.ofFields_eq_map, List.forall_mem_map]
    refine ⟨fun field hfield => ?_, fun expr hexpr entry hentry => ?_⟩
    · show Property.holds _ (entries.lookup field.1) = true
      cases hlookup : entries.lookup field.1 with
      | none => exact hmissing field hfield hlookup
      | some v => exact ihfields field hfield v hlookup
    · obtain ⟨ty, hty, rfl⟩ := Option.map_eq_some_iff.mp hexpr
      exact ihindex ty hty entry hentry
  | @union members member v hmember _ ih =>
    show (TypeExpr.union (TypeExpr.ofMembers members)).holds v = true
    rw [TypeExpr.holds_union, TypeExpr.ofMembers_eq_map]
    exact ⟨TypeExpr.ofTy member, List.mem_map_of_mem hmember, ih⟩

end Ty

end SchemaTypes
