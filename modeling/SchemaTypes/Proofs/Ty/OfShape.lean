import SchemaTypes.Proofs.Schema.Shape
import SchemaTypes.Proofs.Ty.Meet
import SchemaTypes.Ty.OfShape

namespace SchemaTypes

theorem Items.normalized_types {items : Items Ty} (h : ∀ ty ∈ items.nested, ty.Normalized) {ty : Ty}
    (hty : ty ∈ items.types) : ty.Normalized := by
  cases items with
  | absent => exact List.mem_singleton.mp hty ▸ .any
  | single schema => exact h ty hty
  | positional schemas => exact h ty hty

theorem Additional.normalized_type? {additional : Additional Ty}
    (h : ∀ ty ∈ additional.nested, ty.Normalized) {ty : Ty} (hty : ty ∈ additional.type?) :
    ty.Normalized := by
  cases additional with
  | absent => cases hty
  | deny => cases hty
  | allow => exact Option.some.inj hty ▸ .any
  | constrain schema => exact Option.some.inj hty ▸ h schema (by simp [nested])

/-- The types that the items of a list may have, from the schemas of the items and
    the additional one. -/
theorem Shape.normalized_itemTypes {items : Items Ty} {additional : Additional Ty}
    (h : ∀ ty ∈ (Shape.array items additional).nested, ty.Normalized) {ty : Ty}
    (hty : ty ∈ items.types ++ additional.type?.toList) : ty.Normalized := by
  obtain hty | hty := List.mem_append.mp hty
  · exact Items.normalized_types (fun ty hty => h ty (List.mem_append_left _ hty)) hty
  · exact Additional.normalized_type? (fun ty hty => h ty (List.mem_append_right _ hty))
      (Option.mem_toList.mp hty)

namespace Ty

section ObjectFields

variable (properties : List (String × Ty)) (required : List String)

/-- A name has the field of its property, or else, if it is required, a field for
    any value. -/
theorem lookup_objectFields (name : String) :
    (objectFields properties required).lookup name =
      ((properties.lookup name).map fun ty => ⟨ty, !required.contains name⟩).or
        (if name ∈ required then some ⟨.any, false⟩ else none) := by
  rw [objectFields, List.lookup_append,
    Entries.lookup_map fun property => (⟨property.2, !required.contains property.1⟩ : Field Ty),
    Entries.lookup_map_const]
  cases hproperty : properties.lookup name with
  | some ty => rfl
  | none =>
    have hnew := Entries.lookup_eq_none_iff.mp hproperty
    rw [← Entries.has_iff, Bool.not_eq_true] at hnew
    simp [List.mem_filter, hnew]

theorem names_objectFields :
    Entries.names (objectFields properties required) =
      Entries.names properties ++ required.filter fun name => !Entries.has properties name := by
  simp [objectFields, Entries.names, Function.comp_def]

variable {properties required}

/-- What the object type of a schema says of a name: the type of its property,
    nothing but that it is required, or the index. -/
theorem slot_objectFields {index : Option Ty} (name : String) :
    slot (objectFields properties required) index name =
      match properties.lookup name with
      | some ty => some ⟨ty, !required.contains name⟩
      | none => if name ∈ required then some ⟨.any, false⟩ else index.map fun ty => ⟨ty, true⟩ := by
  rw [slot, lookup_objectFields]
  cases properties.lookup name with
  | some ty => rfl
  | none => by_cases hname : name ∈ required <;> simp [hname]

/-- The names that the object type of a schema lists are those of the properties
    and the required ones. -/
theorem mem_names_objectFields {name : String} :
    name ∈ Entries.names (objectFields properties required) ↔
      name ∈ Entries.names properties ∨ name ∈ required := by
  rw [names_objectFields, List.mem_append, List.mem_filter, Bool.not_eq_true', ← Bool.not_eq_true,
    Entries.has_iff]
  by_cases hname : name ∈ Entries.names properties <;> simp [hname]

/-- No name is listed twice, since required names that are properties are not
    added again. -/
theorem nodup_names_objectFields (hproperties : (Entries.names properties).Nodup)
    (hrequired : required.Nodup) : (Entries.names (objectFields properties required)).Nodup := by
  rw [names_objectFields, List.nodup_append]
  refine ⟨hproperties, hrequired.filter _, ?_⟩
  rintro name hname _ hother rfl
  obtain ⟨_, hnew⟩ := List.mem_filter.mp hother
  rw [Entries.has_iff.mpr hname] at hnew
  cases hnew

theorem normalized_of_mem_objectFields (h : ∀ entry ∈ properties, entry.2.Normalized)
    {entry : String × Field Ty} (hentry : entry ∈ objectFields properties required) :
    entry.2.ty.Normalized := by
  obtain hentry | hentry := List.mem_append.mp hentry
  · obtain ⟨property, hproperty, rfl⟩ := List.mem_map.mp hentry
    exact h property hproperty
  · obtain ⟨name, _, rfl⟩ := List.mem_map.mp hentry
    exact .any

end ObjectFields

theorem normalized_literals {values : List Json} (h : ∀ value ∈ values, value.NamesDistinct) :
    ∀ ty ∈ values.map literal, ty.Normalized := by
  intro ty hty
  obtain ⟨value, hvalue, rfl⟩ := List.mem_map.mp hty
  exact .literal (h value hvalue)

/-- The type of a shape is in normal form if the types of its nested schemas are. This is
    one step of the induction over a schema, with a case for each shape. -/
theorem normalized_ofShape {shape : Shape Ty} (hshape : shape.WellFormed)
    (hnested : ∀ ty ∈ shape.nested, ty.Normalized) : (ofShape shape).Normalized := by
  cases shape with
  | absent => exact .any
  | oneOf tys => exact normalized_unionOf hnested
  | allOf tys => exact normalized_meetAll hnested
  | const value => exact .literal hshape
  | enum values => exact normalized_unionOf (normalized_literals hshape)
  | null => exact .null
  | number => exact .number
  | integer => exact .number
  | string => exact .string
  | boolean => exact .boolean
  | array items additional =>
    exact .array (normalized_unionOf fun _ => Shape.normalized_itemTypes hnested)
  | object properties required additional =>
    refine .object (nodup_names_objectFields hshape.1 hshape.2)
      (fun entry => normalized_of_mem_objectFields fun property hproperty => ?_) (fun ty => ?_)
    · exact hnested property.2 (List.mem_append_left _ (List.mem_map_of_mem hproperty))
    · exact Additional.normalized_type? fun ty hty => hnested ty (List.mem_append_right _ hty)
  | unrecognized => exact .any

end Ty

end SchemaTypes
