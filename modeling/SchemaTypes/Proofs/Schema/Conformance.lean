import SchemaTypes.Proofs.Derive.NormalForm

namespace SchemaTypes

/-- What the items of a list are tested by. A list schema that says nothing of its
    items passes all. -/
def Items.tests : Items (Json → Bool) → List (Json → Bool)
  | .absent => [fun _ => true]
  | .single test => [test]
  | .positional tests => tests

namespace Additional

/-- By what else the items of a list are tested. -/
def tests : Additional (Json → Bool) → List (Json → Bool)
  | .absent | .deny => []
  | .allow => [fun _ => true]
  | .constrain test => [test]

/-- Whether a property that is not named may have a value. -/
def passes : Additional (Json → Bool) → Json → Bool
  | .constrain test, v => test v
  | _, _ => true

end Additional

/-- Whether a value has a shape, where every nested schema is given by a test of
    values. An item of a list has to pass any one of the tests for items. -/
def Shape.accepts : Shape (Json → Bool) → Json → Bool
  | .oneOf tests, v => tests.any fun test => test v
  | .allOf tests, v => tests.all fun test => test v
  | .const value, v => value.sameValue v
  | .enum values, v => values.any fun value => value.sameValue v
  | .null, v => v.kind == .null
  | .number, v | .integer, v => v.kind == .number
  | .string, v => v.kind == .string
  | .boolean, v => v.kind == .boolean
  | .array items additional, v =>
    match v with
    | .arr values => values.all fun x => (items.tests ++ additional.tests).any fun test => test x
    | _ => false
  | .object properties required additional, v =>
    match v with
    | .obj entries =>
      (required.all fun name => Entries.has entries name) &&
        entries.all fun entry =>
          match (properties.getD []).lookup entry.1 with
          | some test => test entry.2
          | none => required.contains entry.1 || additional.passes entry.2
    | _ => false
  | .absent, _ | .unrecognized, _ => true

/-- Whether a value conforms to a schema, told from the schema itself. -/
def Schema.conforms (schema : Json) : Json → Bool :=
  ((parts schema).map fun ⟨part, _⟩ => conforms part).accepts
termination_by sizeOf schema

/-- Whether a value conforms to a schema is told by the shape of the schema, with
    a test for each nested schema. -/
theorem Schema.conforms_eq (schema : Json) :
    conforms schema = ((classify schema).map conforms).accepts := by
  rw [conforms, map_parts]

section Exactness

variable {σ : Type} {f : σ → Ty} {g : σ → Json → Bool} {v : Json}

/-- A value belongs to one of the types of the items if it passes one of their tests. Where
    nothing is said of the items, their type is `any` and every value passes. -/
theorem Items.exists_types_iff {items : Items σ}
    (h : ∀ x ∈ items.nested, (f x).admits v = g x v) :
    (∃ ty ∈ (items.map f).types, ty.admits v = true) ↔
      ∃ test ∈ (items.map g).tests, test v = true := by
  cases items with
  | absent => simp [types, map, tests]
  | single schema => simp [types, map, tests, h schema (by simp [nested])]
  | positional schemas =>
    simp only [types, map, tests, List.mem_map, exists_exists_and_eq_and]
    exact exists_congr fun x => and_congr_right fun hx => by rw [h x hx]

theorem Additional.exists_type?_iff {additional : Additional σ}
    (h : ∀ x ∈ additional.nested, (f x).admits v = g x v) :
    (∃ ty ∈ (additional.map f).type?.toList, ty.admits v = true) ↔
      ∃ test ∈ (additional.map g).tests, test v = true := by
  cases additional with
  | constrain schema => simp [type?, map, tests, h schema (by simp [nested])]
  | _ => simp [type?, map, tests]

/-- For objects the additional schema is asked of the names that are not listed. A schema
    that refuses such names has no type for them either, and does not test them. -/
theorem Additional.forall_type?_iff {additional : Additional σ}
    (h : ∀ x ∈ additional.nested, (f x).admits v = g x v) :
    (∀ ty ∈ (additional.map f).type?, ty.admits v = true) ↔
      (additional.map g).passes v = true := by
  cases additional with
  | constrain schema => simp [type?, map, passes, h schema (by simp [nested])]
  | _ => simp [type?, map, passes]

namespace Ty

variable {properties : List (String × Ty)} {required : List String} {index : Option Ty}
  {entries : List (String × Json)}

/-- What an object type made from a schema says of the objects that it admits: the
    required names are there, and each entry belongs to its property or, where
    none has its name and it is not required, to the index. -/
theorem admits_object_objectFields (hproperties : (Entries.names properties).Nodup)
    (hrequired : required.Nodup) (hentries : (Entries.names entries).Nodup) :
    (object (objectFields properties required) index).admits (.obj entries) = true ↔
      (∀ name ∈ required, name ∈ Entries.names entries) ∧
        ∀ entry ∈ entries,
          match properties.lookup entry.1 with
          | some ty => ty.admits entry.2 = true
          | none => entry.1 ∈ required ∨ ∀ ty ∈ index, ty.admits entry.2 = true := by
  rw [admits_object_iff_slot (nodup_names_objectFields hproperties hrequired) hentries]
  constructor
  · intro hslot
    refine ⟨fun name hname => ?_, fun entry hentry => ?_⟩
    · -- A required name has a field that may not be missing, whether or not it is a property.
      by_contra hmissing
      have hfield := hslot name
      rw [slot_objectFields, Entries.lookup_eq_none_iff.mpr hmissing] at hfield
      cases hproperty : properties.lookup name <;> simp [hproperty, hname, Field.admits] at hfield
    · have hfield := hslot entry.1
      rw [slot_objectFields, (Entries.lookup_eq_some_iff hentries).mpr hentry] at hfield
      cases hproperty : properties.lookup entry.1 with
      | some ty => simpa [hproperty, Field.admits] using hfield
      | none =>
        by_cases hname : entry.1 ∈ required
        · exact .inl hname
        · refine .inr fun ty hty => ?_
          simpa [hproperty, hname, Option.mem_def.mp hty, Field.admits] using hfield
  · rintro ⟨hpresent, hvalues⟩ name field hfield
    rw [slot_objectFields] at hfield
    cases hvalue : entries.lookup name with
    | none =>
      have hname : name ∉ required :=
        fun hname => Entries.lookup_eq_none_iff.mp hvalue (hpresent name hname)
      cases hproperty : properties.lookup name with
      | some ty =>
        obtain rfl : ⟨ty, !required.contains name⟩ = field := by simpa [hproperty] using hfield
        simpa [Field.admits] using hname
      | none =>
        obtain ⟨ty, _, rfl⟩ : ∃ ty, index = some ty ∧ ⟨ty, true⟩ = field := by
          simpa [hproperty, hname] using hfield
        rfl
    | some v =>
      have hconforms := hvalues (name, v) (Entries.mem_of_lookup hvalue)
      cases hproperty : properties.lookup name with
      | some ty =>
        obtain rfl : ⟨ty, !required.contains name⟩ = field := by simpa [hproperty] using hfield
        simpa [hproperty, Field.admits] using hconforms
      | none =>
        by_cases hname : name ∈ required
        · obtain rfl : ⟨.any, false⟩ = field := by simpa [hproperty, hname] using hfield
          exact admits_any (v := v)
        · obtain ⟨ty, hty, rfl⟩ : ∃ ty, index = some ty ∧ ⟨ty, true⟩ = field := by
            simpa [hproperty, hname] using hfield
          simp only [hproperty, hname, false_or] at hconforms
          exact hconforms ty hty

/-- The type of a shape admits the values that have the shape, if the types of its
    nested schemas admit the values that pass their tests. One step of the
    induction over a schema, with a case for each form that schemas have. -/
theorem admits_ofShape {shape : Shape σ} (hshape : shape.WellFormed)
    (hnested : ∀ x ∈ shape.nested, (f x).Normalized)
    (htests : ∀ x ∈ shape.nested, ∀ v : Json, v.NamesDistinct → (f x).admits v = g x v)
    (hv : v.NamesDistinct) : (ofShape (shape.map f)).admits v = (shape.map g).accepts v := by
  have hshape' := hshape.map f
  have hnested' : ∀ ty ∈ (shape.map f).nested, ty.Normalized := by
    simpa [Shape.nested_map] using hnested
  rw [Bool.eq_iff_iff]
  cases shape with
  | absent => simp [ofShape, Shape.map, Shape.accepts]
  | unrecognized => simp [ofShape, Shape.map, Shape.accepts]
  | oneOf schemas =>
    simp only [Shape.map, Shape.nested] at hnested'
    simp only [Shape.map, Shape.accepts, List.any_map, List.any_eq_true, Function.comp_apply]
    rw [ofShape, admits_unionOf hnested']
    simp only [List.mem_map, exists_exists_and_eq_and]
    exact exists_congr fun x => and_congr_right fun hx => by rw [htests x hx v hv]
  | allOf schemas =>
    simp only [Shape.map, Shape.nested] at hnested'
    simp only [Shape.map, Shape.accepts, List.all_map, List.all_eq_true, Function.comp_apply]
    rw [ofShape, admits_meetAll hnested' hv]
    simp only [List.mem_map, forall_exists_index, and_imp, forall_apply_eq_imp_iff₂]
    exact forall₂_congr fun x hx => by rw [htests x hx v hv]
  | const value => simp [ofShape, Shape.map, Shape.accepts, admits_literal]
  | enum values =>
    simp [ofShape, Shape.map, Shape.accepts, admits_unionOf (normalized_literals hshape),
      admits_literal]
  | array items additional =>
    cases v with
    | arr values =>
      simp only [Shape.map, Shape.accepts, List.all_eq_true, List.any_eq_true]
      rw [ofShape, admits_array]
      refine forall₂_congr fun x hx => ?_
      rw [admits_unionOf fun _ => Shape.normalized_itemTypes hnested']
      simp only [List.mem_append, or_and_right, exists_or]
      rw [Items.exists_types_iff fun y hy => htests y (List.mem_append_left _ hy) x (hv.item hx),
        Additional.exists_type?_iff fun y hy =>
          htests y (List.mem_append_right _ hy) x (hv.item hx)]
    | _ => simp [ofShape, Shape.map, Shape.accepts, admits]
  | object properties required additional =>
    cases v with
    | obj entries =>
      simp only [Shape.map, Shape.accepts, Bool.and_eq_true, List.all_eq_true, Entries.has_iff]
      rw [ofShape, admits_object_objectFields hshape'.1 hshape'.2 hv.names]
      refine and_congr_right fun _ => forall₂_congr fun entry hentry => ?_
      rw [Shape.lookup_map_properties, Shape.lookup_map_properties]
      cases hproperty : (properties.getD []).lookup entry.1 with
      | some x =>
        have hx := List.mem_map_of_mem (f := (·.2)) (Entries.mem_of_lookup hproperty)
        simp only [Option.map_some]
        rw [htests x (List.mem_append_left _ hx) entry.2 (hv.entry hentry)]
      | none =>
        simp only [Option.map_none, Bool.or_eq_true, List.contains_iff_mem]
        rw [Additional.forall_type?_iff fun y hy =>
          htests y (List.mem_append_right _ hy) entry.2 (hv.entry hentry)]
    | _ => simp [ofShape, Shape.map, Shape.accepts, admits]
  | _ => cases v <;> simp [ofShape, Shape.map, Shape.accepts, admits, Json.kind]

end Ty

end Exactness

/-- The type derived without a limit admits the values that conform to the schema.
    The induction is on the schema and the schemas nested in it. -/
theorem Schema.admits_typeWithin_none {schema v : Json} (hschema : schema.NamesDistinct)
    (hv : v.NamesDistinct) : (typeWithin none schema).admits v = conforms schema v := by
  induction schema using partInduction generalizing v with
  | step schema ih =>
    have hpartNames : ∀ part ∈ (classify schema).nested, part.NamesDistinct :=
      fun part hpart => hschema.of_below (below_of_mem_nested hpart)
    rw [typeWithin_of_ne_zero (by simp), conforms_eq]
    apply Ty.admits_ofShape (wellFormed_classify hschema) _ _ hv
    · intro part hpart
      exact normalized_typeWithin none (hpartNames part hpart)
    · intro part hpart v hv
      exact ih part hpart (hpartNames part hpart) hv

/-- The derivation is exact: the type of a schema, whatever form the schema has, admits the
    values that conform to it and no other. What conforms is told from the schema alone, by
    its keywords and its nested schemas. Names are distinct in the schema and in the value,
    as they are in all documents that were read. -/
theorem typeOf_admits_eq_conforms {schema v : Json} (hschema : schema.NamesDistinct)
    (hv : v.NamesDistinct) : (typeOf schema).admits v = Schema.conforms schema v := by
  rw [typeOf_eq_typeWithin]
  exact Schema.admits_typeWithin_none hschema hv

/-- A size that is limited by both parts of a schema, to one of two values by the
    first and to a number by the second. A value is refused that fits the first
    part only, and one without a size. -/
theorem typeOf_admits_eq_conforms_sized_note :
    let schema : Json := .obj [("allOf", .arr [
      .obj [("type", .str "object"), ("required", .arr [.str "size"]),
        ("properties", .obj [("size", .obj [("enum", .arr [.num (.int 1), .str "large"])])])],
      .obj [("type", .str "object"), ("additionalProperties",
        .obj [("oneOf", .arr [.obj [("type", .str "number")], .obj [("type", .str "null")]])])]])]
    (typeOf schema).admits (.obj [("note", .null), ("size", .num (.int 1))]) = true ∧
      (typeOf schema).admits (.obj [("note", .null), ("size", .str "large")]) = false ∧
      (typeOf schema).admits (.obj [("note", .null)]) = false := by
  intro schema
  have hschema : schema.NamesDistinct := by simp [schema, Entries.names]
  refine ⟨?_, ?_, ?_⟩
  all_goals
    rw [typeOf_admits_eq_conforms hschema (by simp [Entries.names])]
    decide +kernel

end SchemaTypes
