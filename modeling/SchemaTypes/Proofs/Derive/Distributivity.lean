import SchemaTypes.Proofs.Derive.NormalForm
import SchemaTypes.Proofs.Ty.Associativity

namespace SchemaTypes

namespace Ty

section Distributivity

variable {c : Ty} {tys : List Ty}

/-- Whether a meet is within a type depends on its left side up to equality only.
    This lets the union drop equal members before they are met. -/
theorem respectsAlike_meet_within (hc : c.Normalized) (t : Ty) :
    RespectsAlike fun x => (x.meet c).Within t := by
  intro x y hxy hx
  exact (alike_meet hxy (.refl hc)).within_iff.mp hx

/-- The meet distributes over the union. On one side equal types are dropped before they are
    met, and on the other side after that, so that what is kept may be written in another
    way. Both sides are within the same types, which decides it. -/
theorem alike_meet_unionOf (htys : ∀ ty ∈ tys, ty.Normalized) (hc : c.Normalized) :
    ((unionOf tys).meet c).Alike (unionOf (tys.map (·.meet c))) := by
  have hjoin := normalized_unionOf htys
  have hmeets : ∀ ty ∈ tys.map (·.meet c), ty.Normalized := by
    rw [List.forall_mem_map]
    exact fun ty hty => normalized_meet (htys ty hty) hc
  apply alike_of_forall_within (normalized_meet hjoin hc) (normalized_unionOf hmeets)
  intro t
  rw [meet_within_left hjoin hc, unionOf_within_iff hmeets, List.forall_mem_map,
    forall_alternatives_unionOf (respectsAlike_meet_within hc t) htys]
  exact forall₂_congr fun ty hty => (meet_within_left (htys ty hty) hc).symm

end Distributivity

end Ty

namespace Schema

/-- The schema of what conforms to some of the given ones. -/
def oneOf (schemas : List Json) : Json := .obj [("oneOf", .arr schemas)]

/-- The schema of what conforms to all of the given ones. -/
def allOf (schemas : List Json) : Json := .obj [("allOf", .arr schemas)]

variable {schemas : List Json}

/-- A choice among schemas has the union of their types, if all of them are
    objects. A list with anything else in it is no choice. -/
theorem typeWithin_oneOf (h : ∀ schema ∈ schemas, schema.isObj = true) :
    typeWithin none (oneOf schemas) = .unionOf (schemas.map (typeWithin none)) := by
  have hlist : objectList? ([("oneOf", Json.arr schemas)].lookup "oneOf") = some schemas :=
    if_pos (List.all_eq_true.mpr h)
  rw [typeWithin_of_ne_zero (by simp)]
  simp only [oneOf, classify, oneOfShape, hlist]
  rfl

/-- A conjunction of schemas has the meet of their types, under the same condition. -/
theorem typeWithin_allOf (h : ∀ schema ∈ schemas, schema.isObj = true) :
    typeWithin none (allOf schemas) = .meetAll (schemas.map (typeWithin none)) := by
  have hnone : objectList? ([("allOf", Json.arr schemas)].lookup "oneOf") = none := rfl
  have hlist : objectList? ([("allOf", Json.arr schemas)].lookup "allOf") = some schemas :=
    if_pos (List.all_eq_true.mpr h)
  rw [typeWithin_of_ne_zero (by simp)]
  simp only [allOf, classify, oneOfShape, allOfShape, hnone, hlist]
  rfl

theorem typeWithin_allOf_pair {x y : Json} (hx : x.isObj = true) (hy : y.isObj = true) :
    typeWithin none (allOf [x, y]) = (typeWithin none x).meet (typeWithin none y) := by
  rw [typeWithin_allOf (by simp [hx, hy])]
  show (Ty.any.meet _).meet _ = _
  rw [Ty.meet_any_left]

/-- Alternatives that all are to conform to one more schema, each by itself or all
    together, have equal types. The statement on types carries over, since both
    keywords are read as the operations they stand for. -/
theorem alike_typeWithin_distributed {schema : Json} (hschemas : ∀ x ∈ schemas, x.isObj = true)
    (hschema : schema.isObj = true) (hnames : ∀ x ∈ schemas, x.NamesDistinct)
    (hnames' : schema.NamesDistinct) :
    (typeWithin none (allOf [oneOf schemas, schema])).Alike
      (typeWithin none (oneOf (schemas.map fun x => allOf [x, schema]))) := by
  have hpairs : ∀ x ∈ schemas.map (fun x => allOf [x, schema]), x.isObj = true := by
    rw [List.forall_mem_map]
    exact fun _ _ => rfl
  have hparts : (schemas.map fun x => allOf [x, schema]).map (typeWithin none) =
      (schemas.map (typeWithin none)).map (·.meet (typeWithin none schema)) := by
    rw [List.map_map, List.map_map]
    exact List.map_congr_left fun x hx => typeWithin_allOf_pair (hschemas x hx) hschema
  rw [typeWithin_allOf_pair rfl hschema, typeWithin_oneOf hschemas, typeWithin_oneOf hpairs, hparts]
  apply Ty.alike_meet_unionOf
  · rw [List.forall_mem_map]
    exact fun x hx => normalized_typeWithin none (hnames x hx)
  · exact normalized_typeWithin none hnames'

end Schema

/-- Intersection distributes over union, on types and on schemas. On types nothing
    is assumed but normal form, which all types have that can be come by; on
    schemas nothing but that they are objects without repeated names. -/
theorem same_of_distributed {tys : List Ty} {c : Ty} (htys : ∀ ty ∈ tys, ty.Normalized)
    (hc : c.Normalized) {schemas : List Json} {schema : Json}
    (hschemas : ∀ x ∈ schemas, x.isObj = true) (hschema : schema.isObj = true)
    (hnames : ∀ x ∈ schemas, x.NamesDistinct) (hnames' : schema.NamesDistinct) :
    ((Ty.unionOf tys).meet c).same (.unionOf (tys.map (·.meet c))) = true ∧
      (typeOf (Schema.allOf [Schema.oneOf schemas, schema])).same
        (typeOf (Schema.oneOf (schemas.map fun x => Schema.allOf [x, schema]))) = true := by
  rw [typeOf_eq_typeWithin, typeOf_eq_typeWithin]
  exact ⟨(Ty.alike_meet_unionOf htys hc).same,
    (Schema.alike_typeWithin_distributed hschemas hschema hnames hnames').same⟩

/-- A union with an empty, a general, a nested and a repeated member, and alternatives of
    which one says nothing, one fits in part and one occurs twice. -/
theorem same_of_distributed_sizes :
    let tys : List Ty := [.never, .any, .union [.null, .literal (.str "small")], .null]
    let c : Ty := .union [.string, .null]
    let small := Json.obj [("const", .str "small")]
    let schemas := [small, .obj [], .obj [("enum", .arr [.str "large", .num (.int 1)])], small]
    let schema := Json.obj [("type", .str "string")]
    ((Ty.unionOf tys).meet c).same (.unionOf (tys.map (·.meet c))) = true ∧
      (typeOf (Schema.allOf [Schema.oneOf schemas, schema])).same
        (typeOf (Schema.oneOf (schemas.map fun x => Schema.allOf [x, schema]))) = true := by
  intro tys c small schemas schema
  have hunion : (Ty.union [.null, .literal (.str "small")]).Normalized := by
    refine .union (by decide) (by decide) ?_ (by decide +kernel)
    simp [Ty.Normalized.null, Ty.Normalized.literal, Json.NamesDistinct.str]
  have htys : ∀ ty ∈ tys, ty.Normalized := by
    simp only [tys, List.forall_mem_cons, List.not_mem_nil, false_imp_iff, implies_true, and_true]
    exact ⟨.never, .any, hunion, .null⟩
  have hc : c.Normalized := by
    refine .union (by decide) (by decide) ?_ (by decide +kernel)
    simp [Ty.Normalized.null, Ty.Normalized.string]
  apply same_of_distributed htys hc
  · simp [schemas, small, Json.isObj]
  · rfl
  · simp [schemas, small, Entries.names]
  · simp [schema, Entries.names]

end SchemaTypes
