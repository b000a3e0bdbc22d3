import SchemaTypes.Proofs.Derive.Cache
import SchemaTypes.Proofs.Ty.OfShape

namespace SchemaTypes

/-- The type of a schema is in normal form, whatever form the schema has and
    however many levels of it are followed. What is used of the schema is only
    that names are distinct, which makes those of fields distinct; unions are put
    into normal form by the operations that build them. -/
theorem Schema.normalized_typeWithin (levels : Option Nat) {schema : Json}
    (h : schema.NamesDistinct) : (typeWithin levels schema).Normalized := by
  induction schema using partInduction generalizing levels with
  | step schema ih =>
    by_cases hlevels : levels = some 0
    · rw [typeWithin, if_pos hlevels]
      exact .any
    · rw [typeWithin_of_ne_zero hlevels]
      refine Ty.normalized_ofShape ((wellFormed_classify h).map _) fun ty hty => ?_
      rw [Shape.nested_map] at hty
      obtain ⟨part, hpart, rfl⟩ := List.mem_map.mp hty
      exact ih part hpart _ (h.of_below (below_of_mem_nested hpart))

/-- The derivations that can be come by: a new one, and one that has been used. -/
inductive Deriver.Reachable : Deriver → Prop where
  | new (options : Options) : Reachable { options }
  | derive {deriver : Deriver} (hderiver : Reachable deriver) (schema : Json) :
    Reachable (deriver.derive schema).2

/-- Every derivation that has come about by deriving types has a cache that is
    right, so that it gives the types that a new one would. -/
theorem Deriver.Reachable.sound {deriver : Deriver} (h : deriver.Reachable) : deriver.Sound := by
  induction h with
  | new options => exact sound_new options
  | derive _ schema ih => exact ih.derive schema

namespace Ty

/-- The types that can be come by: those that are derived from schemas or put
    together by joining and meeting types, and all that can be built from these
    without writing a union down. -/
inductive Obtainable : Ty → Prop where
  | never : Obtainable .never
  | any : Obtainable .any
  | null : Obtainable .null
  | number : Obtainable .number
  | string : Obtainable .string
  | boolean : Obtainable .boolean
  | literal {value : Json} (hvalue : value.NamesDistinct) : Obtainable (.literal value)
  | array {item : Ty} (hitem : Obtainable item) : Obtainable (.array item)
  | object {fields : List (String × Field Ty)} {index : Option Ty}
      (hnames : (Entries.names fields).Nodup) (hfields : ∀ entry ∈ fields, Obtainable entry.2.ty)
      (hindex : ∀ ty ∈ index, Obtainable ty) : Obtainable (.object fields index)
  | derived {deriver : Deriver} {schema : Json} (hderiver : deriver.Reachable)
      (hschema : schema.NamesDistinct) : Obtainable (deriver.derive schema).1
  | unionOf {tys : List Ty} (htys : ∀ ty ∈ tys, Obtainable ty) : Obtainable (unionOf tys)
  | meet {a b : Ty} (ha : Obtainable a) (hb : Obtainable b) : Obtainable (a.meet b)
  | meetAll {tys : List Ty} (htys : ∀ ty ∈ tys, Obtainable ty) : Obtainable (meetAll tys)
  | meetMembers {ty : Ty} (hty : Obtainable ty) : Obtainable (meetMembers ty)

/-- Every type that can be come by is in normal form: those that are derived,
    under any options and after any other schema, those that are joined and met,
    and those that are built from such types. -/
theorem normalized_of_obtainable {ty : Ty} (h : ty.Obtainable) : ty.Normalized := by
  induction h with
  | never => exact .never
  | any => exact .any
  | null => exact .null
  | number => exact .number
  | string => exact .string
  | boolean => exact .boolean
  | literal hvalue => exact .literal hvalue
  | array _ ih => exact .array ih
  | object hnames _ _ ihfields ihindex => exact .object hnames ihfields ihindex
  | derived hderiver hschema =>
    rw [Deriver.derive_eq hderiver.sound]
    exact Schema.normalized_typeWithin _ hschema
  | unionOf _ ih => exact normalized_unionOf ih
  | meet _ _ iha ihb => exact normalized_meet iha ihb
  | meetAll _ ih => exact normalized_meetAll ih
  | meetMembers _ ih => exact normalized_meetAll fun _ => ih.of_mem_members

/-- The meet of a union with a type that a used derivation gives for another schema. -/
theorem normalized_of_obtainable_meet_derived :
    ((unionOf [.null, .array .string, .null]).meet
      ((({ options := ⟨some 3, true⟩ } : Deriver).derive (.obj [("oneOf", .arr [])])).2.derive
        (.obj [("enum", .arr [.null, .str "a", .null])])).1).Normalized := by
  apply normalized_of_obtainable
  refine .meet (.unionOf ?_) (.derived (.derive (.new _) _) (by simp [Entries.names]))
  simp only [List.forall_mem_cons, List.not_mem_nil, false_imp_iff, implies_true, and_true]
  exact ⟨.null, .array .string, .null⟩

end Ty

end SchemaTypes
