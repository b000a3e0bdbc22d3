import SchemaTypes.Proofs.Json.Equality
import SchemaTypes.Proofs.Ty.Normal

namespace SchemaTypes

namespace Ty

section Comparison

variable {fields others : List (String × Field Ty)} {index other : Option Ty}

/-- Equality of two entries of object types. -/
def SameField (a b : String × Field Ty) : Prop :=
  b.1 = a.1 ∧ a.2.ty.same b.2.ty = true ∧ a.2.optional = b.2.optional

/-- Object types are equal if they have equally many fields, each field of the
    first has an equal one in the second, and the indices are equal or missing. -/
theorem same_object :
    (object fields index).same (object others other) = true ↔
      fields.length = others.length ∧ (∀ a ∈ fields, ∃ b ∈ others, SameField a b) ∧
        Option.Rel (fun a b => a.same b = true) index other := by
  rw [same.eq_def]
  simp only [Bool.and_eq_true, beq_iff_eq, List.all_eq_true, List.any_eq_true, List.mem_attach,
    true_and, Subtype.exists, Subtype.forall, true_imp_iff, and_assoc, SameField,
    exists_prop]
  cases index <;> cases other <;> simp

/-- Unions are equal if they have equally many members and those of the first are
    all among those of the second. -/
theorem same_union {members others : List Ty} :
    (union members).same (union others) = true ↔
      members.length = others.length ∧ ∀ a ∈ members, ∃ b ∈ others, b.same a = true := by
  rw [same]
  simp [List.all_eq_true, List.any_eq_true]

end Comparison

/-- A type in normal form is equal to itself. Without a normal form a literal with
    a repeated name may not be. -/
theorem same_refl {a : Ty} (ha : a.Normalized) : a.same a = true := by
  induction ha with
  | never | any | null | number | string | boolean => simp [same]
  | literal hvalue => simpa [same] using Json.sameValue_refl hvalue
  | array _ ih => simpa [same] using ih
  | @object fields index _ _ _ ihfields ihindex =>
    refine same_object.mpr ⟨rfl, fun entry hentry => ?_, ?_⟩
    · exact ⟨entry, hentry, rfl, ihfields entry hentry, rfl⟩
    · cases index with
      | none => exact .none
      | some ty => exact .some (ihindex ty rfl)
  | union _ _ _ _ ih =>
    exact same_union.mpr ⟨rfl, fun member hmember => ⟨member, hmember, ih member hmember⟩⟩

/-- Equality is transitive on all types. No normal form is needed: containment of
    one list of members in another composes whatever the lists repeat. -/
theorem same_trans {a b c : Ty} (hab : a.same b = true) (hbc : b.same c = true) :
    a.same c = true := by
  induction b generalizing a c with
  | never | any | null | number | string | boolean =>
    cases a <;> simp [same] at hab
    exact hbc
  | literal value =>
    cases a <;> simp [same] at hab
    cases c <;> simp [same] at hbc
    simpa [same] using Json.sameValue_trans hab hbc
  | array item ih =>
    cases a <;> simp [same] at hab
    cases c <;> simp [same] at hbc
    simpa [same] using ih hab hbc
  | object fields index ihfields ihindex =>
    cases a with
    | object as aIndex =>
      cases c with
      | object cs cIndex =>
        obtain ⟨hlengthAB, hfieldsAB, hindexAB⟩ := same_object.mp hab
        obtain ⟨hlengthBC, hfieldsBC, hindexBC⟩ := same_object.mp hbc
        refine same_object.mpr ⟨hlengthAB.trans hlengthBC, fun x hx => ?_, ?_⟩
        · obtain ⟨y, hy, hname, hty, hoptional⟩ := hfieldsAB x hx
          obtain ⟨z, hz, hname', hty', hoptional'⟩ := hfieldsBC y hy
          exact ⟨z, hz, hname'.trans hname, ihfields y hy hty hty', hoptional.trans hoptional'⟩
        · cases hindexAB with
          | none => exact hindexBC
          | some hx =>
            cases hindexBC with
            | some hy => exact .some (ihindex _ rfl hx hy)
      | _ => simp [same] at hbc
    | _ => simp [same] at hab
  | union members ih =>
    cases a with
    | union as =>
      cases c with
      | union cs =>
        obtain ⟨hlengthAB, hmembersAB⟩ := same_union.mp hab
        obtain ⟨hlengthBC, hmembersBC⟩ := same_union.mp hbc
        refine same_union.mpr ⟨hlengthAB.trans hlengthBC, fun x hx => ?_⟩
        obtain ⟨y, hy, hyx⟩ := hmembersAB x hx
        obtain ⟨z, hz, hzy⟩ := hmembersBC y hy
        exact ⟨z, hz, ih y hy hzy hyx⟩
      | _ => simp [same] at hbc
    | _ => simp [same] at hab

/-- Equality of unions only asks that there are equally many members and that
    those of the first are among those of the second. In normal form no two
    members of the first can be equal to the same member of the second, so none of
    the second is left over. -/
theorem same_comm {a b : Ty} (ha : a.Normalized) (hb : b.Normalized) : a.same b = b.same a := by
  rw [Bool.eq_iff_iff]
  induction a generalizing b with
  | never | any | null | number | string | boolean => cases b <;> simp [same]
  | literal value =>
    cases b with
    | literal other =>
      simp only [same]
      exact ⟨Json.sameValue_symm ha.literal_value hb.literal_value,
        Json.sameValue_symm hb.literal_value ha.literal_value⟩
    | _ => simp [same]
  | array item ih =>
    cases b with
    | array other => simpa only [same] using ih ha.array_item hb.array_item
    | _ => simp [same]
  | object fields index ihfields ihindex =>
    cases b with
    | object others other =>
      have hfield : ∀ x ∈ fields, ∀ y ∈ others, SameField x y ↔ SameField y x := by
        intro x hx y hy
        rw [SameField, SameField, ihfields x hx (ha.field_ty hx) (hb.field_ty hy),
          eq_comm (a := y.1), eq_comm (a := x.2.optional)]
      have hindex : Option.Rel (fun a b => a.same b = true) index other ↔
          Option.Rel (fun a b => a.same b = true) other index := by
        cases index with
        | none => cases other <;> simp
        | some x =>
          cases other with
          | none => simp
          | some y => simpa using ihindex x rfl (ha.index_ty rfl) (hb.index_ty rfl)
      have hfields : (fields.length = others.length ∧ ∀ x ∈ fields, ∃ y ∈ others, SameField x y) ↔
          (others.length = fields.length ∧ ∀ y ∈ others, ∃ x ∈ fields, SameField y x) := by
        apply cover_comm hfield
        · exact (Entries.pairwise_ne ha.field_names).imp fun hne y _ hxy hxy' =>
            hne (hxy.1.symm.trans hxy'.1)
        · exact (Entries.pairwise_ne hb.field_names).imp fun hne x _ hyx hyx' =>
            hne (hyx.1.symm.trans hyx'.1)
      rw [same_object, same_object, hindex, ← and_assoc, ← and_assoc, hfields]
    | _ => simp [same]
  | union members ih =>
    cases b with
    | union others =>
      have hcomm : ∀ x ∈ members, ∀ y ∈ others, x.same y = true ↔ y.same x = true :=
        fun x hx y hy => ih x hx (ha.member hx) (hb.member hy)
      rw [same_union, same_union]
      apply cover_comm (fun x hx y hy => (hcomm x hx y hy).symm)
      · refine List.Pairwise.imp_of_mem (fun {x x'} hx hx' hapart y hy hyx hyx' => ?_) ha.members_apart
        have hsame := same_trans ((hcomm x hx y hy).mpr hyx) hyx'
        simp [hapart.1] at hsame
      · refine List.Pairwise.imp_of_mem (fun {y y'} hy hy' hapart x hx hxy hxy' => ?_) hb.members_apart
        have hsame := same_trans ((hcomm x hx y hy).mp hxy) hxy'
        simp [hapart.1] at hsame
    | _ => simp [same]

/-- Equality is an equivalence relation on the types in normal form. Literals without
    repeated names are needed for a type to be equal to itself, and members without
    repetition for equality of unions to hold in both directions. -/
theorem same_equivalence :
    Equivalence fun a b : { ty : Ty // ty.Normalized } => a.1.same b.1 = true where
  refl a := same_refl a.2
  symm {a b} h := by
    rw [same_comm b.2 a.2]
    exact h
  trans h h' := same_trans h h'

-- A union that repeats a member is equal to one that it does not equal the other way round.
example : (union [.null, .null]).same (.union [.null, .number]) = true ∧
    (union [.null, .number]).same (.union [.null, .null]) = false := by
  decide +kernel

end Ty

end SchemaTypes
