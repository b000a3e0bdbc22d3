import Mathlib.Data.List.Forall2
import SchemaTypes.Proofs.Ty.Union

namespace SchemaTypes

/-- In lists that are related place by place every element has a partner. -/
theorem cover_of_forall₂ {α β : Type} {R : α → β → Prop} {xs : List α} {ys : List β}
    (h : List.Forall₂ R xs ys) : (∀ x ∈ xs, ∃ y ∈ ys, R x y) ∧ ∀ y ∈ ys, ∃ x ∈ xs, R x y := by
  induction h with
  | nil => simp
  | cons hxy _ ih =>
    obtain ⟨hleft, hright⟩ := ih
    simp only [List.mem_cons, forall_eq_or_imp, exists_eq_or_imp]
    exact ⟨⟨.inl hxy, fun x hx => .inr (hleft x hx)⟩, .inl hxy, fun y hy => .inr (hright y hy)⟩

namespace Ty

/-- Two types in normal form that are equal. Both normal forms are kept with the equality,
    so that it can be turned around and chained without naming them again. -/
structure Alike (a b : Ty) : Prop where
  left : a.Normalized
  right : b.Normalized
  same : a.same b = true

namespace Alike

variable {a b c : Ty}

theorem refl (ha : a.Normalized) : a.Alike a := ⟨ha, ha, same_refl ha⟩

theorem symm (h : a.Alike b) : b.Alike a := by
  refine ⟨h.right, h.left, ?_⟩
  rw [same_comm h.right h.left]
  exact h.same

theorem trans (hab : a.Alike b) (hbc : b.Alike c) : a.Alike c :=
  ⟨hab.left, hbc.right, same_trans hab.same hbc.same⟩

end Alike

theorem alike_literal {value other : Json} (hvalue : value.NamesDistinct)
    (hother : other.NamesDistinct) (h : value.sameValue other = true) :
    (literal value).Alike (literal other) := by
  refine ⟨.literal hvalue, .literal hother, ?_⟩
  rw [same]
  exact h

theorem alike_array {a b : Ty} (h : a.Alike b) : (array a).Alike (array b) := by
  refine ⟨.array h.left, .array h.right, ?_⟩
  rw [same]
  exact h.same

theorem isPlain_of_same {a b : Ty} (h : a.same b = true) : a.isPlain = b.isPlain := by
  cases a <;> cases b <;> simp [same, isPlain] at h ⊢

section Alternatives

variable {a b : Ty}

/-- A type in normal form is put together again from its alternatives, exactly as it was. -/
theorem ofMembers_alternatives (ha : a.Normalized) : ofMembers a.alternatives = a := by
  cases a with
  | never => rfl
  | union members =>
    rw [alternatives_union ha]
    cases ha with
    | union htwo =>
      match members with
      | [] => simp at htwo
      | [member] => simp at htwo
      | _ :: _ :: _ => rfl
  | _ => rw [alternatives_of_isPlain rfl, ofMembers]

/-- The alternatives of a type in normal form are pairwise different. Equal ones
    would have been dropped. -/
theorem alternatives_apart (ha : a.Normalized) :
    a.alternatives.Pairwise fun x y => ¬ x.Alike y := by
  cases a with
  | never => exact List.Pairwise.nil
  | union members =>
    rw [alternatives_union ha]
    refine ha.members_apart.imp fun hapart halike => ?_
    have hsame := halike.same
    simp [hapart.1] at hsame
  | _ =>
    rw [alternatives_of_isPlain rfl]
    exact List.pairwise_singleton _ _

/-- Every alternative of the first type is equal to one of the second. -/
def Within (a b : Ty) : Prop := ∀ x ∈ a.alternatives, ∃ y ∈ b.alternatives, x.Alike y

theorem Within.refl (ha : a.Normalized) : a.Within a := by
  intro x hx
  exact ⟨x, hx, .refl (normalized_of_mem_alternatives ha hx).1⟩

theorem Within.trans {c : Ty} (hab : a.Within b) (hbc : b.Within c) : a.Within c := by
  intro x hx
  obtain ⟨y, hy, hxy⟩ := hab x hx
  obtain ⟨z, hz, hyz⟩ := hbc y hy
  exact ⟨z, hz, hxy.trans hyz⟩

theorem Alike.within (h : a.Alike b) : a.Within b := by
  intro x hx
  cases a with
  | never => cases hx
  | union members =>
    cases b with
    | union others =>
      rw [alternatives_union h.left] at hx
      obtain ⟨y, hy, hyx⟩ := (same_union.mp h.same).2 x hx
      have hyx : y.Alike x := ⟨h.right.member hy, h.left.member hx, hyx⟩
      rw [alternatives_union h.right]
      exact ⟨y, hy, hyx.symm⟩
    | _ =>
      have hsame := h.same
      simp [Ty.same] at hsame
  | _ =>
    have hplain : b.isPlain = true := (isPlain_of_same h.same).symm
    rw [alternatives_of_isPlain rfl, List.mem_singleton] at hx
    rw [alternatives_of_isPlain hplain]
    exact ⟨b, List.mem_singleton_self b, hx ▸ h⟩

/-- A type within another has no more alternatives, since two that are different
    have different partners. -/
theorem Within.length_le (ha : a.Normalized) (h : a.Within b) :
    a.alternatives.length ≤ b.alternatives.length := by
  apply length_le_of_cover h
  refine (alternatives_apart ha).imp fun hapart y _ hxy hxy' => ?_
  exact hapart (hxy.trans hxy'.symm)

/-- Two types in normal form are equal if each is within the other. That there are
    as many alternatives on both sides follows, since none of them is repeated. -/
theorem alike_of_within (ha : a.Normalized) (hb : b.Normalized) (hab : a.Within b)
    (hba : b.Within a) : a.Alike b := by
  have hlength := Nat.le_antisymm (hab.length_le ha) (hba.length_le hb)
  refine ⟨ha, hb, ?_⟩
  rw [← ofMembers_alternatives ha, ← ofMembers_alternatives hb]
  unfold Within at hab
  generalize a.alternatives = xs at hab hlength
  generalize b.alternatives = ys at hab hlength
  match xs, ys, hlength with
  | [], [], _ => simp [ofMembers, same]
  | [x], [y], _ =>
    obtain ⟨z, hz, hxz⟩ := hab x List.mem_cons_self
    rw [List.mem_singleton] at hz
    subst hz
    exact hxz.same
  | _ :: _ :: _, _ :: _ :: _, hlength =>
    refine same_union.mpr ⟨hlength, fun x hx => ?_⟩
    obtain ⟨y, hy, hxy⟩ := hab x hx
    exact ⟨y, hy, hxy.symm.same⟩

/-- A type in normal form is determined by the types that it is within. Laws of
    meets and unions are proved through this, without following which of several
    equal members is kept. -/
theorem alike_of_forall_within (ha : a.Normalized) (hb : b.Normalized)
    (h : ∀ t, a.Within t ↔ b.Within t) : a.Alike b :=
  alike_of_within ha hb ((h b).mpr (.refl hb)) ((h a).mp (.refl ha))

end Alternatives

/-- A property that does not tell equal types apart. -/
def RespectsAlike (P : Ty → Prop) : Prop := ∀ ⦃a b : Ty⦄, a.Alike b → P a → P b

theorem respectsAlike_within_alternatives (t : Ty) :
    RespectsAlike fun x => ∃ y ∈ t.alternatives, x.Alike y := by
  rintro a b hab ⟨y, hy, hay⟩
  exact ⟨y, hy, hab.symm.trans hay⟩

section Joins

variable {tys others : List Ty}

/-- The alternatives of a union are those of its types in their order, without
    repetition. -/
theorem alternatives_unionOf (htys : ∀ ty ∈ tys, ty.Normalized) :
    (unionOf tys).alternatives = distinct (tys.flatMap alternatives) := by
  have hnormal := normalized_unionOf htys
  have hmembers : ∀ member ∈ distinct (tys.flatMap alternatives), member.isPlain = true :=
    fun member hmember => (mem_distinct_alternatives htys hmember).2
  rw [unionOf_eq_ofMembers] at hnormal ⊢
  generalize distinct (tys.flatMap alternatives) = members at hnormal hmembers
  match members with
  | [] => rfl
  | [member] => exact alternatives_of_isPlain (hmembers member List.mem_cons_self)
  | _ :: _ :: _ => exact alternatives_union hnormal

/-- The alternatives of a union are those of the types that are joined, as far as a property
    can tell that does not depend on which of several equal types is kept. -/
theorem forall_alternatives_unionOf {P : Ty → Prop} (hP : RespectsAlike P)
    (htys : ∀ ty ∈ tys, ty.Normalized) :
    (∀ x ∈ (unionOf tys).alternatives, P x) ↔ ∀ ty ∈ tys, ∀ x ∈ ty.alternatives, P x := by
  rw [alternatives_unionOf htys]
  constructor
  · intro hkept ty hty x hx
    obtain ⟨k, hk, rfl | hsame⟩ := exists_mem_foldl_keep [] (List.mem_flatMap.mpr ⟨ty, hty, hx⟩)
    · exact hkept k hk
    · have hkx : k.Alike x := ⟨(mem_distinct_alternatives htys hk).1,
        (normalized_of_mem_alternatives (htys ty hty) hx).1, hsame⟩
      exact hP hkx (hkept k hk)
  · intro hall x hx
    rcases mem_foldl_keep hx with hmem | hmem
    · cases hmem
    · obtain ⟨ty, hty, hx⟩ := List.mem_flatMap.mp hmem
      exact hall ty hty x hx

/-- The union of types is the least type that all of them are within. -/
theorem unionOf_within_iff (htys : ∀ ty ∈ tys, ty.Normalized) {t : Ty} :
    (unionOf tys).Within t ↔ ∀ ty ∈ tys, ty.Within t :=
  forall_alternatives_unionOf (respectsAlike_within_alternatives t) htys

theorem within_unionOf_of_mem (htys : ∀ ty ∈ tys, ty.Normalized) {ty : Ty} (hty : ty ∈ tys) :
    ty.Within (unionOf tys) :=
  (unionOf_within_iff htys).mp (.refl (normalized_unionOf htys)) ty hty

/-- Unions of lists that hold the same types, whatever the order and however
    often, are equal. -/
theorem alike_unionOf_of_cover (htys : ∀ ty ∈ tys, ∃ other ∈ others, ty.Alike other)
    (hothers : ∀ other ∈ others, ∃ ty ∈ tys, ty.Alike other) :
    (unionOf tys).Alike (unionOf others) := by
  have hleft : ∀ ty ∈ tys, ty.Normalized := by
    intro ty hty
    obtain ⟨_, _, halike⟩ := htys ty hty
    exact halike.left
  have hright : ∀ other ∈ others, other.Normalized := by
    intro other hother
    obtain ⟨_, _, halike⟩ := hothers other hother
    exact halike.right
  apply alike_of_within (normalized_unionOf hleft) (normalized_unionOf hright)
  · rw [unionOf_within_iff hleft]
    intro ty hty
    obtain ⟨other, hother, halike⟩ := htys ty hty
    exact halike.within.trans (within_unionOf_of_mem hright hother)
  · rw [unionOf_within_iff hright]
    intro other hother
    obtain ⟨ty, hty, halike⟩ := hothers other hother
    exact halike.symm.within.trans (within_unionOf_of_mem hleft hty)

theorem alike_unionOf (h : List.Forall₂ Alike tys others) :
    (unionOf tys).Alike (unionOf others) := by
  obtain ⟨hleft, hright⟩ := cover_of_forall₂ h
  exact alike_unionOf_of_cover hleft hright

end Joins

end Ty

end SchemaTypes
