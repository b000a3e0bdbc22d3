import SchemaTypes.Proofs.Ty.Inclusion

namespace SchemaTypes

namespace Ty

section Grouping

/-- A type that would be dropped inside a group is dropped outside it as well, since what
    the group keeps in its place is kept or replaced by an equal type. -/
theorem keep_foldl_keep (kept group : List Ty) (ty : Ty) :
    (keep group ty).foldl keep kept = keep (group.foldl keep kept) ty := by
  obtain ⟨heq, k, hk, hsame⟩ | ⟨heq, _⟩ := keep_cases group ty
  · obtain ⟨found, hfound, hkey⟩ := exists_mem_foldl_keep kept hk
    have hdrop : found.same ty = true := by
      rcases hkey with rfl | hkey
      · exact hsame
      · exact same_trans hkey hsame
    rw [heq, keep, if_pos (List.any_eq_true.mpr ⟨found, hfound, hdrop⟩)]
  · rw [heq, List.foldl_append]
    rfl

/-- Types that are kept as a group, and then among others, are those that are kept
    one by one. -/
theorem foldl_keep_foldl_keep (kept group tys : List Ty) :
    (tys.foldl keep group).foldl keep kept = tys.foldl keep (group.foldl keep kept) := by
  induction tys generalizing group with
  | nil => rfl
  | cons ty tys ih => rw [List.foldl_cons, List.foldl_cons, ih, keep_foldl_keep]

/-- Leaving repetitions out of a group first makes no difference to the whole. -/
theorem distinct_append_distinct (front group back : List Ty) :
    distinct (front ++ distinct group ++ back) = distinct (front ++ group ++ back) := by
  have hgroup : (distinct group).foldl keep (front.foldl keep []) =
      group.foldl keep (front.foldl keep []) := foldl_keep_foldl_keep _ [] group
  show List.foldl keep [] _ = List.foldl keep [] _
  rw [List.foldl_append, List.foldl_append, List.foldl_append, List.foldl_append, hgroup]

variable {front group back : List Ty}

/-- It makes no difference to a union whether some of its members were joined
    before: the same members are kept, in the same order. -/
theorem unionOf_append_unionOf (hgroup : ∀ ty ∈ group, ty.Normalized) :
    unionOf (front ++ [unionOf group] ++ back) = unionOf (front ++ group ++ back) := by
  have hjoined : [unionOf group].flatMap alternatives = distinct (group.flatMap alternatives) := by
    rw [List.flatMap_singleton, alternatives_unionOf hgroup]
  have hkept : distinct ((front ++ [unionOf group] ++ back).flatMap alternatives) =
      distinct ((front ++ group ++ back).flatMap alternatives) := by
    simp only [List.flatMap_append]
    rw [hjoined, distinct_append_distinct]
  rw [unionOf_eq_ofMembers (front ++ group ++ back), ← hkept]
  exact unionOf_eq_ofMembers _

end Grouping

/-- Lists that hold equal types, whatever their order and however often, have
    equal unions. -/
theorem alike_unionOf_of_same {tys others : List Ty} (htys : ∀ ty ∈ tys, ty.Normalized)
    (hothers : ∀ other ∈ others, other.Normalized)
    (hcover : ∀ ty ∈ tys, ∃ other ∈ others, ty.same other = true)
    (hback : ∀ other ∈ others, ∃ ty ∈ tys, other.same ty = true) :
    (unionOf tys).Alike (unionOf others) := by
  apply alike_unionOf_of_cover
  · intro ty hty
    obtain ⟨other, hother, hsame⟩ := hcover ty hty
    exact ⟨other, hother, htys ty hty, hothers other hother, hsame⟩
  · intro other hother
    obtain ⟨ty, hty, hsame⟩ := hback other hother
    have halike : other.Alike ty := ⟨hothers other hother, htys ty hty, hsame⟩
    exact ⟨ty, hty, halike.symm⟩

/-- The union is the join of sets. It holds the values of all its types. A group
    of them may be joined first, which changes nothing at all, not even the order
    of members. Neither the order of the types nor how often each occurs matters,
    up to equality. -/
theorem unionOf_isJoin {xs ys zs : List Ty} (hxs : ∀ ty ∈ xs, ty.Normalized)
    (hys : ∀ ty ∈ ys, ty.Normalized) :
    (∀ v, (unionOf xs).admits v = true ↔ ∃ ty ∈ xs, ty.admits v = true) ∧
      unionOf (xs ++ [unionOf ys] ++ zs) = unionOf (xs ++ ys ++ zs) ∧
      ((∀ x ∈ xs, ∃ y ∈ ys, x.same y = true) → (∀ y ∈ ys, ∃ x ∈ xs, y.same x = true) →
        (unionOf xs).same (unionOf ys) = true) :=
  ⟨fun _ => admits_unionOf hxs, unionOf_append_unionOf hys,
    fun hcover hback => (alike_unionOf_of_same hxs hys hcover hback).same⟩

/-- Three ways to write zero and a union whose members are turned around. Of the
    types behind them only `any` adds something. -/
theorem unionOf_isJoin_zeros :
    let zero (number : Number) : Ty := .literal (.num number)
    let xs : List Ty := [zero (.int 0), .union [.null, .array .string], zero (.float (.zero true))]
    let ys : List Ty := [.union [.array .string, .null], zero (.float (.zero false))]
    let zs : List Ty := [.never, .any, .null]
    (∀ v, (unionOf xs).admits v = true ↔ ∃ ty ∈ xs, ty.admits v = true) ∧
      unionOf (xs ++ [unionOf ys] ++ zs) = unionOf (xs ++ ys ++ zs) ∧
      (unionOf xs).same (unionOf ys) = true := by
  intro zero xs ys zs
  have hpair : (union [.null, .array .string]).Normalized ∧
      (union [.array .string, .null]).Normalized := by
    constructor <;> refine .union (by decide) (by decide) ?_ (by decide +kernel) <;>
      simp [Normalized.null, Normalized.array, Normalized.string]
  have hxs : ∀ ty ∈ xs, ty.Normalized := by
    simp only [xs, List.forall_mem_cons, List.not_mem_nil, false_imp_iff, implies_true, and_true]
    exact ⟨.literal (.num _), hpair.1, .literal (.num _)⟩
  have hys : ∀ ty ∈ ys, ty.Normalized := by
    simp only [ys, List.forall_mem_cons, List.not_mem_nil, false_imp_iff, implies_true, and_true]
    exact ⟨hpair.2, .literal (.num _)⟩
  obtain ⟨hadmits, hgroup, hsame⟩ := @unionOf_isJoin xs ys zs hxs hys
  exact ⟨hadmits, hgroup, hsame (by decide +kernel) (by decide +kernel)⟩

end Ty

end SchemaTypes
