import SchemaTypes.Proofs.Ty.Admission

namespace SchemaTypes

namespace Ty

theorem allAlternatives_eq_flatMap (tys : List Ty) : allAlternatives tys = tys.flatMap alternatives := by
  induction tys with
  | nil => simp [allAlternatives]
  | cons ty tys ih => simp [allAlternatives, ih]

theorem alternatives_of_isPlain {ty : Ty} (h : ty.isPlain = true) : ty.alternatives = [ty] := by
  cases ty <;> first | rfl | simp [isPlain] at h

/-- Taking a type apart keeps its values. -/
theorem admits_iff_alternatives {ty : Ty} {v : Json} :
    ty.admits v = true ↔ ∃ alternative ∈ ty.alternatives, alternative.admits v = true := by
  induction ty with
  | never => simp [alternatives]
  | union members ih =>
    rw [admits_union, alternatives, allAlternatives_eq_flatMap]
    simp only [List.mem_flatMap]
    constructor
    · rintro ⟨member, hmember, hadmits⟩
      obtain ⟨alternative, halternative, hadmits⟩ := (ih member hmember).mp hadmits
      exact ⟨alternative, ⟨member, hmember, halternative⟩, hadmits⟩
    · rintro ⟨alternative, ⟨member, hmember, halternative⟩, hadmits⟩
      exact ⟨member, hmember, (ih member hmember).mpr ⟨alternative, halternative, hadmits⟩⟩
  | _ => simp [alternatives]

/-- A union in normal form has its members for alternatives. -/
theorem alternatives_union {members : List Ty} (h : (union members).Normalized) :
    (union members).alternatives = members := by
  rw [alternatives, allAlternatives_eq_flatMap]
  have heach : ∀ member ∈ members, member.alternatives = [member] :=
    fun member hmember => alternatives_of_isPlain (h.member_plain hmember)
  rw [List.flatMap_def, List.map_congr_left heach, ← List.flatMap_def]
  exact List.flatMap_singleton' members

/-- The alternatives of a type in normal form can stand in a union. -/
theorem normalized_of_mem_alternatives {ty alternative : Ty} (h : ty.Normalized)
    (hmem : alternative ∈ ty.alternatives) :
    alternative.Normalized ∧ alternative.isPlain = true := by
  cases ty with
  | never => simp [alternatives] at hmem
  | union members =>
    rw [alternatives_union h] at hmem
    exact ⟨h.member hmem, h.member_plain hmem⟩
  | _ =>
    rw [alternatives_of_isPlain rfl, List.mem_singleton] at hmem
    subst hmem
    exact ⟨h, rfl⟩

section Distinct

/-- What `distinct` does with one more type. -/
def keep (kept : List Ty) (ty : Ty) : List Ty :=
  if kept.any (·.same ty) then kept else kept ++ [ty]

/-- One more type is dropped if an equal one is kept already, and otherwise is put
    at the end. -/
theorem keep_cases (kept : List Ty) (ty : Ty) :
    (keep kept ty = kept ∧ ∃ k ∈ kept, k.same ty = true) ∨
      (keep kept ty = kept ++ [ty] ∧ ∀ k ∈ kept, k.same ty = false) := by
  unfold keep
  split
  next h => exact .inl ⟨rfl, by simpa using h⟩
  next h => exact .inr ⟨rfl, by simpa using h⟩

theorem mem_foldl_keep {kept tys : List Ty} {ty : Ty} (h : ty ∈ tys.foldl keep kept) :
    ty ∈ kept ∨ ty ∈ tys := by
  induction tys generalizing kept with
  | nil => exact .inl h
  | cons first tys ih =>
    rcases ih h with hkept | hmem
    · obtain ⟨heq, _⟩ | ⟨heq, _⟩ := keep_cases kept first
      · rw [heq] at hkept
        exact .inl hkept
      · rw [heq, List.mem_append, List.mem_singleton] at hkept
        exact hkept.imp_right (by rintro rfl; exact List.mem_cons_self)
    · exact .inr (List.mem_cons_of_mem _ hmem)

theorem subset_foldl_keep {kept : List Ty} (tys : List Ty) {ty : Ty} (h : ty ∈ kept) :
    ty ∈ tys.foldl keep kept := by
  induction tys generalizing kept with
  | nil => exact h
  | cons first tys ih =>
    apply ih
    obtain ⟨heq, _⟩ | ⟨heq, _⟩ := keep_cases kept first
    · rwa [heq]
    · rw [heq]
      exact List.mem_append_left _ h

/-- Every type of a list is kept or has an equal one that is. -/
theorem exists_mem_foldl_keep (kept : List Ty) {tys : List Ty} {ty : Ty} (h : ty ∈ tys) :
    ∃ k ∈ tys.foldl keep kept, k = ty ∨ k.same ty = true := by
  induction tys generalizing kept with
  | nil => cases h
  | cons first tys ih =>
    rcases List.mem_cons.mp h with rfl | hmem
    · obtain ⟨heq, k, hk, hsame⟩ | ⟨heq, _⟩ := keep_cases kept ty
      · exact ⟨k, subset_foldl_keep tys (by rwa [heq]), .inr hsame⟩
      · exact ⟨ty, subset_foldl_keep tys (by simp [heq]), .inl rfl⟩
    · exact ih _ hmem

/-- No type is kept that is equal to an earlier one. -/
theorem pairwise_foldl_keep {kept : List Ty} (tys : List Ty)
    (h : kept.Pairwise fun a b => a.same b = false) :
    (tys.foldl keep kept).Pairwise fun a b => a.same b = false := by
  induction tys generalizing kept with
  | nil => exact h
  | cons first tys ih =>
    apply ih
    obtain ⟨heq, _⟩ | ⟨heq, hnone⟩ := keep_cases kept first
    · rwa [heq]
    · rw [heq, List.pairwise_append]
      refine ⟨h, List.pairwise_singleton _ _, fun k hk last hlast => ?_⟩
      rw [List.mem_singleton.mp hlast]
      exact hnone k hk

end Distinct

/-- The type with the given members, which are not looked into. -/
def ofMembers : List Ty → Ty
  | [] => .never
  | [ty] => ty
  | members => .union members

/-- A union is made in three steps: the types are taken apart, repetitions are
    dropped, and what is left becomes a union, a single type or `never`. -/
theorem unionOf_eq_ofMembers (tys : List Ty) :
    unionOf tys = ofMembers (distinct (tys.flatMap alternatives)) := by
  rw [unionOf, allAlternatives_eq_flatMap]
  rfl

theorem admits_ofMembers {members : List Ty} {v : Json} :
    (ofMembers members).admits v = true ↔ ∃ member ∈ members, member.admits v = true := by
  unfold ofMembers
  split
  · simp
  · simp
  · exact admits_union

theorem mem_distinct_alternatives {tys : List Ty} (htys : ∀ ty ∈ tys, ty.Normalized) {member : Ty}
    (h : member ∈ distinct (tys.flatMap alternatives)) :
    member.Normalized ∧ member.isPlain = true := by
  rcases mem_foldl_keep h with hmem | hmem
  · cases hmem
  · obtain ⟨ty, hty, hmember⟩ := List.mem_flatMap.mp hmem
    exact normalized_of_mem_alternatives (htys ty hty) hmember

/-- A union holds the values of its types. Dropping a member that is equal to an
    earlier one drops no value. -/
theorem admits_unionOf {tys : List Ty} (htys : ∀ ty ∈ tys, ty.Normalized) {v : Json} :
    (unionOf tys).admits v = true ↔ ∃ ty ∈ tys, ty.admits v = true := by
  rw [unionOf_eq_ofMembers, admits_ofMembers]
  constructor
  · rintro ⟨member, hmember, hadmits⟩
    rcases mem_foldl_keep hmember with hmem | hmem
    · cases hmem
    · obtain ⟨ty, hty, halternative⟩ := List.mem_flatMap.mp hmem
      exact ⟨ty, hty, admits_iff_alternatives.mpr ⟨member, halternative, hadmits⟩⟩
  · rintro ⟨ty, hty, hadmits⟩
    obtain ⟨alternative, halternative, hadmits⟩ := admits_iff_alternatives.mp hadmits
    have hmem := List.mem_flatMap.mpr ⟨ty, hty, halternative⟩
    obtain ⟨kept, hkept, rfl | hsame⟩ := exists_mem_foldl_keep [] hmem
    · exact ⟨kept, hkept, hadmits⟩
    · have hnormal := (normalized_of_mem_alternatives (htys ty hty) halternative).1
      have hkeptNormal := (mem_distinct_alternatives htys hkept).1
      rw [same_comm hkeptNormal hnormal] at hsame
      exact ⟨kept, hkept, admits_of_same hnormal hkeptNormal hsame hadmits⟩

/-- A new member is only compared with the ones before it; in normal form that is
    enough for no two members to be equal in either direction. -/
theorem normalized_unionOf {tys : List Ty} (htys : ∀ ty ∈ tys, ty.Normalized) :
    (unionOf tys).Normalized := by
  rw [unionOf_eq_ofMembers]
  have hmembers : ∀ member ∈ distinct (tys.flatMap alternatives),
      member.Normalized ∧ member.isPlain = true := fun _ => mem_distinct_alternatives htys
  have hapart : (distinct (tys.flatMap alternatives)).Pairwise fun a b => a.same b = false :=
    pairwise_foldl_keep _ List.Pairwise.nil
  generalize distinct (tys.flatMap alternatives) = members at hmembers hapart
  unfold ofMembers
  split
  · exact .never
  · exact (hmembers _ (by simp)).1
  · rename_i hnil hsingle
    refine .union ?_ (fun member h => (hmembers member h).2) (fun member h => (hmembers member h).1) ?_
    · match members with
      | [] => exact absurd rfl hnil
      | [ty] => exact absurd rfl (hsingle ty)
      | _ :: _ :: _ => simp
    · refine hapart.imp_of_mem fun {a b} ha hb h => ⟨h, ?_⟩
      rw [same_comm (hmembers b hb).1 (hmembers a ha).1]
      exact h

end Ty

end SchemaTypes
