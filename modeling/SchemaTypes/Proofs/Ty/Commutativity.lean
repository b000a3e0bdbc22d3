import SchemaTypes.Proofs.Ty.Slots

namespace SchemaTypes

namespace Ty

/-- Equal types are within the same types. -/
theorem Alike.within_iff {a b t : Ty} (h : a.Alike b) : a.Within t ↔ b.Within t :=
  ⟨fun hat => h.symm.within.trans hat, fun hbt => h.within.trans hbt⟩

theorem mem_alternatives_of_isPlain {a x : Ty} (h : a.isPlain = true) :
    x ∈ a.alternatives ↔ x = a := by
  rw [alternatives_of_isPlain h, List.mem_singleton]

theorem forall_alternatives_of_isPlain {P : Ty → Prop} {a : Ty} (h : a.isPlain = true) :
    (∀ x ∈ a.alternatives, P x) ↔ P a := by
  simp only [mem_alternatives_of_isPlain h, forall_eq]

section Alternatives

variable {a b t : Ty} {members : List Ty}

/-- The meet takes its first type apart, whatever the second is. The second may be
    a union as well, and is not looked into here. -/
theorem forall_alternatives_meet {P : Ty → Prop} (hP : RespectsAlike P) (ha : a.Normalized)
    (hb : b.Normalized) :
    (∀ x ∈ (a.meet b).alternatives, P x) ↔
      ∀ x ∈ a.alternatives, ∀ y ∈ (x.meet b).alternatives, P y := by
  cases a with
  | never => simp [meet_never_left, alternatives]
  | union members =>
    rw [alternatives_union ha]
    by_cases hnever : b = never
    · simp [hnever, meet_never_right, alternatives]
    by_cases hany : b = any
    · subst hany
      simp only [meet_any_right]
      rw [alternatives_union ha]
      refine forall₂_congr fun x hx => ?_
      rw [forall_alternatives_of_isPlain (ha.member_plain hx)]
    · have hnormal : ∀ ty ∈ members.map (·.meet b), ty.Normalized := by
        rw [List.forall_mem_map]
        exact fun member hmember => normalized_meet (ha.member hmember) hb
      rw [meet_union_left hnever hany, forall_alternatives_unionOf hP hnormal, List.forall_mem_map]
  | _ =>
    exact (forall_alternatives_of_isPlain (P := fun x => ∀ y ∈ (x.meet b).alternatives, P y) rfl).symm

theorem meet_within_left (ha : a.Normalized) (hb : b.Normalized) :
    (a.meet b).Within t ↔ ∀ x ∈ a.alternatives, (x.meet b).Within t :=
  forall_alternatives_meet (respectsAlike_within_alternatives t) ha hb

/-- A union on the right is taken apart as well, but against the order of the two
    types. This is why commutativity is needed before more can be said. -/
theorem meet_union_within (ha : a.Normalized) (hplain : a.isPlain = true)
    (hb : (union members).Normalized) :
    (a.meet (union members)).Within t ↔ ∀ y ∈ members, (y.meet a).Within t := by
  by_cases hany : a = any
  · subst hany
    simp only [meet_any_left, meet_any_right]
    rw [Within, alternatives_union hb]
    refine forall₂_congr fun y hy => ?_
    rw [Within, forall_alternatives_of_isPlain (hb.member_plain hy)]
  · have hnormal : ∀ ty ∈ members.map (·.meet a), ty.Normalized := by
      rw [List.forall_mem_map]
      exact fun member hmember => normalized_meet (hb.member hmember) ha
    rw [meet_union_right hplain hany, unionOf_within_iff hnormal, List.forall_mem_map]

/-- The meet of two types is made up of the meets of their alternatives, if for
    these it does not matter which comes first. -/
theorem meet_within_of_comm (ha : a.Normalized) (hb : b.Normalized)
    (hcomm : ∀ x ∈ a.alternatives, ∀ y ∈ b.alternatives, (x.meet y).Alike (y.meet x)) :
    (a.meet b).Within t ↔ ∀ x ∈ a.alternatives, ∀ y ∈ b.alternatives, (x.meet y).Within t := by
  rw [meet_within_left ha hb]
  refine forall₂_congr fun x hx => ?_
  obtain ⟨hnormal, hplain⟩ := normalized_of_mem_alternatives ha hx
  cases b with
  | never => simp [meet_never_right, Within, alternatives]
  | union members =>
    rw [alternatives_union hb] at hcomm ⊢
    rw [meet_union_within hnormal hplain hb]
    exact forall₂_congr fun y hy => (hcomm x hx y hy).symm.within_iff
  | _ => rw [forall_alternatives_of_isPlain rfl]

/-- For commutativity only alternatives have to be looked at. -/
theorem alike_meet_swap_of_alternatives (ha : a.Normalized) (hb : b.Normalized)
    (hcomm : ∀ x ∈ a.alternatives, ∀ y ∈ b.alternatives, (x.meet y).Alike (y.meet x)) :
    (a.meet b).Alike (b.meet a) := by
  apply alike_of_forall_within (normalized_meet ha hb) (normalized_meet hb ha)
  intro t
  rw [meet_within_of_comm ha hb hcomm,
    meet_within_of_comm hb ha fun y hy x hx => (hcomm x hx y hy).symm]
  constructor
  · intro hwithin y hy x hx
    exact (hcomm x hx y hy).within_iff.mp (hwithin x hx y hy)
  · intro hwithin x hx y hy
    exact (hcomm x hx y hy).within_iff.mpr (hwithin y hy x hx)

end Alternatives

section Commutativity

variable {as bs : List (String × Field Ty)} {aIndex bIndex : Option Ty}

/-- What two object types say of a name does not depend on their order, if the
    meet of the two types does not. -/
theorem meetSlot_swap {s t : Option (Field Ty)} (hs : ∀ f ∈ s, f.ty.Normalized)
    (ht : ∀ g ∈ t, g.ty.Normalized)
    (hcomm : ∀ f ∈ s, ∀ g ∈ t, (f.ty.meet g.ty).Alike (g.ty.meet f.ty)) :
    SlotAlike (meetSlot s t) (meetSlot t s) := by
  cases s with
  | none => cases t <;> exact .refl ht
  | some f =>
    cases t with
    | none => exact .refl hs
    | some g => exact .some ⟨hcomm f rfl g rfl, Bool.and_comm _ _⟩

/-- The meet of two object types lists the names of the first in front. In the
    other order the same names are listed, and the same is said of each. -/
theorem alike_object_meet_swap (ha : (object as aIndex).Normalized)
    (hb : (object bs bIndex).Normalized)
    (hboth : ∀ x ∈ as, ∀ y ∈ bs, (x.2.ty.meet y.2.ty).Alike (y.2.ty.meet x.2.ty))
    (hindex : ∀ s ∈ aIndex, ∀ t ∈ bIndex, (s.meet t).Alike (t.meet s)) :
    ((object as aIndex).meet (object bs bIndex)).Alike
      ((object bs bIndex).meet (object as aIndex)) := by
  have hab := normalized_meet ha hb
  have hba := normalized_meet hb ha
  rw [meet_object_eq] at hab hba
  have hrest : SlotAlike (meetSlot (rest aIndex) (rest bIndex))
      (meetSlot (rest bIndex) (rest aIndex)) := by
    apply meetSlot_swap (forall_mem_rest fun _ => ha.index_ty) (forall_mem_rest fun _ => hb.index_ty)
    exact forall_mem_rest fun s hs => forall_mem_rest (hindex s hs)
  rw [meet_object_eq, meet_object_eq, alike_object_iff hab hba]
  refine ⟨fun name => ?_, fun name => ?_, ?_⟩
  · rw [mem_names_meetFields, mem_names_meetFields, or_comm]
  · have hrefl : SlotAlike (slot (meetFields as aIndex bs bIndex) (meetIndex aIndex bIndex) name)
        (slot (meetFields as aIndex bs bIndex) (meetIndex aIndex bIndex) name) :=
      .refl (normalized_of_mem_slot hab name)
    rw [slot_meetFields] at hrefl
    rw [slot_meetFields, slot_meetFields]
    cases hf : as.lookup name with
    | none =>
      cases hg : bs.lookup name with
      | none => exact hrest
      | some g =>
        rw [hf, hg] at hrefl
        exact hrefl
    | some f =>
      cases hg : bs.lookup name with
      | none =>
        rw [hf, hg] at hrefl
        exact hrefl
      | some g =>
        exact .some ⟨hboth _ (Entries.mem_of_lookup hf) _ (Entries.mem_of_lookup hg),
          Bool.and_comm _ _⟩
  · rw [rest_meetIndex, rest_meetIndex]
    exact hrest

/-- Of two literals the first is kept, which may be written in another way than
    the second. -/
theorem alike_literal_meet_swap {value : Json} {b : Ty} (ha : (literal value).Normalized)
    (hb : b.Normalized) (hplain : b.isPlain = true) (hany : b ≠ any) :
    ((literal value).meet b).Alike (b.meet (literal value)) := by
  have hnormal := normalized_meet ha hb
  rw [meet_literal_left hplain hany] at hnormal ⊢
  cases hkind : b.kind? with
  | some kind =>
    rw [meet_literal_right hkind]
    exact .refl hnormal
  | none =>
    cases b with
    | literal other =>
      rw [meet_literal_left rfl (by simp), admits_literal, admits_literal]
      have hsymm : other.sameValue value = value.sameValue other := by
        rw [Bool.eq_iff_iff]
        exact ⟨Json.sameValue_symm hb.literal_value ha.literal_value,
          Json.sameValue_symm ha.literal_value hb.literal_value⟩
      rw [hsymm]
      by_cases hsame : value.sameValue other = true
      · rw [if_pos hsame, if_pos hsame]
        exact alike_literal ha.literal_value hb.literal_value hsame
      · rw [if_neg hsame, if_neg hsame]
        exact .refl .never
    | _ => simp [kind?, isPlain] at hkind hplain hany

/-- It does not matter which of two alternatives comes first. The induction is along the
    recursion of the meet, and only objects and lists go on with what is inside. -/
theorem alternatives_meet_swap {a b : Ty} (ha : a.Normalized) (hb : b.Normalized) :
    ∀ x ∈ a.alternatives, ∀ y ∈ b.alternatives, (x.meet y).Alike (y.meet x) := by
  induction a, b using meetInduction with
  | never_left b => simp [alternatives]
  | never_right a => simp [alternatives]
  | any_left b =>
    intro x hx y hy
    rw [(mem_alternatives_of_isPlain rfl).mp hx, meet_any_left, meet_any_right]
    exact .refl (normalized_of_mem_alternatives hb hy).1
  | any_right a =>
    intro x hx y hy
    rw [(mem_alternatives_of_isPlain rfl).mp hy, meet_any_left, meet_any_right]
    exact .refl (normalized_of_mem_alternatives ha hx).1
  | union_left members b _ _ ih =>
    intro x hx y hy
    rw [alternatives_union ha] at hx
    exact ih x hx (ha.member hx) hb x
      ((mem_alternatives_of_isPlain (ha.member_plain hx)).mpr rfl) y hy
  | union_right a members hplain _ ih =>
    intro x hx y hy
    rw [alternatives_union hb] at hy
    exact (ih y hy (hb.member hy) ha y
      ((mem_alternatives_of_isPlain (hb.member_plain hy)).mpr rfl) x hx).symm
  | literal_left value b hplain hany =>
    rw [forall_alternatives_of_isPlain rfl, forall_alternatives_of_isPlain hplain]
    exact alike_literal_meet_swap ha hb hplain hany
  | literal_right a value kind hkind =>
    rw [forall_alternatives_of_isPlain (isPlain_of_kind hkind), forall_alternatives_of_isPlain rfl]
    exact (alike_literal_meet_swap hb ha (isPlain_of_kind hkind) (ne_any_of_kind hkind)).symm
  | array a b ih =>
    rw [forall_alternatives_of_isPlain rfl, forall_alternatives_of_isPlain rfl]
    have hitem := alike_meet_swap_of_alternatives ha.array_item hb.array_item
      (ih ha.array_item hb.array_item)
    rw [meet_array, meet_array]
    exact alike_array hitem
  | object as aIndex bs bIndex ihboth _ _ ihindex =>
    rw [forall_alternatives_of_isPlain rfl, forall_alternatives_of_isPlain rfl]
    apply alike_object_meet_swap ha hb
    · intro x hx y hy
      exact alike_meet_swap_of_alternatives (ha.field_ty hx) (hb.field_ty hy)
        (ihboth x hx y hy (ha.field_ty hx) (hb.field_ty hy))
    · intro s hs t ht
      exact alike_meet_swap_of_alternatives (ha.index_ty hs) (hb.index_ty ht)
        (ihindex s hs t ht (ha.index_ty hs) (hb.index_ty ht))
  | scalar a kind hkind harray hobject =>
    have hplain := isPlain_of_kind hkind
    rw [forall_alternatives_of_isPlain hplain, forall_alternatives_of_isPlain hplain]
    exact .refl (normalized_meet ha ha)
  | apart a b k l hk hl hne =>
    rw [forall_alternatives_of_isPlain (isPlain_of_kind hk),
      forall_alternatives_of_isPlain (isPlain_of_kind hl), meet_of_kind_ne hk hl hne,
      meet_of_kind_ne hl hk hne.symm]
    exact .refl .never

/-- The meet of two types does not depend on their order. -/
theorem alike_meet_swap {a b : Ty} (ha : a.Normalized) (hb : b.Normalized) :
    (a.meet b).Alike (b.meet a) :=
  alike_meet_swap_of_alternatives ha hb (alternatives_meet_swap ha hb)

/-- The meet of two object types says of each name what the two say of it
    together. For names that only one of the two lists, this takes that the order
    does not matter. -/
theorem slotAlike_meetFields (ha : (object as aIndex).Normalized)
    (hb : (object bs bIndex).Normalized) (name : String) :
    SlotAlike (slot (meetFields as aIndex bs bIndex) (meetIndex aIndex bIndex) name)
      (meetSlot (slot as aIndex name) (slot bs bIndex name)) := by
  have hslot : ∀ f ∈ slot (meetFields as aIndex bs bIndex) (meetIndex aIndex bIndex) name,
      f.ty.Normalized := by
    have hnormal := normalized_meet ha hb
    rw [meet_object_eq] at hnormal
    exact normalized_of_mem_slot hnormal name
  have hrest := forall_mem_rest fun _ => ha.index_ty
  rw [slot_meetFields] at hslot ⊢
  rw [slot_eq_or, slot_eq_or]
  cases hf : as.lookup name with
  | some f =>
    rw [hf] at hslot
    exact .refl hslot
  | none =>
    cases hg : bs.lookup name with
    | none =>
      rw [hf, hg] at hslot
      exact .refl hslot
    | some g =>
      have hnormal : ∀ g' ∈ some g, g'.ty.Normalized := by
        rintro _ ⟨⟩
        exact hb.field_ty (Entries.mem_of_lookup hg)
      exact meetSlot_swap hnormal hrest
        fun f hf g hg => alike_meet_swap (hnormal f hf) (hrest g hg)

end Commutativity

end Ty

end SchemaTypes
