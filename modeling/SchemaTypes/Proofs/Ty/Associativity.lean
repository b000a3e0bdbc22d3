import SchemaTypes.Proofs.Ty.Congruence

namespace SchemaTypes

namespace Ty

section Alternatives

variable {a b c t : Ty}

/-- Equal types have the same alternatives, as far as a property can tell that
    does not tell equal types apart. -/
theorem Alike.forall_alternatives_iff {P : Ty → Prop} (hP : RespectsAlike P) (h : a.Alike b) :
    (∀ x ∈ a.alternatives, P x) ↔ ∀ x ∈ b.alternatives, P x := by
  constructor
  · intro hall y hy
    obtain ⟨x, hx, hyx⟩ := h.symm.within y hy
    exact hP hyx.symm (hall x hx)
  · intro hall x hx
    obtain ⟨y, hy, hxy⟩ := h.within x hx
    exact hP hxy.symm (hall y hy)

/-- The meet of two types is made up of the meets of their alternatives. This
    holds up to equality, since the meet drops alternatives that are equal to
    earlier ones. -/
theorem forall_alternatives_meet_iff {P : Ty → Prop} (hP : RespectsAlike P) (ha : a.Normalized)
    (hb : b.Normalized) :
    (∀ p ∈ (a.meet b).alternatives, P p) ↔
      ∀ x ∈ a.alternatives, ∀ y ∈ b.alternatives, ∀ p ∈ (x.meet y).alternatives, P p := by
  rw [forall_alternatives_meet hP ha hb]
  refine forall₂_congr fun x hx => ?_
  have hnormal := (normalized_of_mem_alternatives ha hx).1
  rw [(alike_meet_swap hnormal hb).forall_alternatives_iff hP,
    forall_alternatives_meet hP hb hnormal]
  refine forall₂_congr fun y hy => ?_
  exact (alike_meet_swap (normalized_of_mem_alternatives hb hy).1 hnormal).forall_alternatives_iff hP

theorem meet_within_iff (ha : a.Normalized) (hb : b.Normalized) :
    (a.meet b).Within t ↔ ∀ x ∈ a.alternatives, ∀ y ∈ b.alternatives, (x.meet y).Within t :=
  forall_alternatives_meet_iff (respectsAlike_within_alternatives t) ha hb

/-- The meet of three types is made up of the meets of three alternatives. -/
theorem meet_meet_within_iff (ha : a.Normalized) (hb : b.Normalized) (hc : c.Normalized) :
    ((a.meet b).meet c).Within t ↔ ∀ x ∈ a.alternatives, ∀ y ∈ b.alternatives,
      ∀ z ∈ c.alternatives, ((x.meet y).meet z).Within t := by
  have hrespects : RespectsAlike fun p => ∀ z ∈ c.alternatives, (p.meet z).Within t := by
    intro p q hpq hp z hz
    have hz' := Alike.refl (normalized_of_mem_alternatives hc hz).1
    exact (alike_meet hpq hz').within_iff.mp (hp z hz)
  rw [meet_within_iff (normalized_meet ha hb) hc, forall_alternatives_meet_iff hrespects ha hb]
  refine forall₂_congr fun x hx => forall₂_congr fun y hy => ?_
  have hxy := normalized_meet (normalized_of_mem_alternatives ha hx).1
    (normalized_of_mem_alternatives hb hy).1
  constructor
  · intro hall z hz
    rw [meet_within_left hxy (normalized_of_mem_alternatives hc hz).1]
    exact fun p hp => hall p hp z hz
  · intro hall p hp z hz
    exact (meet_within_left hxy (normalized_of_mem_alternatives hc hz).1).mp (hall z hz) p hp

/-- For associativity only alternatives have to be looked at. -/
theorem alike_meet_assoc_of_alternatives (ha : a.Normalized) (hb : b.Normalized) (hc : c.Normalized)
    (h : ∀ x ∈ a.alternatives, ∀ y ∈ b.alternatives, ∀ z ∈ c.alternatives,
      ((x.meet y).meet z).Alike (x.meet (y.meet z))) :
    ((a.meet b).meet c).Alike (a.meet (b.meet c)) := by
  have hbc := normalized_meet hb hc
  apply alike_of_forall_within (normalized_meet (normalized_meet ha hb) hc) (normalized_meet ha hbc)
  intro t
  have hparts : ∀ x ∈ a.alternatives, ∀ y ∈ b.alternatives, ∀ z ∈ c.alternatives,
      (((x.meet y).meet z).Within t ↔ ((y.meet z).meet x).Within t) := by
    intro x hx y hy z hz
    have hyz := normalized_meet (normalized_of_mem_alternatives hb hy).1
      (normalized_of_mem_alternatives hc hz).1
    have hswap := alike_meet_swap (normalized_of_mem_alternatives ha hx).1 hyz
    exact ((h x hx y hy z hz).trans hswap).within_iff
  rw [(alike_meet_swap ha hbc).within_iff, meet_meet_within_iff ha hb hc,
    meet_meet_within_iff hb hc ha]
  constructor
  · intro hall y hy z hz x hx
    exact (hparts x hx y hy z hz).mp (hall x hx y hy z hz)
  · intro hall x hx y hy z hz
    exact (hparts x hx y hy z hz).mpr (hall y hy z hz x hx)

end Alternatives

instance : Trans Alike Alike Alike := ⟨Alike.trans⟩

/-- The type may be met with two others in one go or one after the other. -/
def Associates (a : Ty) : Prop :=
  ∀ ⦃b c : Ty⦄, b.Normalized → c.Normalized → ((a.meet b).meet c).Alike (a.meet (b.meet c))

namespace Associates

variable {a x y : Ty}

/-- The type may also come second, since the order of two types does not matter. Thus it is
    enough to prove the law with the simplest of three types in front. -/
theorem middle (h : a.Associates) (ha : a.Normalized) (hx : x.Normalized) (hy : y.Normalized) :
    ((x.meet a).meet y).Alike (x.meet (a.meet y)) :=
  calc
    ((x.meet a).meet y).Alike ((a.meet x).meet y) := alike_meet (alike_meet_swap hx ha) (.refl hy)
    Alike _ (a.meet (x.meet y)) := h hx hy
    Alike _ (a.meet (y.meet x)) := alike_meet (.refl ha) (alike_meet_swap hx hy)
    Alike _ ((a.meet y).meet x) := (h hy hx).symm
    Alike _ (x.meet (a.meet y)) := alike_meet_swap (normalized_meet ha hy) hx

theorem last (h : a.Associates) (ha : a.Normalized) (hx : x.Normalized) (hy : y.Normalized) :
    ((x.meet y).meet a).Alike (x.meet (y.meet a)) :=
  calc
    ((x.meet y).meet a).Alike (a.meet (x.meet y)) := alike_meet_swap (normalized_meet hx hy) ha
    Alike _ ((a.meet x).meet y) := (h hx hy).symm
    Alike _ ((x.meet a).meet y) := alike_meet (alike_meet_swap ha hx) (.refl hy)
    Alike _ (x.meet (a.meet y)) := h.middle ha hx hy
    Alike _ (x.meet (y.meet a)) := alike_meet (.refl hx) (alike_meet_swap ha hy)

end Associates

section Literals

variable {value : Json} {b : Ty}

/-- A literal is kept by an alternative that admits it, `any` among them. -/
theorem meet_literal_eq_of_isPlain (hplain : b.isPlain = true) :
    (literal value).meet b = if b.admits value then literal value else never := by
  by_cases hany : b = any
  · rw [hany, meet_any_right, admits_any, if_pos rfl]
  · exact meet_literal_left hplain hany

/-- The meet with a literal is the literal, if it belongs to the type. The type
    may be a union, and the literal may belong to several of its members. -/
theorem alike_literal_meet (hvalue : (literal value).Normalized) (hb : b.Normalized) :
    ((literal value).meet b).Alike (if b.admits value then literal value else never) := by
  have hpick : (if b.admits value then literal value else never).Normalized := by
    split
    · exact hvalue
    · exact .never
  apply alike_of_forall_within (normalized_meet hvalue hb) hpick
  intro t
  rw [meet_within_iff hvalue hb, forall_alternatives_of_isPlain rfl]
  have hpart : ∀ y ∈ b.alternatives,
      (((literal value).meet y).Within t ↔ (y.admits value = true → (literal value).Within t)) := by
    intro y hy
    rw [meet_literal_eq_of_isPlain (normalized_of_mem_alternatives hb hy).2]
    by_cases hadmits : y.admits value = true
    · simp [hadmits]
    · simp [hadmits, Within, alternatives]
  rw [forall₂_congr hpart]
  by_cases hadmits : b.admits value = true
  · rw [if_pos hadmits]
    obtain ⟨y, hy, hyvalue⟩ := admits_iff_alternatives.mp hadmits
    exact ⟨fun hall => hall y hy hyvalue, fun hwithin _ _ _ => hwithin⟩
  · rw [if_neg hadmits]
    refine ⟨fun _ => by simp [Within, alternatives], fun _ y hy hyvalue => ?_⟩
    exact absurd (admits_iff_alternatives.mpr ⟨y, hy, hyvalue⟩) hadmits

/-- A literal is kept if both other types admit it, whichever of them is asked first. -/
theorem associates_literal (hvalue : (literal value).Normalized) : (literal value).Associates := by
  intro b c hb hc
  have hboth := admits_meet hb hc hvalue.literal_value
  have hright := alike_literal_meet hvalue (normalized_meet hb hc)
  have hleft := alike_meet (alike_literal_meet hvalue hb) (.refl hc)
  by_cases hadmits : b.admits value = true
  · have hmiddle := alike_literal_meet hvalue hc
    have hcondition : (b.meet c).admits value = c.admits value := by
      rw [Bool.eq_iff_iff, hboth]
      exact and_iff_right hadmits
    rw [if_pos hadmits] at hleft
    rw [hcondition] at hright
    exact hleft.trans (hmiddle.trans hright.symm)
  · rw [if_neg hadmits, meet_never_left] at hleft
    rw [if_neg fun hmeet => hadmits (hboth.mp hmeet).1] at hright
    exact hleft.trans hright.symm

end Literals

section Kinds

variable {a b c : Ty} {k l : Kind}

/-- An alternative is `any`, a literal or a type of one kind of values. -/
theorem isPlain_cases (h : a.isPlain = true) :
    a = any ∨ (∃ value, a = literal value) ∨ ∃ kind, a.kind? = some kind := by
  cases a <;> simp [isPlain, kind?] at h ⊢

/-- The meet of two types of one kind is again of this kind. For lists and objects
    it may hold few values, but it never becomes `never`. -/
theorem kind_meet (ha : a.kind? = some k) (hb : b.kind? = some k) : (a.meet b).kind? = some k := by
  by_cases harray : k = .array
  · subst harray
    obtain ⟨x, rfl⟩ := eq_array_of_kind ha
    obtain ⟨y, rfl⟩ := eq_array_of_kind hb
    rw [meet_array, kind?]
  by_cases hobject : k = .object
  · subst hobject
    obtain ⟨as, aIndex, rfl⟩ := eq_object_of_kind ha
    obtain ⟨bs, bIndex, rfl⟩ := eq_object_of_kind hb
    rw [meet_object, kind?]
  rw [← eq_of_scalar ha hb harray hobject, meet_scalar ha harray hobject]
  exact ha

/-- Types of different kinds leave nothing, whichever two of three are met first. -/
theorem meet_assoc_of_kind_ne {m : Kind} (ha : a.kind? = some k) (hb : b.kind? = some l)
    (hc : c.kind? = some m) (hne : ¬ (k = l ∧ l = m)) :
    (a.meet b).meet c = never ∧ a.meet (b.meet c) = never := by
  by_cases hkl : k = l
  · subst hkl
    have hlm : k ≠ m := fun hlm => hne ⟨rfl, hlm⟩
    rw [meet_of_kind_ne hb hc hlm, meet_never_right]
    exact ⟨meet_of_kind_ne (kind_meet ha hb) hc hlm, rfl⟩
  · rw [meet_of_kind_ne ha hb hkl, meet_never_left]
    refine ⟨rfl, ?_⟩
    by_cases hlm : l = m
    · subst hlm
      exact meet_of_kind_ne ha (kind_meet hb hc) hkl
    · rw [meet_of_kind_ne hb hc hlm, meet_never_right]

/-- For a type of one kind only the other types of this kind have to be looked at. -/
theorem associates_of_kind (ha : a.Normalized) (hk : a.kind? = some k)
    (h : ∀ b c : Ty, b.Normalized → c.Normalized → b.kind? = some k → c.kind? = some k →
      ((a.meet b).meet c).Alike (a.meet (b.meet c))) : a.Associates := by
  intro b c hb hc
  apply alike_meet_assoc_of_alternatives ha hb hc
  rw [forall_alternatives_of_isPlain (isPlain_of_kind hk)]
  intro y hy z hz
  obtain ⟨hynormal, hyplain⟩ := normalized_of_mem_alternatives hb hy
  obtain ⟨hznormal, hzplain⟩ := normalized_of_mem_alternatives hc hz
  obtain rfl | ⟨value, rfl⟩ | ⟨l, hl⟩ := isPlain_cases hyplain
  · rw [meet_any_right, meet_any_left]
    exact .refl (normalized_meet ha hznormal)
  · exact (associates_literal hynormal).middle hynormal ha hznormal
  obtain rfl | ⟨value, rfl⟩ | ⟨m, hm⟩ := isPlain_cases hzplain
  · rw [meet_any_right, meet_any_right]
    exact .refl (normalized_meet ha hynormal)
  · exact (associates_literal hznormal).last hznormal ha hynormal
  by_cases hkinds : k = l ∧ l = m
  · obtain ⟨rfl, rfl⟩ := hkinds
    exact h y z hynormal hznormal hl hm
  · obtain ⟨hleft, hright⟩ := meet_assoc_of_kind_ne hk hl hm hkinds
    rw [hleft, hright]
    exact .refl .never

/-- Of a kind without parts there is a single type. -/
theorem associates_scalar (ha : a.Normalized) (hk : a.kind? = some k) (harray : k ≠ .array)
    (hobject : k ≠ .object) : a.Associates := by
  apply associates_of_kind ha hk
  intro b c _ _ hb hc
  rw [← eq_of_scalar hk hb harray hobject, ← eq_of_scalar hk hc harray hobject,
    meet_scalar hk harray hobject, meet_scalar hk harray hobject]
  exact .refl ha

end Kinds

section Objects

/-- What three object types say of a name, two of them taken together first. Where
    the first says nothing, both sides are what the other two say. -/
theorem meetSlot_assoc {s t u : Option (Field Ty)} (hs : ∀ f ∈ s, f.ty.Normalized)
    (ht : ∀ g ∈ t, g.ty.Normalized) (hu : ∀ g ∈ u, g.ty.Normalized)
    (h : ∀ f ∈ s, f.ty.Associates) :
    SlotAlike (meetSlot (meetSlot s t) u) (meetSlot s (meetSlot t u)) := by
  have hrefl {s t : Option (Field Ty)} (hs : ∀ f ∈ s, f.ty.Normalized)
      (ht : ∀ g ∈ t, g.ty.Normalized) : SlotAlike (meetSlot s t) (meetSlot s t) :=
    slotAlike_meetSlot (.refl hs) (.refl ht)
  -- Where one of the three says nothing, only two are left to be met.
  match s, t, u with
  | none, t, u =>
    rw [meetSlot_none_left, meetSlot_none_left]
    exact hrefl ht hu
  | some f, none, u =>
    rw [meetSlot_none_left, meetSlot_none_right]
    exact hrefl hs hu
  | some f, some g, none =>
    rw [meetSlot_none_right, meetSlot_none_right]
    exact hrefl hs ht
  | some f, some g, some k =>
    exact .some ⟨h f rfl (ht g rfl) (hu k rfl), Bool.and_assoc _ _ _⟩

variable {fields : List (String × Field Ty)} {index : Option Ty}

/-- For object types the law is that of the types in them, name by name. -/
theorem associates_object (ha : (object fields index).Normalized)
    (hfields : ∀ entry ∈ fields, entry.2.ty.Associates) (hindex : ∀ ty ∈ index, ty.Associates) :
    (object fields index).Associates := by
  apply associates_of_kind ha rfl
  intro b c hb hc hkindB hkindC
  obtain ⟨bs, bIndex, rfl⟩ := eq_object_of_kind hkindB
  obtain ⟨cs, cIndex, rfl⟩ := eq_object_of_kind hkindC
  have hab := normalized_meet ha hb
  have hbc := normalized_meet hb hc
  have hleft := normalized_meet hab hc
  have hright := normalized_meet ha hbc
  simp only [meet_object_eq] at hab hbc hleft hright ⊢
  rw [alike_object_iff hleft hright]
  refine ⟨fun name => ?_, fun name => ?_, ?_⟩
  · simp only [mem_names_meetFields, or_assoc]
  · have hslotA := normalized_of_mem_slot ha name
    have hslotB := normalized_of_mem_slot hb name
    have hslotC := normalized_of_mem_slot hc name
    have hassoc := meetSlot_assoc hslotA hslotB hslotC (forall_mem_slot hfields hindex)
    have hfirst := (slotAlike_meetFields hab hc name).trans
      (slotAlike_meetSlot (slotAlike_meetFields ha hb name) (.refl hslotC))
    have hlast := (slotAlike_meetFields ha hbc name).trans
      (slotAlike_meetSlot (.refl hslotA) (slotAlike_meetFields hb hc name))
    exact hfirst.trans (hassoc.trans hlast.symm)
  · simp only [rest_meetIndex]
    exact meetSlot_assoc (forall_mem_rest fun _ => ha.index_ty)
      (forall_mem_rest fun _ => hb.index_ty) (forall_mem_rest fun _ => hc.index_ty)
      (forall_mem_rest hindex)

end Objects

/-- The meet of three types does not depend on which two are met first. The
    induction is on the first of them alone: where it says nothing of a name, the
    other two are met on both sides. -/
theorem associates {a : Ty} (ha : a.Normalized) : a.Associates := by
  induction a with
  | never =>
    intro b c _ _
    rw [meet_never_left, meet_never_left, meet_never_left]
    exact .refl .never
  | any =>
    intro b c hb hc
    rw [meet_any_left, meet_any_left]
    exact .refl (normalized_meet hb hc)
  | null | number | string | boolean => exact associates_scalar ha rfl (by simp) (by simp)
  | literal value => exact associates_literal ha
  | array item ih =>
    apply associates_of_kind ha rfl
    intro b c hb hc hkindB hkindC
    obtain ⟨x, rfl⟩ := eq_array_of_kind hkindB
    obtain ⟨y, rfl⟩ := eq_array_of_kind hkindC
    have hitem := ih ha.array_item hb.array_item hc.array_item
    simp only [meet_array]
    exact alike_array hitem
  | object fields index ihfields ihindex =>
    exact associates_object ha (fun entry hentry => ihfields entry hentry (ha.field_ty hentry))
      fun ty hty => ihindex ty hty (ha.index_ty hty)
  | union members ih =>
    intro b c hb hc
    apply alike_meet_assoc_of_alternatives ha hb hc
    intro x hx y hy z hz
    rw [alternatives_union ha] at hx
    exact ih x hx (ha.member hx) (normalized_of_mem_alternatives hb hy).1
      (normalized_of_mem_alternatives hc hz).1

section Folds

variable {tys others : List Ty}

/-- Types that are met one after the other may be replaced by equal ones. -/
theorem alike_foldl_meet {a b : Ty} (h : List.Forall₂ Alike tys others) (hab : a.Alike b) :
    (tys.foldl meet a).Alike (others.foldl meet b) := by
  induction h generalizing a b with
  | nil => exact hab
  | cons hty _ ih => exact ih (alike_meet hab hty)

theorem alike_meetAll (h : List.Forall₂ Alike tys others) : (meetAll tys).Alike (meetAll others) :=
  alike_foldl_meet h (.refl .any)

/-- Two types that are met one after the other may change places. This is the step
    by which a list of types is permuted. -/
theorem alike_meet_right_swap {a b c : Ty} (ha : a.Normalized) (hb : b.Normalized)
    (hc : c.Normalized) : ((a.meet b).meet c).Alike ((a.meet c).meet b) :=
  calc
    ((a.meet b).meet c).Alike (a.meet (b.meet c)) := associates ha hb hc
    Alike _ (a.meet (c.meet b)) := alike_meet (.refl ha) (alike_meet_swap hb hc)
    Alike _ ((a.meet c).meet b) := (associates ha hc hb).symm

/-- The order in which types are met does not matter. The induction is on the
    permutation, a swap of neighbours at a time. -/
theorem alike_foldl_meet_of_perm {a : Ty} (hperm : tys.Perm others)
    (htys : ∀ ty ∈ tys, ty.Normalized) (ha : a.Normalized) :
    (tys.foldl meet a).Alike (others.foldl meet a) := by
  induction hperm generalizing a with
  | nil => exact .refl ha
  | cons ty _ ih =>
    rw [List.forall_mem_cons] at htys
    exact ih htys.2 (normalized_meet ha htys.1)
  | swap x y tys =>
    simp only [List.forall_mem_cons] at htys
    have hrest : List.Forall₂ Alike tys tys :=
      List.forall₂_same.mpr fun ty hty => .refl (htys.2.2 ty hty)
    simp only [List.foldl_cons]
    exact alike_foldl_meet hrest (alike_meet_right_swap ha htys.1 htys.2.1)
  | trans hfirst _ ihfirst ihsecond =>
    have hmiddle := ihsecond (fun ty hty => htys ty (hfirst.mem_iff.mpr hty)) ha
    exact (ihfirst htys ha).trans hmiddle

theorem alike_meetAll_of_perm (hperm : tys.Perm others) (htys : ∀ ty ∈ tys, ty.Normalized) :
    (meetAll tys).Alike (meetAll others) :=
  alike_foldl_meet_of_perm hperm htys .any

/-- Intersection does not depend on order: it is commutative and associative up to
    equality, and the meet of a list of types is equal to that of any permutation
    of the list. Only the order of fields and members and the writing of literals
    may come out differently. -/
theorem same_meet_of_reordered {a b c : Ty} (ha : a.Normalized) (hb : b.Normalized)
    (hc : c.Normalized) (htys : ∀ ty ∈ tys, ty.Normalized) (hperm : tys.Perm others) :
    (a.meet b).same (b.meet a) = true ∧
      ((a.meet b).meet c).same (a.meet (b.meet c)) = true ∧
      (meetAll tys).same (meetAll others) = true :=
  ⟨(alike_meet_swap ha hb).same, (associates ha hb hc).same,
    (alike_meetAll_of_perm hperm htys).same⟩

end Folds

/-- An object type with an index beside one without, whose fields come in another
    order when the two change places, and a literal that belongs to both. -/
theorem same_meet_of_reordered_open_object :
    ((object [("a", ⟨.number, true⟩)] none).meet (.object [("b", ⟨.any, false⟩)] (some .number))).same
        ((object [("b", ⟨.any, false⟩)] (some .number)).meet (.object [("a", ⟨.number, true⟩)] none))
          = true ∧
      (((object [("a", ⟨.number, true⟩)] none).meet
        (.object [("b", ⟨.any, false⟩)] (some .number))).meet (.literal (.obj [("b", .null)]))).same
          ((object [("a", ⟨.number, true⟩)] none).meet
            ((object [("b", ⟨.any, false⟩)] (some .number)).meet (.literal (.obj [("b", .null)]))))
              = true ∧
      (meetAll [.object [("a", ⟨.number, true⟩)] none, .object [("b", ⟨.any, false⟩)] (some .number)]).same
        (meetAll [.object [("b", ⟨.any, false⟩)] (some .number), .object [("a", ⟨.number, true⟩)] none])
          = true := by
  have ha : (object [("a", ⟨.number, true⟩)] none).Normalized :=
    .object (by decide) (by simpa using .number) (by simp)
  have hb : (object [("b", ⟨.any, false⟩)] (some .number)).Normalized :=
    .object (by decide) (by simpa using .any) (by simpa using .number)
  have htys : ∀ ty ∈ [object [("a", ⟨.number, true⟩)] none,
      .object [("b", ⟨.any, false⟩)] (some .number)], ty.Normalized := by
    simp only [List.forall_mem_cons, List.not_mem_nil, false_imp_iff, implies_true, and_true]
    exact ⟨ha, hb⟩
  exact same_meet_of_reordered ha hb (.literal (by simp [Entries.names])) htys (.swap _ _ [])

end Ty

end SchemaTypes
