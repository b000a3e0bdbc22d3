import SchemaTypes.Proofs.Ty.Commutativity

namespace SchemaTypes

namespace Ty

section Congruence

variable {a a' b b' : Ty}

theorem Alike.eq_never_iff (h : a.Alike b) : a = never ↔ b = never := by
  have hsame := h.same
  cases a <;> cases b <;> simp [Ty.same] at hsame ⊢

theorem Alike.eq_any_iff (h : a.Alike b) : a = any ↔ b = any := by
  have hsame := h.same
  cases a <;> cases b <;> simp [Ty.same] at hsame ⊢

/-- Equal types have values of one kind. -/
theorem Alike.kind?_eq (h : a.Alike b) : a.kind? = b.kind? := by
  have hsame := h.same
  cases a <;> cases b <;> simp [Ty.same, kind?] at hsame ⊢

/-- Equal types are of one form. For literals their values are equal. -/
theorem Alike.literal_cases {value : Json} (h : (literal value).Alike b) :
    ∃ other, b = literal other ∧ value.sameValue other = true := by
  have hsame := h.same
  cases b <;> simp [Ty.same] at hsame ⊢
  exact hsame

theorem Alike.array_cases {item : Ty} (h : (array item).Alike b) :
    ∃ other, b = array other ∧ item.Alike other := by
  have hsame := h.same
  cases b with
  | array other =>
    simp only [Ty.same] at hsame
    exact ⟨other, rfl, h.left.array_item, h.right.array_item, hsame⟩
  | _ => simp [Ty.same] at hsame

theorem Alike.object_cases {fields : List (String × Field Ty)} {index : Option Ty}
    (h : (object fields index).Alike b) : ∃ others other, b = object others other := by
  have hsame := h.same
  cases b <;> simp [Ty.same] at hsame ⊢

/-- Equal unions have equal members, which may stand in another order. -/
theorem Alike.union_cases {members : List Ty} (h : (union members).Alike b) :
    ∃ others, b = union others ∧ (∀ x ∈ members, ∃ y ∈ others, x.Alike y) ∧
      ∀ y ∈ others, ∃ x ∈ members, x.Alike y := by
  have hsame := h.same
  cases b with
  | union others =>
    have hwithin := h.within
    have hback := h.symm.within
    rw [Within, alternatives_union h.left, alternatives_union h.right] at hwithin hback
    refine ⟨others, rfl, hwithin, fun y hy => ?_⟩
    obtain ⟨x, hx, hyx⟩ := hback y hy
    exact ⟨x, hx, hyx.symm⟩
  | _ => simp [Ty.same] at hsame

/-- Equal types hold the same values. -/
theorem Alike.admits_eq (h : a.Alike b) (v : Json) : a.admits v = b.admits v := by
  rw [Bool.eq_iff_iff]
  exact ⟨admits_of_same h.left h.right h.same, admits_of_same h.right h.left h.symm.same⟩

/-- The meet of two types stays equal when the types are replaced by equal ones. -/
def MeetRespects (a b : Ty) : Prop :=
  ∀ ⦃a' b' : Ty⦄, a.Alike a' → b.Alike b' → (a.meet b).Alike (a'.meet b')

/-- Of two types it does not matter which comes first, so that one case is enough
    where the meet treats them alike. -/
theorem MeetRespects.swap (h : MeetRespects a b) : MeetRespects b a := by
  intro b' a' hb ha
  have hback := alike_meet_swap hb.left ha.left
  have hforth := alike_meet_swap ha.right hb.right
  exact hback.trans ((h ha hb).trans hforth)

/-- What two object types say together of a name may be found from equal object types. -/
theorem meetSlot_respects {s s' t t' : Option (Field Ty)} (hs : SlotAlike s s')
    (ht : SlotAlike t t') (h : ∀ f ∈ s, ∀ g ∈ t, MeetRespects f.ty g.ty) :
    SlotAlike (meetSlot s t) (meetSlot s' t') := by
  cases hs with
  | none =>
    cases ht with
    | none => exact .none
    | some hg => exact .some hg
  | some hf =>
    cases ht with
    | none => exact .some hf
    | some hg =>
      refine .some ⟨h _ rfl _ rfl hf.ty hg.ty, ?_⟩
      simp only [Field.meet, hf.optional, hg.optional]

/-- Object types may be replaced by equal ones in a meet, if this holds of the
    types in them. -/
theorem alike_object_meet {as bs as' bs' : List (String × Field Ty)}
    {aIndex bIndex aIndex' bIndex' : Option Ty}
    (ha : (object as aIndex).Alike (object as' aIndex'))
    (hb : (object bs bIndex).Alike (object bs' bIndex'))
    (hslots : ∀ name, ∀ f ∈ slot as aIndex name, ∀ g ∈ slot bs bIndex name,
      MeetRespects f.ty g.ty)
    (hindex : ∀ s ∈ aIndex, ∀ t ∈ bIndex, MeetRespects s t) :
    ((object as aIndex).meet (object bs bIndex)).Alike
      ((object as' aIndex').meet (object bs' bIndex')) := by
  have hab := normalized_meet ha.left hb.left
  have hab' := normalized_meet ha.right hb.right
  obtain ⟨hnamesA, hslotsA, hrestA⟩ := (alike_object_iff ha.left ha.right).mp ha
  obtain ⟨hnamesB, hslotsB, hrestB⟩ := (alike_object_iff hb.left hb.right).mp hb
  rw [meet_object_eq] at hab hab'
  rw [meet_object_eq, meet_object_eq, alike_object_iff hab hab']
  refine ⟨fun name => ?_, fun name => ?_, ?_⟩
  · rw [mem_names_meetFields, mem_names_meetFields, hnamesA, hnamesB]
  · have hmiddle := meetSlot_respects (hslotsA name) (hslotsB name) (hslots name)
    have hfirst := slotAlike_meetFields ha.left hb.left name
    have hlast := slotAlike_meetFields ha.right hb.right name
    exact hfirst.trans (hmiddle.trans hlast.symm)
  · rw [rest_meetIndex, rest_meetIndex]
    apply meetSlot_respects hrestA hrestB
    exact forall_mem_rest fun s hs => forall_mem_rest (hindex s hs)

/-- What is left of a literal does not depend on how the literal and the type are
    written. -/
theorem alike_literal_of_admits {value other : Json} (hvalue : (literal value).Alike (literal other))
    (hb : b.Alike b') :
    (if b.admits value then literal value else never).Alike
      (if b'.admits other then literal other else never) := by
  have hnames := hvalue.left.literal_value
  have hnames' := hvalue.right.literal_value
  have hsame : value.sameValue other = true := by simpa [same] using hvalue.same
  have hadmits : b.admits value = b'.admits other := by
    rw [hb.admits_eq, Bool.eq_iff_iff]
    exact ⟨admits_of_sameValue hnames hnames' hsame,
      admits_of_sameValue hnames' hnames (Json.sameValue_symm hnames hnames' hsame)⟩
  rw [hadmits]
  split
  · exact hvalue
  · exact .refl .never

/-- Meeting the members of equal unions with equal types gives equal unions. -/
theorem alike_unionOf_meet {members others : List Ty}
    (hcover : ∀ x ∈ members, ∃ y ∈ others, x.Alike y)
    (hback : ∀ y ∈ others, ∃ x ∈ members, x.Alike y) (hb : b.Alike b')
    (hmeet : ∀ x ∈ members, MeetRespects x b) :
    (unionOf (members.map (·.meet b))).Alike (unionOf (others.map (·.meet b'))) := by
  apply alike_unionOf_of_cover
  · rw [List.forall_mem_map]
    intro x hx
    obtain ⟨y, hy, hxy⟩ := hcover x hx
    exact ⟨y.meet b', List.mem_map_of_mem hy, hmeet x hx hxy hb⟩
  · rw [List.forall_mem_map]
    intro y hy
    obtain ⟨x, hx, hxy⟩ := hback y hy
    exact ⟨x.meet b, List.mem_map_of_mem hx, hmeet x hx hxy hb⟩

/-- The meet does not tell equal types apart. The induction is along the recursion of the
    meet, on the first pair of types, and the second pair is of the same form. -/
theorem meetRespects (a b : Ty) : MeetRespects a b := by
  induction a, b using meetInduction with
  | never_left b =>
    intro a' b' ha hb
    rw [ha.eq_never_iff.mp rfl, meet_never_left, meet_never_left]
    exact .refl .never
  | never_right a =>
    intro a' b' ha hb
    rw [hb.eq_never_iff.mp rfl, meet_never_right, meet_never_right]
    exact .refl .never
  | any_left b =>
    intro a' b' ha hb
    rw [ha.eq_any_iff.mp rfl, meet_any_left, meet_any_left]
    exact hb
  | any_right a =>
    intro a' b' ha hb
    rw [hb.eq_any_iff.mp rfl, meet_any_right, meet_any_right]
    exact ha
  | union_left members b hnever hany ih =>
    intro a' b' ha hb
    obtain ⟨others, rfl, hcover, hback⟩ := ha.union_cases
    have hnever' := mt hb.eq_never_iff.mpr hnever
    have hany' := mt hb.eq_any_iff.mpr hany
    rw [meet_union_left hnever hany, meet_union_left hnever' hany']
    exact alike_unionOf_meet hcover hback hb ih
  | union_right a members hplain hany ih =>
    intro a' b' ha hb
    obtain ⟨others, rfl, hcover, hback⟩ := hb.union_cases
    have hplain' : a'.isPlain = true := isPlain_of_same ha.same ▸ hplain
    have hany' := mt ha.eq_any_iff.mpr hany
    rw [meet_union_right hplain hany, meet_union_right hplain' hany']
    exact alike_unionOf_meet hcover hback ha ih
  | literal_left value b hplain hany =>
    intro a' b' ha hb
    obtain ⟨other, rfl, _⟩ := ha.literal_cases
    have hplain' : b'.isPlain = true := isPlain_of_same hb.same ▸ hplain
    have hany' := mt hb.eq_any_iff.mpr hany
    rw [meet_literal_left hplain hany, meet_literal_left hplain' hany']
    exact alike_literal_of_admits ha hb
  | literal_right a value kind hkind =>
    intro a' b' ha hb
    obtain ⟨other, rfl, _⟩ := hb.literal_cases
    have hkind' : a'.kind? = some kind := ha.kind?_eq ▸ hkind
    rw [meet_literal_right hkind, meet_literal_right hkind']
    exact alike_literal_of_admits hb ha
  | array a b ih =>
    intro a' b' ha hb
    obtain ⟨x, rfl, hx⟩ := ha.array_cases
    obtain ⟨y, rfl, hy⟩ := hb.array_cases
    have hitem := ih hx hy
    rw [meet_array, meet_array]
    exact alike_array hitem
  | object as aIndex bs bIndex ihboth ihleft ihright ihindex =>
    intro a' b' ha hb
    obtain ⟨as', aIndex', rfl⟩ := ha.object_cases
    obtain ⟨bs', bIndex', rfl⟩ := hb.object_cases
    refine alike_object_meet ha hb (fun name => ?_) ihindex
    -- A field of the second type is met with the index of the first in this order.
    exact forall_mem_slot (fun x hx => forall_mem_slot (ihboth x hx) (ihleft x hx))
      fun s hs => forall_mem_slot (fun y hy => (ihright y hy s hs).swap) (ihindex s hs)
  | scalar a kind hkind harray hobject =>
    intro a' b' ha hb
    have hkindA : a'.kind? = some kind := ha.kind?_eq ▸ hkind
    have hkindB : b'.kind? = some kind := hb.kind?_eq ▸ hkind
    rw [← eq_of_scalar hkind hkindA harray hobject, ← eq_of_scalar hkind hkindB harray hobject]
    exact .refl (normalized_meet ha.left ha.left)
  | apart a b k l hk hl hne =>
    intro a' b' ha hb
    have hk' : a'.kind? = some k := ha.kind?_eq ▸ hk
    have hl' : b'.kind? = some l := hb.kind?_eq ▸ hl
    rw [meet_of_kind_ne hk hl hne, meet_of_kind_ne hk' hl' hne]
    exact .refl .never

/-- The meets of equal types are equal. With the same for unions, all that
    derivation does with types respects equality. -/
theorem alike_meet (ha : a.Alike a') (hb : b.Alike b') : (a.meet b).Alike (a'.meet b') :=
  meetRespects a b ha hb

theorem slotAlike_meetSlot {s s' t t' : Option (Field Ty)} (hs : SlotAlike s s')
    (ht : SlotAlike t t') : SlotAlike (meetSlot s t) (meetSlot s' t') :=
  meetSlot_respects hs ht fun f _ g _ => meetRespects f.ty g.ty

/-- Equality is a congruence: equal types hold the same values, and their meets
    and unions are equal. Equal types may differ in the order of members and
    fields and in how their literals are written, and nothing that is done with a
    type shows the difference. -/
theorem congruence_of_same {tys others : List Ty} (ha : a.Normalized) (ha' : a'.Normalized)
    (hb : b.Normalized) (hb' : b'.Normalized) (hsameA : a.same a' = true) (hsameB : b.same b' = true)
    (htys : ∀ ty ∈ tys, ty.Normalized) (hothers : ∀ ty ∈ others, ty.Normalized)
    (hsame : List.Forall₂ (fun ty other => ty.same other = true) tys others) :
    (∀ v, a.admits v = a'.admits v) ∧ (a.meet b).same (a'.meet b') = true ∧
      (unionOf tys).same (unionOf others) = true := by
  have haa' : a.Alike a' := ⟨ha, ha', hsameA⟩
  have hbb' : b.Alike b' := ⟨hb, hb', hsameB⟩
  have hlists : List.Forall₂ Alike tys others := by
    induction hsame with
    | nil => exact .nil
    | cons hty _ ih =>
      rw [List.forall_mem_cons] at htys hothers
      exact .cons ⟨htys.1, hothers.1, hty⟩ (ih htys.2 hothers.2)
  exact ⟨haa'.admits_eq, (alike_meet haa' hbb').same, (alike_unionOf hlists).same⟩

end Congruence

/-- A union whose members are turned around and a literal whose entries are. -/
theorem congruence_of_same_turned_around :
    (∀ v, (union [.null, .object [] (some .any)]).admits v =
        (union [.object [] (some .any), .null]).admits v) ∧
      ((union [.null, .object [] (some .any)]).meet
          (.literal (.obj [("a", .null), ("b", .null)]))).same
        ((union [.object [] (some .any), .null]).meet
          (.literal (.obj [("b", .null), ("a", .null)]))) = true ∧
      (unionOf [.string, .union [.null, .object [] (some .any)]]).same
        (unionOf [.string, .union [.object [] (some .any), .null]]) = true := by
  have hobject : (object [] (some .any)).Normalized :=
    .object List.nodup_nil (by simp) (by simpa using .any)
  have hunion : (union [.null, .object [] (some .any)]).Normalized := by
    refine .union (by decide) (by decide) ?_ (by decide +kernel)
    simp only [List.forall_mem_cons, List.not_mem_nil, false_imp_iff, implies_true, and_true]
    exact ⟨.null, hobject⟩
  have hunion' : (union [.object [] (some .any), .null]).Normalized := by
    refine .union (by decide) (by decide) ?_ (by decide +kernel)
    simp only [List.forall_mem_cons, List.not_mem_nil, false_imp_iff, implies_true, and_true]
    exact ⟨hobject, .null⟩
  have htys : ∀ ty ∈ [string, .union [.null, .object [] (some .any)]], ty.Normalized := by
    simp only [List.forall_mem_cons, List.not_mem_nil, false_imp_iff, implies_true, and_true]
    exact ⟨.string, hunion⟩
  have hothers : ∀ ty ∈ [string, .union [.object [] (some .any), .null]], ty.Normalized := by
    simp only [List.forall_mem_cons, List.not_mem_nil, false_imp_iff, implies_true, and_true]
    exact ⟨.string, hunion'⟩
  have hsame : (union [.null, .object [] (some .any)]).same
      (.union [.object [] (some .any), .null]) = true := by decide +kernel
  exact congruence_of_same hunion hunion' (.literal (by simp [Entries.names]))
    (.literal (by simp [Entries.names])) hsame (by decide +kernel) htys hothers
    (.cons (by decide +kernel) (.cons hsame .nil))

end Ty

end SchemaTypes
