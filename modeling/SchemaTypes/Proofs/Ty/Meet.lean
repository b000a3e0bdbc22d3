import SchemaTypes.Proofs.Ty.Union

namespace SchemaTypes

namespace Ty

/-- A type of one kind holds values of this kind only. -/
theorem kind_of_admits {ty : Ty} {kind : Kind} (hkind : ty.kind? = some kind) {v : Json}
    (h : ty.admits v = true) : v.kind = kind := by
  cases ty <;> simp only [kind?, Option.some.injEq, reduceCtorEq] at hkind <;> subst hkind <;>
    cases v <;> simp [admits, Json.kind] at h ⊢

theorem ne_any_of_kind {ty : Ty} {kind : Kind} (h : ty.kind? = some kind) : ty ≠ any := by
  rintro rfl
  simp [kind?] at h

theorem eq_array_of_kind {ty : Ty} (h : ty.kind? = some .array) : ∃ item, ty = array item := by
  cases ty <;> simp [kind?] at h ⊢

theorem eq_object_of_kind {ty : Ty} (h : ty.kind? = some .object) :
    ∃ fields index, ty = object fields index := by
  cases ty <;> simp [kind?] at h ⊢

theorem eq_of_scalar {a b : Ty} {kind : Kind} (ha : a.kind? = some kind) (hb : b.kind? = some kind)
    (harray : kind ≠ .array) (hobject : kind ≠ .object) : a = b := by
  cases a <;> simp only [kind?, Option.some.injEq, reduceCtorEq] at ha <;> subst ha <;>
    simp only [ne_eq, reduceCtorEq, not_true, not_false_iff] at harray hobject <;>
    cases b <;> simp [kind?] at hb ⊢

section Equations

variable {members : List Ty} {value : Json} {a b : Ty} {k l : Kind}

theorem meet_never_right (a : Ty) : a.meet never = never := by cases a <;> rw [meet] <;> simp

theorem meet_any_left (b : Ty) : any.meet b = b := by cases b <;> rw [meet] <;> simp

theorem meet_any_right (a : Ty) : a.meet any = a := by cases a <;> rw [meet] <;> simp

/-- With the lemmas around it one of the equations of the meet, which is defined
    by recursion on the size of both types and is not unfolded elsewhere. -/
theorem meet_union_left (hnever : b ≠ never) (hany : b ≠ any) :
    (union members).meet b = unionOf (members.map (·.meet b)) := by
  rw [meet]
  · simp
  all_goals simp_all

/-- A union on the right is taken apart as well, with its members in front. -/
theorem meet_union_right (ha : a.isPlain = true) (hany : a ≠ any) :
    a.meet (union members) = unionOf (members.map (·.meet a)) := by
  rw [meet]
  · simp
  all_goals (cases a <;> simp_all [isPlain])

/-- A literal is kept by an alternative that admits it. -/
theorem meet_literal_left (hb : b.isPlain = true) (hany : b ≠ any) :
    (literal value).meet b = if b.admits value then literal value else never := by
  rw [meet]
  all_goals (cases b <;> simp_all [isPlain])

theorem meet_literal_right (ha : a.kind? = some k) :
    a.meet (literal value) = if a.admits value then literal value else never := by
  rw [meet]
  all_goals (cases a <;> simp_all [kind?])

theorem meet_array (a b : Ty) : (array a).meet (array b) = array (a.meet b) := by rw [meet]

theorem meet_scalar (ha : a.kind? = some k) (harray : k ≠ .array) (hobject : k ≠ .object) :
    a.meet a = a := by
  cases a <;> simp_all [kind?, meet, same]

/-- Types of different kinds have no common value, and nothing is left of them. -/
theorem meet_of_kind_ne (ha : a.kind? = some k) (hb : b.kind? = some l) (h : k ≠ l) :
    a.meet b = never := by
  cases a <;> simp [kind?] at ha <;> cases b <;> simp [kind?] at hb <;> subst ha <;> subst hb <;>
    simp [meet, same] at h ⊢

end Equations

theorem sizeOf_mem_lt {ty : Ty} {index : Option Ty} (h : ty ∈ index) : sizeOf ty < sizeOf index := by
  rw [Option.mem_def.mp h, Option.some.sizeOf_spec]
  omega

/-- Induction along the recursion of the meet, with the cases that its equations
    have. The two sides of a pair of unions are taken apart one after the other,
    the right one against the members of the left. -/
@[elab_as_elim]
theorem meetInduction {motive : Ty → Ty → Prop}
    (never_left : ∀ b, motive .never b) (never_right : ∀ a, motive a .never)
    (any_left : ∀ b, motive .any b) (any_right : ∀ a, motive a .any)
    (union_left : ∀ members b, b ≠ .never → b ≠ .any → (∀ member ∈ members, motive member b) →
      motive (.union members) b)
    (union_right : ∀ a members, a.isPlain = true → a ≠ .any → (∀ member ∈ members, motive member a) →
      motive a (.union members))
    (literal_left : ∀ value b, b.isPlain = true → b ≠ .any → motive (.literal value) b)
    (literal_right : ∀ a value kind, a.kind? = some kind → motive a (.literal value))
    (array : ∀ a b, motive a b → motive (.array a) (.array b))
    (object : ∀ as aIndex bs bIndex, (∀ x ∈ as, ∀ y ∈ bs, motive x.2.ty y.2.ty) →
      (∀ x ∈ as, ∀ ty ∈ bIndex, motive x.2.ty ty) → (∀ y ∈ bs, ∀ ty ∈ aIndex, motive y.2.ty ty) →
      (∀ s ∈ aIndex, ∀ t ∈ bIndex, motive s t) → motive (.object as aIndex) (.object bs bIndex))
    (scalar : ∀ a kind, a.kind? = some kind → kind ≠ .array → kind ≠ .object → motive a a)
    (apart : ∀ a b k l, a.kind? = some k → b.kind? = some l → k ≠ l → motive a b) (a b : Ty) :
    motive a b := by
  induction hsize : sizeOf a + sizeOf b using Nat.strongRecOn generalizing a b with
  | ind size ih =>
    subst hsize
    by_cases hnever : b = .never
    · exact hnever ▸ never_right a
    by_cases hany : b = .any
    · exact hany ▸ any_right a
    have hunion_right : ∀ members, b = .union members → a.isPlain = true → a ≠ .any → motive a b := by
      rintro members rfl hplain hne
      refine union_right a members hplain hne fun member hmember => ih _ ?_ member a rfl
      have := List.sizeOf_lt_of_mem hmember
      simp only [Ty.union.sizeOf_spec]
      omega
    cases hk : a.kind? with
    | none =>
      cases a with
      | never => exact never_left b
      | any => exact any_left b
      | union members =>
        refine union_left members b hnever hany fun member hmember => ih _ ?_ member b rfl
        have := List.sizeOf_lt_of_mem hmember
        simp only [Ty.union.sizeOf_spec]
        omega
      | literal value =>
        cases b with
        | never => exact absurd rfl hnever
        | union members => exact hunion_right members rfl rfl (by simp)
        | _ => exact literal_left value _ rfl hany
      | _ => simp [kind?] at hk
    | some k =>
      cases hl : b.kind? with
      | none =>
        cases b with
        | never => exact absurd rfl hnever
        | any => exact absurd rfl hany
        | union members => exact hunion_right members rfl (isPlain_of_kind hk) (ne_any_of_kind hk)
        | literal value => exact literal_right a value k hk
        | _ => simp [kind?] at hl
      | some l =>
        by_cases hkl : k = l
        · subst hkl
          by_cases harray : k = .array
          · subst harray
            obtain ⟨x, rfl⟩ := eq_array_of_kind hk
            obtain ⟨y, rfl⟩ := eq_array_of_kind hl
            refine array x y (ih _ ?_ x y rfl)
            simp only [Ty.array.sizeOf_spec]
            omega
          by_cases hobject : k = .object
          · subst hobject
            obtain ⟨as, aIndex, rfl⟩ := eq_object_of_kind hk
            obtain ⟨bs, bIndex, rfl⟩ := eq_object_of_kind hl
            refine object as aIndex bs bIndex (fun x hx y hy => ih _ ?_ _ _ rfl)
              (fun x hx ty hty => ih _ ?_ _ _ rfl) (fun y hy ty hty => ih _ ?_ _ _ rfl)
              (fun s hs t ht => ih _ ?_ _ _ rfl)
            all_goals simp only [Ty.object.sizeOf_spec]
            · have := sizeOf_ty_lt hx
              have := sizeOf_ty_lt hy
              omega
            · have := sizeOf_ty_lt hx
              have := sizeOf_mem_lt hty
              omega
            · have := sizeOf_ty_lt hy
              have := sizeOf_mem_lt hty
              omega
            · have := sizeOf_mem_lt hs
              have := sizeOf_mem_lt ht
              omega
          exact eq_of_scalar hk hl harray hobject ▸ scalar a k hk harray hobject
        · exact apart a b k l hk hl hkl

section Objects

variable {as bs : List (String × Field Ty)} {aIndex bIndex : Option Ty}

/-- The fields of the meet of two object types. -/
def meetFields (as : List (String × Field Ty)) (aIndex : Option Ty) (bs : List (String × Field Ty))
    (bIndex : Option Ty) : List (String × Field Ty) :=
  (as.map fun a => (a.1, meetField a.1 a.2 bs bIndex)) ++
    (bs.filter fun b => !Entries.has as b.1).map fun b => (b.1, constrain b.2 aIndex)

/-- A field of the first type is met with the field or the index of the second. A
    field of the second alone is met with the index of the first. -/
theorem lookup_meetFields (name : String) :
    (meetFields as aIndex bs bIndex).lookup name =
      match as.lookup name with
      | some field => some (meetField name field bs bIndex)
      | none => (bs.lookup name).map (constrain · aIndex) := by
  rw [meetFields, List.lookup_append, Entries.lookup_map fun a => meetField a.1 a.2 bs bIndex,
    Entries.lookup_map fun b => constrain b.2 aIndex, Entries.lookup_filter (!Entries.has as ·)]
  cases hname : as.lookup name with
  | some field => rfl
  | none =>
    have hhas : Entries.has as name = false := by
      rw [← Bool.not_eq_true, Entries.has_iff]
      exact Entries.lookup_eq_none_iff.mp hname
    simp [hhas]

/-- No name is listed twice in the meet. -/
theorem names_meetFields (ha : (Entries.names as).Nodup) (hb : (Entries.names bs).Nodup) :
    (Entries.names (meetFields as aIndex bs bIndex)).Nodup := by
  simp only [Entries.names, meetFields, List.map_append, List.map_map, Function.comp_def]
  rw [List.nodup_append]
  refine ⟨ha, hb.sublist (List.filter_sublist.map _), ?_⟩
  rintro name hleft _ hright rfl
  obtain ⟨b, hb, rfl⟩ := List.mem_map.mp hright
  have hhas := (List.mem_filter.mp hb).2
  rw [Bool.not_eq_true', ← Bool.not_eq_true, Entries.has_iff] at hhas
  exact hhas hleft

/-- A field of the meet may be missing only if both fields may, and admits the
    values that both admit. -/
theorem admits_field_meet {f g : Field Ty} {v? : Option Json}
    (h : ∀ v ∈ v?, (f.ty.meet g.ty).admits v = true ↔ f.ty.admits v = true ∧ g.ty.admits v = true) :
    Field.admits ⟨f.ty.meet g.ty, f.optional && g.optional⟩ v? = true ↔
      f.admits v? = true ∧ g.admits v? = true := by
  cases v? with
  | none => simp [Field.admits]
  | some v => exact h v rfl

/-- The meet says of a name what both types say of it. The meets of the types inside are
    assumed to be exact, which the induction over both types supplies. -/
theorem admits_slot_meet {name : String} {v? : Option Json}
    (hboth : ∀ x ∈ as, ∀ y ∈ bs, ∀ v ∈ v?,
      (x.2.ty.meet y.2.ty).admits v = true ↔ x.2.ty.admits v = true ∧ y.2.ty.admits v = true)
    (hleft : ∀ x ∈ as, ∀ t ∈ bIndex, ∀ v ∈ v?,
      (x.2.ty.meet t).admits v = true ↔ x.2.ty.admits v = true ∧ t.admits v = true)
    (hright : ∀ y ∈ bs, ∀ s ∈ aIndex, ∀ v ∈ v?,
      (y.2.ty.meet s).admits v = true ↔ y.2.ty.admits v = true ∧ s.admits v = true)
    (hindex : ∀ s ∈ aIndex, ∀ t ∈ bIndex, ∀ v ∈ v?,
      (s.meet t).admits v = true ↔ s.admits v = true ∧ t.admits v = true) :
    (∀ field ∈ slot (meetFields as aIndex bs bIndex) (meetIndex aIndex bIndex) name,
      field.admits v? = true) ↔
      (∀ field ∈ slot as aIndex name, field.admits v? = true) ∧
        ∀ field ∈ slot bs bIndex name, field.admits v? = true := by
  simp only [slot, lookup_meetFields]
  cases hx : as.lookup name with
  | some x =>
    have hmem := Entries.mem_of_lookup hx
    cases hy : bs.lookup name with
    | some y =>
      simpa [meetField, hy] using admits_field_meet (hboth _ hmem _ (Entries.mem_of_lookup hy))
    | none =>
      cases bIndex with
      | none => simp [meetField, hy, constrain]
      | some t =>
        -- The index acts as an optional field, so the named one alone decides whether to be missing.
        simpa [meetField, hy, constrain] using admits_field_meet (g := ⟨t, true⟩) (hleft _ hmem t rfl)
  | none =>
    cases hy : bs.lookup name with
    | some y =>
      cases aIndex with
      | none => simp [constrain]
      | some s =>
        simpa [constrain, and_comm] using
          admits_field_meet (g := ⟨s, true⟩) (hright _ (Entries.mem_of_lookup hy) s rfl)
    | none =>
      cases aIndex with
      | none => cases bIndex <;> simp [meetIndex]
      | some s =>
        cases bIndex with
        | none => simp [meetIndex]
        | some t =>
          simpa [meetIndex] using
            admits_field_meet (f := ⟨s, true⟩) (g := ⟨t, true⟩) (hindex s rfl t rfl)

theorem normalized_constrain {field : Field Ty} (hfield : field.ty.Normalized)
    (hmeet : ∀ ty ∈ aIndex, (field.ty.meet ty).Normalized) : (constrain field aIndex).ty.Normalized := by
  cases aIndex with
  | none => exact hfield
  | some ty => exact hmeet ty rfl

theorem normalized_meetIndex (ha : ∀ ty ∈ aIndex, ty.Normalized) (hb : ∀ ty ∈ bIndex, ty.Normalized)
    (hmeet : ∀ s ∈ aIndex, ∀ t ∈ bIndex, (s.meet t).Normalized) :
    ∀ ty ∈ meetIndex aIndex bIndex, ty.Normalized := by
  intro ty hty
  cases aIndex with
  | none => exact hb ty hty
  | some s =>
    cases bIndex with
    | none => exact ha ty hty
    | some t =>
      rw [meetIndex, Option.mem_some_iff] at hty
      exact hty ▸ hmeet s rfl t rfl

end Objects

/-- The meet of types in normal form is in normal form, although the members of
    unions are met one by one and may become equal. -/
theorem normalized_meet {a b : Ty} (ha : a.Normalized) (hb : b.Normalized) :
    (a.meet b).Normalized := by
  induction a, b using meetInduction with
  | never_left b => exact (meet_never_left b).symm ▸ .never
  | never_right a => exact (meet_never_right a).symm ▸ .never
  | any_left b => exact (meet_any_left b).symm ▸ hb
  | any_right a => exact (meet_any_right a).symm ▸ ha
  | union_left members b hnever hany ih =>
    rw [meet_union_left hnever hany]
    apply normalized_unionOf
    rw [List.forall_mem_map]
    exact fun member hmember => ih member hmember (ha.member hmember) hb
  | union_right a members hplain hany ih =>
    rw [meet_union_right hplain hany]
    apply normalized_unionOf
    rw [List.forall_mem_map]
    exact fun member hmember => ih member hmember (hb.member hmember) ha
  | literal_left value b hplain hany =>
    rw [meet_literal_left hplain hany]
    split
    · exact ha
    · exact .never
  | literal_right a value kind hkind =>
    rw [meet_literal_right hkind]
    split
    · exact hb
    · exact .never
  | array a b ih => exact meet_array a b ▸ .array (ih ha.array_item hb.array_item)
  | object as aIndex bs bIndex ihboth ihleft ihright ihindex =>
    rw [meet_object]
    refine .object (names_meetFields ha.field_names hb.field_names) (fun entry hentry => ?_)
      (normalized_meetIndex (fun _ => ha.index_ty) (fun _ => hb.index_ty)
        fun s hs t ht => ihindex s hs t ht (ha.index_ty hs) (hb.index_ty ht))
    rcases List.mem_append.mp hentry with hmem | hmem
    · obtain ⟨x, hx, rfl⟩ := List.mem_map.mp hmem
      simp only [meetField]
      split
      next y hy =>
        have hy := Entries.mem_of_lookup hy
        exact ihboth x hx _ hy (ha.field_ty hx) (hb.field_ty hy)
      next =>
        exact normalized_constrain (ha.field_ty hx)
          fun ty hty => ihleft x hx ty hty (ha.field_ty hx) (hb.index_ty hty)
    · obtain ⟨y, hy, rfl⟩ := List.mem_map.mp hmem
      have hy := (List.mem_filter.mp hy).1
      exact normalized_constrain (hb.field_ty hy)
        fun ty hty => ihright y hy ty hty (hb.field_ty hy) (ha.index_ty hty)
  | scalar a kind hkind harray hobject => exact (meet_scalar hkind harray hobject).symm ▸ ha
  | apart a b k l hk hl hne => exact meet_of_kind_ne hk hl hne ▸ .never

/-- A literal stands for all values that are equal to it, and a type admits all of
    these or none. -/
theorem admits_literal_meet {value v : Json} (hvalue : value.NamesDistinct) (hv : v.NamesDistinct)
    (b : Ty) :
    (if b.admits value then literal value else never).admits v = true ↔
      (literal value).admits v = true ∧ b.admits v = true := by
  rw [admits_literal]
  split
  next hadmits =>
    rw [admits_literal]
    exact ⟨fun h => ⟨h, admits_of_sameValue hvalue hv h hadmits⟩, And.left⟩
  next hadmits =>
    simp only [not_admits_never, Bool.false_eq_true, false_iff, not_and]
    intro hsame hv'
    exact hadmits (admits_of_sameValue hv hvalue (Json.sameValue_symm hvalue hv hsame) hv')

/-- Meeting each member of a union with a type and joining what is left. -/
theorem admits_unionOf_meet {members : List Ty} {b : Ty} {v : Json}
    (hmembers : ∀ member ∈ members, member.Normalized) (hb : b.Normalized)
    (hmeet : ∀ member ∈ members,
      ((member.meet b).admits v = true ↔ member.admits v = true ∧ b.admits v = true)) :
    (unionOf (members.map (·.meet b))).admits v = true ↔
      (union members).admits v = true ∧ b.admits v = true := by
  have hnormal : ∀ ty ∈ members.map (·.meet b), ty.Normalized := by
    rw [List.forall_mem_map]
    exact fun member hmember => normalized_meet (hmembers member hmember) hb
  rw [admits_unionOf hnormal, admits_union]
  constructor
  · rintro ⟨ty, hty, hadmits⟩
    obtain ⟨member, hmember, rfl⟩ := List.mem_map.mp hty
    obtain ⟨hleft, hright⟩ := (hmeet member hmember).mp hadmits
    exact ⟨⟨member, hmember, hleft⟩, hright⟩
  · rintro ⟨⟨member, hmember, hleft⟩, hright⟩
    exact ⟨_, List.mem_map_of_mem hmember, (hmeet member hmember).mpr ⟨hleft, hright⟩⟩

/-- The meet holds exactly the values that belong to both types. The induction is
    along the recursion of the meet. -/
theorem admits_meet {a b : Ty} (ha : a.Normalized) (hb : b.Normalized) {v : Json}
    (hv : v.NamesDistinct) :
    (a.meet b).admits v = true ↔ a.admits v = true ∧ b.admits v = true := by
  induction a, b using meetInduction generalizing v with
  | never_left b => simp [meet_never_left]
  | never_right a => simp [meet_never_right]
  | any_left b => simp [meet_any_left]
  | any_right a => simp [meet_any_right]
  | union_left members b hnever hany ih =>
    rw [meet_union_left hnever hany]
    exact admits_unionOf_meet (fun _ => ha.member) hb
      fun member hmember => ih member hmember (ha.member hmember) hb hv
  | union_right a members hplain hany ih =>
    rw [meet_union_right hplain hany, and_comm]
    exact admits_unionOf_meet (fun _ => hb.member) ha
      fun member hmember => ih member hmember (hb.member hmember) ha hv
  | literal_left value b hplain hany =>
    rw [meet_literal_left hplain hany]
    exact admits_literal_meet ha.literal_value hv b
  | literal_right a value kind hkind =>
    rw [meet_literal_right hkind, and_comm]
    exact admits_literal_meet hb.literal_value hv a
  | array a b ih =>
    rw [meet_array]
    cases v with
    | arr xs =>
      rw [admits_array, admits_array, admits_array, ← forall₂_and]
      exact forall₂_congr fun x hx => ih ha.array_item hb.array_item (hv.item hx)
    | _ => simp [admits]
  | object as aIndex bs bIndex ihboth ihleft ihright ihindex =>
    cases v with
    | obj entries =>
      have hnames : (Entries.names (meetFields as aIndex bs bIndex)).Nodup :=
        names_meetFields ha.field_names hb.field_names
      rw [meet_object, ← meetFields, admits_object_iff_slot hnames hv.names,
        admits_object_iff_slot ha.field_names hv.names, admits_object_iff_slot hb.field_names hv.names,
        ← forall_and]
      have hfound : ∀ name, ∀ found ∈ entries.lookup name, found.NamesDistinct :=
        fun name found h => hv.entry (Entries.mem_of_lookup h)
      refine forall_congr' fun name => admits_slot_meet ?_ ?_ ?_ ?_
      · exact fun x hx y hy v hmem =>
          ihboth x hx y hy (ha.field_ty hx) (hb.field_ty hy) (hfound name v hmem)
      · exact fun x hx t ht v hmem =>
          ihleft x hx t ht (ha.field_ty hx) (hb.index_ty ht) (hfound name v hmem)
      · exact fun y hy s hs v hmem =>
          ihright y hy s hs (hb.field_ty hy) (ha.index_ty hs) (hfound name v hmem)
      · exact fun s hs t ht v hmem =>
          ihindex s hs t ht (ha.index_ty hs) (hb.index_ty ht) (hfound name v hmem)
    | _ => simp [meet_object, admits]
  | scalar a kind hkind harray hobject => rw [meet_scalar hkind harray hobject, and_self]
  | apart a b k l hk hl hne =>
    rw [meet_of_kind_ne hk hl hne]
    simp only [not_admits_never, Bool.false_eq_true, false_iff, not_and]
    intro hadmits hadmits'
    exact hne ((kind_of_admits hk hadmits).symm.trans (kind_of_admits hl hadmits'))

theorem normalized_meetAll {tys : List Ty} (htys : ∀ ty ∈ tys, ty.Normalized) :
    (meetAll tys).Normalized := by
  have hfold : ∀ acc : Ty, acc.Normalized → (tys.foldl meet acc).Normalized := by
    induction tys with
    | nil => exact fun _ hacc => hacc
    | cons ty tys ih =>
      intro acc hacc
      exact ih (fun t ht => htys t (List.mem_cons_of_mem _ ht)) _
        (normalized_meet hacc (htys ty List.mem_cons_self))
  exact hfold _ .any

/-- The meet of several types holds the values that belong to all of them, and
    that of no types holds all values. -/
theorem admits_meetAll {tys : List Ty} (htys : ∀ ty ∈ tys, ty.Normalized) {v : Json}
    (hv : v.NamesDistinct) :
    (meetAll tys).admits v = true ↔ ∀ ty ∈ tys, ty.admits v = true := by
  have hfold : ∀ acc : Ty, acc.Normalized →
      ((tys.foldl meet acc).admits v = true ↔
        acc.admits v = true ∧ ∀ ty ∈ tys, ty.admits v = true) := by
    induction tys with
    | nil => simp
    | cons ty tys ih =>
      intro acc hacc
      have hty := htys ty List.mem_cons_self
      rw [List.foldl_cons, ih (fun t ht => htys t (List.mem_cons_of_mem _ ht)) _
        (normalized_meet hacc hty), admits_meet hacc hty hv, List.forall_mem_cons, and_assoc]
  rw [meetAll, hfold .any .any]
  simp

theorem Normalized.of_mem_members {ty member : Ty} (h : ty.Normalized) (hmember : member ∈ ty.members) :
    member.Normalized := by
  cases ty with
  | union members => exact h.member hmember
  | _ => exact List.mem_singleton.mp hmember ▸ h

/-- Intersection is exact on values: the meet of two types, the meet of a list of
    types and the meet of the members of a type hold the values that all of the
    types in question hold, and no other. -/
theorem admits_meet_exactly {a b ty : Ty} {tys : List Ty} {v : Json} (ha : a.Normalized)
    (hb : b.Normalized) (htys : ∀ t ∈ tys, t.Normalized) (hty : ty.Normalized)
    (hv : v.NamesDistinct) :
    ((a.meet b).admits v = true ↔ a.admits v = true ∧ b.admits v = true) ∧
      ((meetAll tys).admits v = true ↔ ∀ t ∈ tys, t.admits v = true) ∧
      ((meetMembers ty).admits v = true ↔ ∀ member ∈ ty.members, member.admits v = true) :=
  ⟨admits_meet ha hb hv, admits_meetAll htys hv,
    admits_meetAll (fun _ => hty.of_mem_members) hv⟩

/-- A literal in a union that is met with the type of all numbers. The members of
    the union have no common value. -/
theorem admits_meet_exactly_literal_or_string :
    ((union [.literal (.num (.int 42)), .string]).meet .number).admits (.num (.int 42)) = true ∧
      (meetAll [.union [.literal (.num (.int 42)), .string], .number]).admits
        (.num (.int 42)) = true ∧
      ¬ (meetMembers (.union [.literal (.num (.int 42)), .string])).admits
        (.num (.int 42)) = true := by
  have hunion : (union [.literal (.num (.int 42)), .string]).Normalized := by
    refine .union (by decide) (by decide) ?_ (by decide +kernel)
    simp only [List.forall_mem_cons, List.not_mem_nil, false_imp_iff, implies_true, and_true]
    exact ⟨.literal (.num _), .string⟩
  have htys : ∀ t ∈ [union [.literal (.num (.int 42)), .string], .number], t.Normalized := by
    simp only [List.forall_mem_cons, List.not_mem_nil, false_imp_iff, implies_true, and_true]
    exact ⟨hunion, .number⟩
  obtain ⟨hmeet, hall, hmembers⟩ :=
    admits_meet_exactly hunion .number htys hunion (.num (.int 42))
  refine ⟨hmeet.mpr (by decide), hall.mpr (by decide), fun h => ?_⟩
  exact absurd (hmembers.mp h .string (by simp [members])) (by decide)

end Ty

end SchemaTypes
