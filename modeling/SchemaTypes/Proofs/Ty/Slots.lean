import SchemaTypes.Proofs.Ty.Inclusion
import SchemaTypes.Proofs.Ty.Meet

namespace SchemaTypes

namespace Field

/-- Fields of equal types that both may be missing or both may not. -/
structure Alike (f g : Field Ty) : Prop where
  ty : f.ty.Alike g.ty
  optional : f.optional = g.optional

/-- What two object types say together of a name when each says something. -/
def meet (f g : Field Ty) : Field Ty := ⟨f.ty.meet g.ty, f.optional && g.optional⟩

theorem Alike.symm {f g : Field Ty} (h : f.Alike g) : g.Alike f := ⟨h.ty.symm, h.optional.symm⟩

theorem Alike.trans {f g k : Field Ty} (hfg : f.Alike g) (hgk : g.Alike k) : f.Alike k :=
  ⟨hfg.ty.trans hgk.ty, hfg.optional.trans hgk.optional⟩

end Field

namespace Ty

/-- What two object types say of a name, which may be nothing. -/
def SlotAlike : Option (Field Ty) → Option (Field Ty) → Prop := Option.Rel Field.Alike

namespace SlotAlike

variable {s t u : Option (Field Ty)}

theorem refl (hs : ∀ f ∈ s, f.ty.Normalized) : SlotAlike s s := by
  cases s with
  | none => exact .none
  | some f => exact .some ⟨.refl (hs f rfl), rfl⟩

theorem symm (h : SlotAlike s t) : SlotAlike t s := by
  cases h with
  | none => exact .none
  | some h => exact .some h.symm

theorem trans (hst : SlotAlike s t) (htu : SlotAlike t u) : SlotAlike s u := by
  cases hst with
  | none => exact htu
  | some hfg =>
    cases htu with
    | some hgk => exact .some (hfg.trans hgk)

end SlotAlike

/-- What an object type says of every name that it does not list. -/
def rest (index : Option Ty) : Option (Field Ty) := index.map fun ty => ⟨ty, true⟩

/-- What two object types say together of a name. -/
def meetSlot : Option (Field Ty) → Option (Field Ty) → Option (Field Ty) := Option.merge Field.meet

theorem meetSlot_none_left (s : Option (Field Ty)) : meetSlot none s = s := by cases s <;> rfl

theorem meetSlot_none_right (s : Option (Field Ty)) : meetSlot s none = s := by cases s <;> rfl

section Objects

variable {fields others as bs : List (String × Field Ty)} {index other aIndex bIndex : Option Ty}
  {name : String}

theorem slot_eq_or : slot fields index name = (fields.lookup name).or (rest index) := rfl

theorem forall_mem_rest {P : Ty → Prop} (h : ∀ ty ∈ index, P ty) : ∀ f ∈ rest index, P f.ty := by
  intro f hf
  obtain ⟨ty, hty, rfl⟩ := Option.map_eq_some_iff.mp hf
  exact h ty hty

/-- What an object type says of a name comes from a field or from the index, and
    so what holds of all of these holds of it. -/
theorem forall_mem_slot {P : Ty → Prop} (hfields : ∀ entry ∈ fields, P entry.2.ty)
    (hindex : ∀ ty ∈ index, P ty) : ∀ f ∈ slot fields index name, P f.ty := by
  intro f hf
  rw [slot_eq_or] at hf
  cases hfound : fields.lookup name with
  | some own =>
    rw [hfound, Option.some_or, Option.mem_some_iff] at hf
    exact hf ▸ hfields _ (Entries.mem_of_lookup hfound)
  | none =>
    rw [hfound, Option.none_or] at hf
    exact forall_mem_rest hindex f hf

theorem normalized_of_mem_slot (h : (object fields index).Normalized) (name : String) :
    ∀ f ∈ slot fields index name, f.ty.Normalized :=
  forall_mem_slot (fun _ => h.field_ty) fun _ => h.index_ty

/-- Equal indices say the same of the names that are not listed. -/
theorem slotAlike_rest_iff :
    SlotAlike (rest index) (rest other) ↔ Option.Rel Alike index other := by
  constructor
  · intro h
    cases index <;> cases other <;> cases h
    · exact .none
    · exact .some (by assumption : Field.Alike _ _).ty
  · intro h
    cases h with
    | none => exact .none
    | some h => exact .some ⟨h, rfl⟩

/-- Of a listed name the field alone counts, and the index is not asked. -/
theorem slot_of_mem (hnames : (Entries.names fields).Nodup) {entry : String × Field Ty}
    (hentry : entry ∈ fields) : slot fields index entry.1 = some entry.2 := by
  rw [slot_eq_or, (Entries.lookup_eq_some_iff hnames).mpr hentry, Option.some_or]

theorem slot_of_not_mem (hname : name ∉ Entries.names fields) :
    slot fields index name = rest index := by
  rw [slot_eq_or, Entries.lookup_eq_none_iff.mpr hname, Option.none_or]

/-- Two object types are equal if they list the same names and say the same of every name,
    and of those that are not listed. The order of the fields does not occur here. -/
theorem alike_object_iff (ha : (object fields index).Normalized)
    (hb : (object others other).Normalized) :
    (object fields index).Alike (object others other) ↔
      (∀ name, name ∈ Entries.names fields ↔ name ∈ Entries.names others) ∧
        (∀ name, SlotAlike (slot fields index name) (slot others other name)) ∧
        SlotAlike (rest index) (rest other) := by
  constructor
  · intro h
    obtain ⟨_, hcover, hindex⟩ := same_object.mp h.same
    obtain ⟨_, hcover', _⟩ := same_object.mp h.symm.same
    have hnames : ∀ name, name ∈ Entries.names fields ↔ name ∈ Entries.names others := by
      intro name
      constructor
      · intro hname
        obtain ⟨x, hx, rfl⟩ := List.mem_map.mp hname
        obtain ⟨y, hy, hyx, _⟩ := hcover x hx
        exact List.mem_map.mpr ⟨y, hy, hyx⟩
      · intro hname
        obtain ⟨y, hy, rfl⟩ := List.mem_map.mp hname
        obtain ⟨x, hx, hxy, _⟩ := hcover' y hy
        exact List.mem_map.mpr ⟨x, hx, hxy⟩
    have hrest : SlotAlike (rest index) (rest other) := by
      rw [slotAlike_rest_iff]
      cases index with
      | none =>
        cases hindex
        exact .none
      | some s =>
        cases hindex with
        | some hsame => exact .some ⟨ha.index_ty rfl, hb.index_ty rfl, hsame⟩
    refine ⟨hnames, fun name => ?_, hrest⟩
    by_cases hname : name ∈ Entries.names fields
    · obtain ⟨x, hx, rfl⟩ := List.mem_map.mp hname
      obtain ⟨y, hy, hyx, hsame, hoptional⟩ := hcover x hx
      rw [slot_of_mem ha.field_names hx, ← hyx, slot_of_mem hb.field_names hy]
      exact .some ⟨⟨ha.field_ty hx, hb.field_ty hy, hsame⟩, hoptional⟩
    · rw [slot_of_not_mem hname, slot_of_not_mem fun hother => hname ((hnames name).mpr hother)]
      exact hrest
  · rintro ⟨hnames, hslots, hrest⟩
    have hlength : fields.length = others.length := by
      have hperm := (List.perm_ext_iff_of_nodup ha.field_names hb.field_names).mpr hnames
      simpa [Entries.names] using hperm.length_eq
    refine ⟨ha, hb, same_object.mpr ⟨hlength, fun x hx => ?_, ?_⟩⟩
    · have hname : x.1 ∈ Entries.names others := (hnames x.1).mp (List.mem_map_of_mem hx)
      obtain ⟨y, hy, hyx⟩ := List.mem_map.mp hname
      have hslot := hslots x.1
      rw [slot_of_mem ha.field_names hx, ← hyx, slot_of_mem hb.field_names hy] at hslot
      cases hslot with
      | some halike => exact ⟨y, hy, hyx, halike.ty.same, halike.optional⟩
    · rw [slotAlike_rest_iff] at hrest
      cases hrest with
      | none => exact .none
      | some halike => exact .some halike.same

theorem meet_object_eq :
    (object as aIndex).meet (object bs bIndex) =
      object (meetFields as aIndex bs bIndex) (meetIndex aIndex bIndex) :=
  meet_object as bs aIndex bIndex

/-- The meet of two object types lists the names of both. -/
theorem mem_names_meetFields :
    name ∈ Entries.names (meetFields as aIndex bs bIndex) ↔
      name ∈ Entries.names as ∨ name ∈ Entries.names bs := by
  rw [← not_iff_not, not_or, ← Entries.lookup_eq_none_iff, ← Entries.lookup_eq_none_iff,
    ← Entries.lookup_eq_none_iff, lookup_meetFields]
  cases as.lookup name <;> simp

theorem rest_meetIndex : rest (meetIndex aIndex bIndex) = meetSlot (rest aIndex) (rest bIndex) := by
  cases aIndex <;> cases bIndex <;> rfl

/-- A field that only one type lists is met with what the other says of all names
    that it does not list. -/
theorem some_constrain (f : Field Ty) : some (constrain f index) = meetSlot (some f) (rest index) := by
  cases index with
  | none => rfl
  | some ty => simp [constrain, rest, meetSlot, Field.meet]

/-- What the meet of two object types says of a name. A name that only the second
    lists has its own field in front of the index of the first. -/
theorem slot_meetFields :
    slot (meetFields as aIndex bs bIndex) (meetIndex aIndex bIndex) name =
      match as.lookup name, bs.lookup name with
      | some f, g => meetSlot (some f) (g.or (rest bIndex))
      | none, some g => meetSlot (some g) (rest aIndex)
      | none, none => meetSlot (rest aIndex) (rest bIndex) := by
  rw [slot_eq_or, lookup_meetFields]
  cases hf : as.lookup name with
  | some f =>
    cases hg : bs.lookup name with
    | some g => simp [meetField, hg, meetSlot, Field.meet]
    | none => simp only [meetField, hg, Option.none_or, Option.some_or, ← some_constrain]
  | none =>
    cases hg : bs.lookup name with
    | some g => simp only [Option.map_some, Option.some_or, ← some_constrain]
    | none => simp [rest_meetIndex]

end Objects

end Ty

end SchemaTypes
