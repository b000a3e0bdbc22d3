import Mathlib.Logic.Basic
import SchemaTypes.Proofs.Ty.Equality

namespace SchemaTypes

/-- Whether a field admits what an object has under its name, which may be nothing. -/
def Field.admits (field : Field Ty) : Option Json → Bool
  | none => field.optional
  | some v => field.ty.admits v

namespace Ty

theorem someAdmits_iff {members : List Ty} {v : Json} :
    someAdmits members v = true ↔ ∃ member ∈ members, member.admits v = true := by
  induction members with
  | nil => simp [someAdmits]
  | cons member members ih => simp [someAdmits, ih]

theorem fieldsAdmit_iff {fields : List (String × Field Ty)} {entries : List (String × Json)} :
    fieldsAdmit fields entries = true ↔
      ∀ entry ∈ fields, entry.2.admits (entries.lookup entry.1) = true := by
  induction fields with
  | nil => simp [fieldsAdmit]
  | cons entry fields ih =>
    obtain ⟨name, ty, optional⟩ := entry
    simp only [fieldsAdmit, Bool.and_eq_true, ih, List.forall_mem_cons]
    cases entries.lookup name <;> simp [Field.admits]

section Cases

variable {v : Json}

/-- A literal type holds the values that are equal to the literal. -/
theorem admits_literal {value : Json} : (literal value).admits v = value.sameValue v := by
  simp [admits]

theorem admits_union {members : List Ty} :
    (union members).admits v = true ↔ ∃ member ∈ members, member.admits v = true := by
  simp [admits, someAdmits_iff]

theorem admits_array {item : Ty} {values : List Json} :
    (array item).admits (.arr values) = true ↔ ∀ x ∈ values, item.admits x = true := by
  simp [admits]

/-- An object type asks every field of the entry of its name, and the index of all
    entries that no field names. -/
theorem admits_object {fields : List (String × Field Ty)} {index : Option Ty}
    {entries : List (String × Json)} :
    (object fields index).admits (.obj entries) = true ↔
      (∀ field ∈ fields, field.2.admits (entries.lookup field.1) = true) ∧
        ∀ ty ∈ index, ∀ entry ∈ entries, entry.1 ∉ Entries.names fields →
          ty.admits entry.2 = true := by
  cases index with
  | none => simp [admits, fieldsAdmit_iff]
  | some ty =>
    simp only [admits, Bool.and_eq_true, fieldsAdmit_iff, List.all_eq_true, Bool.or_eq_true,
      Entries.has_iff, Option.mem_def, Option.some.injEq, forall_eq', or_iff_not_imp_left]

end Cases

/-- What an object type says of a name. Its index stands for an optional field of
    every name that is not listed; without an index such a name is left free. -/
def slot (fields : List (String × Field Ty)) (index : Option Ty) (name : String) :
    Option (Field Ty) :=
  (fields.lookup name).or (index.map fun ty => ⟨ty, true⟩)

/-- An object type admits an object name by name. This is the form in which object
    types are met and compared. -/
theorem admits_object_iff_slot {fields : List (String × Field Ty)} {index : Option Ty}
    {entries : List (String × Json)} (hfields : (Entries.names fields).Nodup)
    (hentries : (Entries.names entries).Nodup) :
    (object fields index).admits (.obj entries) = true ↔
      ∀ name, ∀ field ∈ slot fields index name, field.admits (entries.lookup name) = true := by
  rw [admits_object]
  constructor
  · rintro ⟨hnamed, hindex⟩ name field hslot
    cases hlookup : fields.lookup name with
    | some own =>
      rw [slot, hlookup, Option.some_or, Option.mem_some_iff] at hslot
      subst hslot
      exact hnamed (name, own) (Entries.mem_of_lookup hlookup)
    | none =>
      rw [slot, hlookup, Option.none_or, Option.mem_def, Option.map_eq_some_iff] at hslot
      obtain ⟨ty, hty, rfl⟩ := hslot
      cases hvalue : entries.lookup name with
      | none => rfl
      | some v =>
        exact hindex ty hty (name, v) (Entries.mem_of_lookup hvalue)
          (Entries.lookup_eq_none_iff.mp hlookup)
  · intro hslot
    refine ⟨fun field hfield => ?_, fun ty hty entry hentry hname => ?_⟩
    · apply hslot
      rw [slot, (Entries.lookup_eq_some_iff hfields).mpr hfield]
      rfl
    · have hadmits := hslot entry.1 ⟨ty, true⟩ (by
        rw [slot, Entries.lookup_eq_none_iff.mpr hname, Option.mem_def.mp hty]
        rfl)
      rwa [(Entries.lookup_eq_some_iff hentries).mpr hentry] at hadmits

end Ty

namespace Json

/-- Equal objects have equal values under every name. -/
theorem lookup_rel_of_sameValue {xs ys : List (String × Json)} (hxs : (Json.obj xs).NamesDistinct)
    (hys : (Json.obj ys).NamesDistinct) (h : (Json.obj xs).sameValue (.obj ys) = true)
    (name : String) :
    Option.Rel (fun x y => x.sameValue y = true) (xs.lookup name) (ys.lookup name) := by
  cases hx : xs.lookup name with
  | some x =>
    obtain ⟨y, hy, hsame⟩ := (sameValue_obj.mp h).2 (name, x) (Entries.mem_of_lookup hx)
    rw [hy]
    exact .some hsame
  | none =>
    cases hy : ys.lookup name with
    | none => exact .none
    | some y =>
      obtain ⟨x, hx', _⟩ :=
        (sameValue_obj.mp (sameValue_symm hxs hys h)).2 (name, y) (Entries.mem_of_lookup hy)
      rw [hx] at hx'
      cases hx'

end Json

namespace Ty

/-- A type cannot tell equal values apart. Unions need no normal form for this,
    since it is enough that one member admits the value. -/
theorem admits_of_sameValue {ty : Ty} {v w : Json} (hv : v.NamesDistinct) (hw : w.NamesDistinct)
    (h : v.sameValue w = true) (hadmits : ty.admits v = true) : ty.admits w = true := by
  induction ty generalizing v w with
  | never => simp at hadmits
  | any => simp
  | null | number | string | boolean =>
    cases v <;> simp [admits] at hadmits
    cases w <;> simp [Json.sameValue, Json.sameBy] at h
    simp [admits]
  | literal value =>
    rw [admits_literal] at hadmits ⊢
    exact Json.sameValue_trans hadmits h
  | array item ih =>
    cases v with
    | arr xs =>
      cases w with
      | arr ys =>
        rw [admits_array] at hadmits ⊢
        obtain ⟨hlength, hitems⟩ := Json.sameValue_arr.mp h
        intro y hy
        obtain ⟨i, hi, hyi⟩ := List.getElem_of_mem hy
        have hx := List.getElem_mem (l := xs) (hlength ▸ hi : i < xs.length)
        exact ih (hv.item hx) (hw.item hy)
          (hitems i _ y (List.getElem?_eq_getElem _) (List.getElem?_eq_some_iff.mpr ⟨hi, hyi⟩))
          (hadmits _ hx)
      | _ => simp [Json.sameValue, Json.sameBy] at h
    | _ => simp [admits] at hadmits
  | object fields index ihfields ihindex =>
    cases v with
    | obj xs =>
      cases w with
      | obj ys =>
        have hrel := Json.lookup_rel_of_sameValue hv hw h
        rw [admits_object] at hadmits ⊢
        obtain ⟨hfields, hindex⟩ := hadmits
        refine ⟨fun field hfield => ?_, fun ty hty entry hentry hname => ?_⟩
        · have hadmits := hfields field hfield
          have hname := hrel field.1
          generalize hx : xs.lookup field.1 = x? at hname hadmits
          generalize hy : ys.lookup field.1 = y? at hname ⊢
          cases hname with
          | none => exact hadmits
          | some hsame =>
            exact ihfields field hfield (hv.entry (Entries.mem_of_lookup hx))
              (hw.entry (Entries.mem_of_lookup hy)) hsame hadmits
        · have hy := (Entries.lookup_eq_some_iff hw.names).mpr hentry
          have hfound := hrel entry.1
          rw [hy] at hfound
          generalize hx : xs.lookup entry.1 = found at hfound
          cases hfound with
          | some hsame =>
            have hmem := Entries.mem_of_lookup hx
            exact ihindex ty hty (hv.entry hmem) (hw.entry hentry) hsame
              (hindex ty hty _ hmem hname)
      | _ => simp [Json.sameValue, Json.sameBy] at h
    | _ => simp [admits] at hadmits
  | union members ih =>
    rw [admits_union] at hadmits ⊢
    obtain ⟨member, hmember, hadmits⟩ := hadmits
    exact ⟨member, hmember, ih member hmember hv hw h hadmits⟩

/-- Equal types hold the same values. -/
theorem admits_of_same {a b : Ty} (ha : a.Normalized) (hb : b.Normalized) (h : a.same b = true)
    {v : Json} (hv : a.admits v = true) : b.admits v = true := by
  induction a generalizing b v with
  | never | any | null | number | string | boolean =>
    cases b <;> simp [same] at h
    exact hv
  | literal value =>
    cases b <;> simp [same] at h
    rw [admits_literal] at hv ⊢
    exact Json.sameValue_trans (Json.sameValue_symm ha.literal_value hb.literal_value h) hv
  | array item ih =>
    cases b <;> simp [same] at h
    cases v with
    | arr xs =>
      rw [admits_array] at hv ⊢
      exact fun x hx => ih ha.array_item hb.array_item h (hv x hx)
    | _ => simp [admits] at hv
  | object fields index ihfields ihindex =>
    cases b with
    | object others other =>
      have hback := h
      rw [same_comm ha hb] at hback
      obtain ⟨_, hcover, hrel⟩ := same_object.mp h
      obtain ⟨_, hcover', _⟩ := same_object.mp hback
      cases v with
      | obj entries =>
        rw [admits_object] at hv ⊢
        obtain ⟨hfields, hindex⟩ := hv
        refine ⟨fun y hy => ?_, fun ty hty entry hentry hname => ?_⟩
        · obtain ⟨x, hx, hname, hty, hoptional⟩ := hcover' y hy
          rw [same_comm (hb.field_ty hy) (ha.field_ty hx)] at hty
          have hadmits := hfields x hx
          rw [hname] at hadmits
          cases hlookup : entries.lookup y.1 with
          | none =>
            rw [hlookup] at hadmits
            exact hoptional.trans hadmits
          | some found =>
            rw [hlookup] at hadmits
            exact ihfields x hx (ha.field_ty hx) (hb.field_ty hy) hty hadmits
        · rw [Option.mem_def] at hty
          subst hty
          generalize hsome : index = own at hrel
          cases hrel with
          | some hsame =>
            refine ihindex _ hsome (ha.index_ty hsome) (hb.index_ty rfl) hsame
              (hindex _ hsome entry hentry fun hmem => hname ?_)
            obtain ⟨x, hx, hxname⟩ := List.mem_map.mp hmem
            obtain ⟨y, hy, hyname, _⟩ := hcover x hx
            exact List.mem_map.mpr ⟨y, hy, hyname.trans hxname⟩
      | _ => simp [admits] at hv
    | _ => simp [same] at h
  | union members ih =>
    cases b with
    | union others =>
      rw [admits_union] at hv ⊢
      obtain ⟨x, hx, hadmits⟩ := hv
      obtain ⟨y, hy, hyx⟩ := (same_union.mp h).2 x hx
      rw [same_comm (hb.member hy) (ha.member hx)] at hyx
      exact ⟨y, hy, ih x hx (ha.member hx) (hb.member hy) hyx hadmits⟩
    | _ => simp [same] at h

end Ty

namespace Json

/-- Two values are equal exactly if no type tells them apart, among all types and
    not only those in normal form. For one direction it is enough to ask the
    literal type of one of the two values. -/
theorem sameValue_iff_forall_admits_eq {v w : Json} (hv : v.NamesDistinct) (hw : w.NamesDistinct) :
    v.sameValue w = true ↔ ∀ ty : Ty, ty.admits v = ty.admits w := by
  constructor
  · intro h ty
    have hback := sameValue_symm hv hw h
    rw [Bool.eq_iff_iff]
    exact ⟨Ty.admits_of_sameValue hv hw h, Ty.admits_of_sameValue hw hv hback⟩
  · intro h
    -- The literal type of the first value holds that value, hence the second.
    have hself := sameValue_refl hv
    rw [← Ty.admits_literal, h, Ty.admits_literal] at hself
    exact hself

/-- Orders that differ in the order of their entries and in how their numbers are
    written, and a type whose unions are in no normal form. -/
theorem sameValue_iff_forall_admits_eq_orders :
    let one : Double := ⟨false, 1 <<< 52, -52, by decide, by decide, by decide, .inr (by decide)⟩
    let v := Json.obj [("id", .num (.int 1)), ("rest", .num (.int 0)),
      ("lines", .arr [.obj [("item", .str "a"), ("count", .num (.int 1))]])]
    let w := Json.obj [("lines", .arr [.obj [("count", .num (.float one)), ("item", .str "a")]]),
      ("rest", .num (.float (.zero true))), ("id", .num (.float one))]
    let line := Ty.object [("item", ⟨.string, false⟩)] (some (.literal (.num (.int 1))))
    let order := Ty.object [("id", ⟨.literal (.num (.float one)), false⟩),
      ("lines", ⟨.array (.union [line, .never, line]), false⟩), ("note", ⟨.string, true⟩)]
      (some .number)
    let ty := Ty.union [.null, .union [.null, order]]
    v.sameValue w = true ∧ ty.admits v = true ∧ ty.admits w = true := by
  intro one v w line order ty
  have hsame : v.sameValue w = true := by decide +kernel
  have hadmits : ty.admits v = true := by decide +kernel
  have hv : v.NamesDistinct := by simp [v, Entries.names]
  have hw : w.NamesDistinct := by simp [w, Entries.names]
  exact ⟨hsame, hadmits, (sameValue_iff_forall_admits_eq hv hw).mp hsame ty ▸ hadmits⟩

end Json

end SchemaTypes
