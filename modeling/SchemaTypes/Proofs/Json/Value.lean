import Mathlib.Data.List.Perm.Subperm
import SchemaTypes.Proofs.Number.Value

namespace SchemaTypes

namespace Json

/-- Equality of JSON data under a given relation of numbers: lists item by item,
    and objects as maps from names to values. -/
inductive EqualBy (R : Number → Number → Prop) : Json → Json → Prop where
  | null : EqualBy R .null .null
  | bool (value : Bool) : EqualBy R (.bool value) (.bool value)
  | num {a b : Number} (h : R a b) : EqualBy R (.num a) (.num b)
  | str (value : String) : EqualBy R (.str value) (.str value)
  | arr {xs ys : List Json} (hlength : xs.length = ys.length)
      (hitems : ∀ (i : Nat) (x y : Json), xs[i]? = some x → ys[i]? = some y → EqualBy R x y) :
    EqualBy R (.arr xs) (.arr ys)
  | obj {xs ys : List (String × Json)}
      (hnames : ∀ name, name ∈ Entries.names xs ↔ name ∈ Entries.names ys)
      (hvalues : ∀ name x y, xs.lookup name = some x → ys.lookup name = some y → EqualBy R x y) :
    EqualBy R (.obj xs) (.obj ys)

/-- Two JSON values are the same data: numbers have the same exact value. -/
def Equal : Json → Json → Prop := EqualBy fun a b => a.toRat = b.toRat

/-- A number is the value itself or stands somewhere in it. -/
inductive HasNumber : Json → Number → Prop where
  | num (n : Number) : HasNumber (.num n) n
  | item {items : List Json} {x : Json} {n : Number} (hx : x ∈ items) (h : HasNumber x n) :
    HasNumber (.arr items) n
  | entry {entries : List (String × Json)} {name : String} {x : Json} {n : Number}
      (hx : (name, x) ∈ entries) (h : HasNumber x n) : HasNumber (.obj entries) n

@[simp]
theorem hasNumber_num {a n : Number} : (Json.num a).HasNumber n ↔ n = a := by
  constructor
  · rintro ⟨⟩
    rfl
  · rintro rfl
    exact .num _

@[simp]
theorem not_hasNumber_str {value : String} {n : Number} : ¬ (Json.str value).HasNumber n := nofun

@[simp]
theorem hasNumber_obj {entries : List (String × Json)} {n : Number} :
    (Json.obj entries).HasNumber n ↔ ∃ entry ∈ entries, entry.2.HasNumber n := by
  constructor
  · intro h
    cases h with
    | entry hx h => exact ⟨_, hx, h⟩
  · rintro ⟨_, hentry, h⟩
    exact .entry hentry h

variable {R S : Number → Number → Prop} {v w : Json}

/-- Only the numbers that are there matter, so that two ways of comparing numbers
    may be exchanged if they agree on these. -/
theorem EqualBy.imp (h : EqualBy R v w)
    (himp : ∀ a b, v.HasNumber a → w.HasNumber b → R a b → S a b) : EqualBy S v w := by
  induction h with
  | null => exact .null
  | bool value => exact .bool value
  | num h => exact .num (himp _ _ (.num _) (.num _) h)
  | str value => exact .str value
  | arr hlength _ ih =>
    refine .arr hlength fun i x y hx hy => ih i x y hx hy fun a b ha hb => ?_
    exact himp a b (.item (List.mem_of_getElem? hx) ha) (.item (List.mem_of_getElem? hy) hb)
  | obj hnames _ ih =>
    refine .obj hnames fun name x y hx hy => ih name x y hx hy fun a b ha hb => ?_
    exact himp a b (.entry (Entries.mem_of_lookup hx) ha) (.entry (Entries.mem_of_lookup hy) hb)

theorem lookup_isSome_iff {entries : List (String × Json)} {name : String} :
    (∃ x, entries.lookup name = some x) ↔ name ∈ Entries.names entries := by
  rw [← not_iff_not, ← Entries.lookup_eq_none_iff, ← Option.ne_none_iff_exists', not_not]

/-- Objects with equally many entries, none of which lacks a partner of its name,
    have the same names. This is how the count of entries stands in for looking
    from the other side. -/
theorem mem_names_iff {xs ys : List (String × Json)} (hxs : (Entries.names xs).Nodup)
    (hys : (Entries.names ys).Nodup) :
    (∀ name, name ∈ Entries.names xs ↔ name ∈ Entries.names ys) ↔
      xs.length = ys.length ∧ Entries.names xs ⊆ Entries.names ys := by
  have hlength (entries : List (String × Json)) : (Entries.names entries).length = entries.length :=
    List.length_map _
  rw [← List.perm_ext_iff_of_nodup hxs hys, ← hlength xs, ← hlength ys]
  constructor
  · exact fun hperm => ⟨hperm.length_eq, hperm.subset⟩
  · rintro ⟨hlength, hsubset⟩
    exact (List.subperm_of_subset hxs hsubset).perm_of_length_le hlength.ge

/-- The comparison decides whether two values are equal, names being distinct.
    What it means for numbers to be equal is left open, and every entry of one
    object is looked up in the other by name. -/
theorem sameBy_iff_equalBy {sameNumber : Number → Number → Bool} (hv : v.NamesDistinct)
    (hw : w.NamesDistinct) :
    v.sameBy sameNumber w = true ↔ EqualBy (fun a b => sameNumber a b = true) v w := by
  constructor
  · intro h
    induction v generalizing w with
    | null => cases w <;> simp_all [sameBy, EqualBy.null]
    | bool value => cases w <;> simp_all [sameBy, EqualBy.bool]
    | num value =>
      cases w with
      | num other => exact .num h
      | _ => simp [sameBy] at h
    | str value => cases w <;> simp_all [sameBy, EqualBy.str]
    | arr xs ih =>
      cases w with
      | arr ys =>
        rw [sameBy, sameItemsBy_iff] at h
        refine .arr h.1 fun i x y hx hy => ?_
        have hmem := List.mem_of_getElem? hx
        exact ih x hmem (hv.item hmem) (hw.item (List.mem_of_getElem? hy)) (h.2 i x y hx hy)
      | _ => simp [sameBy] at h
    | obj xs ih =>
      cases w with
      | obj ys =>
        rw [sameBy, Bool.and_eq_true, sameEntriesBy_iff, beq_iff_eq] at h
        obtain ⟨hlength, hentries⟩ := h
        refine .obj ((mem_names_iff hv.names hw.names).mpr ⟨hlength, fun name hname => ?_⟩)
          fun name x y hx hy => ?_
        · obtain ⟨entry, hentry, rfl⟩ := List.mem_map.mp hname
          obtain ⟨y, hy, _⟩ := hentries entry hentry
          exact lookup_isSome_iff.mp ⟨y, hy⟩
        · have hmem := Entries.mem_of_lookup hx
          obtain ⟨y', hy', hsame⟩ := hentries (name, x) hmem
          rw [hy, Option.some.injEq] at hy'
          subst hy'
          exact ih (name, x) hmem (hv.entry hmem) (hw.entry (Entries.mem_of_lookup hy)) hsame
      | _ => simp [sameBy] at h
  · intro h
    induction h with
    | null => rfl
    | bool value => simp [sameBy]
    | num h => exact h
    | str value => simp [sameBy]
    | arr hlength _ ih =>
      rw [sameBy, sameItemsBy_iff]
      refine ⟨hlength, fun i x y hx hy => ih i x y hx hy ?_ ?_⟩
      · exact hv.item (List.mem_of_getElem? hx)
      · exact hw.item (List.mem_of_getElem? hy)
    | obj hnames _ ih =>
      rw [sameBy, Bool.and_eq_true, sameEntriesBy_iff, beq_iff_eq]
      obtain ⟨hlength, hsubset⟩ := (mem_names_iff hv.names hw.names).mp hnames
      refine ⟨hlength, fun entry hentry => ?_⟩
      obtain ⟨y, hy⟩ := lookup_isSome_iff.mpr (hsubset (List.mem_map_of_mem hentry))
      refine ⟨y, hy, ih entry.1 entry.2 y ?_ hy (hv.entry hentry) (hw.entry (Entries.mem_of_lookup hy))⟩
      exact (Entries.lookup_eq_some_iff hv.names).mpr hentry

/-- What the comparison of literals decides. Equal data are always found equal. Besides,
    numbers that are nearest to the same double are, so that the comparison is exact where
    every number is the value of a double, and not in general. -/
theorem sameValue_iff_equal_up_to_rounding (hv : v.NamesDistinct) (hw : w.NamesDistinct) :
    (v.sameValue w = true ↔ EqualBy (fun a b => a.toRat = b.toRat ∨ a.SameNearest b) v w) ∧
    (v.Equal w → v.sameValue w = true) ∧
    ((∀ n, v.HasNumber n → n.IsDouble) → (∀ n, w.HasNumber n → n.IsDouble) →
      (v.sameValue w = true ↔ v.Equal w)) := by
  have hrounded : v.sameValue w = true ↔
      EqualBy (fun a b => a.toRat = b.toRat ∨ a.SameNearest b) v w := by
    rw [sameValue, sameBy_iff_equalBy hv hw]
    simp only [Number.sameValue_iff_rounded]
  have hequal (h : v.Equal w) : v.sameValue w = true :=
    hrounded.mpr (EqualBy.imp h fun _ _ _ _ => .inl)
  refine ⟨hrounded, hequal, fun hvDoubles hwDoubles => ⟨fun h => ?_, hequal⟩⟩
  refine EqualBy.imp (hrounded.mp h) fun a b ha hb hab => ?_
  exact hab.elim id (Number.SameNearest.toRat_eq (hvDoubles a ha) (hwDoubles b hb))

/-- An integer and a double of the same value, in objects whose entries are turned
    around. -/
theorem sameValue_iff_equal_up_to_rounding_sizes :
    let one : Double := ⟨false, 1 <<< 52, -52, by decide, by decide, by decide, .inr (by decide)⟩
    let v := Json.obj [("name", .str "a"), ("size", .num (.int 1))]
    let w := Json.obj [("size", .num (.float one)), ("name", .str "a")]
    v.sameValue w = true ∧ v.Equal w := by
  intro one v w
  have hsame : v.sameValue w = true := by decide +kernel
  have hv : ∀ n, v.HasNumber n → n.IsDouble := by
    intro n hn
    obtain rfl : n = .int 1 := by simpa [v] using hn
    exact Double.exists_toRat_eq (by decide)
  have hw : ∀ n, w.HasNumber n → n.IsDouble := by
    intro n hn
    obtain rfl : n = .float one := by simpa [w] using hn
    exact Number.isDouble_float one
  have hiff := (sameValue_iff_equal_up_to_rounding (v := v) (w := w) (by simp [v, Entries.names])
    (by simp [w, Entries.names])).2.2 hv hw
  exact ⟨hsame, hiff.mp hsame⟩

/-- Two integers that differ are found equal, since both are nearest to the same
    double. The statement without rounding is refuted by them. -/
theorem sameValue_neighbouring_integers :
    let v := Json.num (.int 9007199254740992)
    let w := Json.num (.int 9007199254740993)
    v.sameValue w = true ∧ ¬ v.Equal w := by
  refine ⟨by decide +kernel, ?_⟩
  rintro (_ | _ | h)
  simp [Number.toRat] at h

end Json

end SchemaTypes
