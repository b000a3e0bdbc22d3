import SchemaTypes.Proofs.Json.Basic

namespace SchemaTypes

namespace Double

/-- Doubles are equal if they are the same, or both zero with whatever signs. -/
theorem sameValue_iff {x y : Double} :
    x.sameValue y = true ↔ x = y ∨ x.isZero = true ∧ y.isZero = true := by
  simp [sameValue]

theorem sameValue_symm {x y : Double} (h : x.sameValue y = true) : y.sameValue x = true := by
  rw [sameValue_iff] at h ⊢
  exact h.imp Eq.symm And.symm

theorem sameValue_trans {x y z : Double} (hxy : x.sameValue y = true)
    (hyz : y.sameValue z = true) : x.sameValue z = true := by
  rw [sameValue_iff] at hxy hyz ⊢
  rcases hxy with rfl | ⟨hx, hy⟩
  · exact hyz
  · rcases hyz with rfl | ⟨_, hz⟩
    · exact .inr ⟨hx, hy⟩
    · exact .inr ⟨hx, hz⟩

end Double

namespace Number

/-- Numbers are equal if they are written alike, or if their nearest doubles are
    equal. Integers of any size are compared through doubles, too, so that two
    that are close may be equal. -/
theorem sameValue_iff {a b : Number} :
    a.sameValue b = true ↔
      a = b ∨ ∃ x y, a.toDouble? = some x ∧ b.toDouble? = some y ∧ x.sameValue y = true := by
  simp only [sameValue, Bool.or_eq_true, beq_iff_eq]
  cases a.toDouble? <;> cases b.toDouble? <;> simp

theorem sameValue_refl (a : Number) : a.sameValue a = true := sameValue_iff.mpr (.inl rfl)

theorem sameValue_symm {a b : Number} (h : a.sameValue b = true) : b.sameValue a = true := by
  rw [sameValue_iff] at h ⊢
  rcases h with rfl | ⟨x, y, hx, hy, hxy⟩
  · exact .inl rfl
  · exact .inr ⟨y, x, hy, hx, Double.sameValue_symm hxy⟩

/-- Every number has at most one nearest double, so comparing through it is
    transitive. If the middle number is compared by its form on one side, it may
    be replaced by the other. -/
theorem sameValue_trans {a b c : Number} (hab : a.sameValue b = true)
    (hbc : b.sameValue c = true) : a.sameValue c = true := by
  rw [sameValue_iff] at hab hbc ⊢
  rcases hab with rfl | ⟨x, y, hx, hy, hxy⟩
  · exact hbc
  · rcases hbc with rfl | ⟨y', z, hy', hz, hyz⟩
    · exact .inr ⟨x, y, hx, hy, hxy⟩
    · rw [hy, Option.some.injEq] at hy'
      subst y'
      exact .inr ⟨x, z, hx, hz, Double.sameValue_trans hxy hyz⟩

end Number

namespace Json

/-- Lists are equal if they are equally long and equal at every place. -/
theorem sameItemsBy_iff {sameNumber : Number → Number → Bool} {xs ys : List Json} :
    sameItemsBy sameNumber xs ys = true ↔ xs.length = ys.length ∧
      ∀ (i : Nat) (x y : Json), xs[i]? = some x → ys[i]? = some y → sameBy sameNumber x y = true := by
  induction xs generalizing ys with
  | nil => cases ys <;> simp [sameItemsBy]
  | cons x xs ih =>
    cases ys with
    | nil => simp [sameItemsBy]
    | cons y ys =>
      simp only [sameItemsBy, Bool.and_eq_true, ih, List.length_cons, Nat.add_right_cancel_iff]
      constructor
      · rintro ⟨hhead, hlength, htail⟩
        refine ⟨hlength, fun i x' y' hx hy => ?_⟩
        cases i with
        | zero => simp_all
        | succ i => exact htail i x' y' (by simpa using hx) (by simpa using hy)
      · rintro ⟨hlength, hitems⟩
        exact ⟨hitems 0 x y rfl rfl, hlength,
          fun i x' y' hx hy => hitems (i + 1) x' y' (by simpa using hx) (by simpa using hy)⟩

/-- The entries of one object are looked for in another, name by name. Nothing is
    said of the names that only the other has. -/
theorem sameEntriesBy_iff {sameNumber : Number → Number → Bool} {xs ys : List (String × Json)} :
    sameEntriesBy sameNumber xs ys = true ↔
      ∀ entry ∈ xs, ∃ y, ys.lookup entry.1 = some y ∧ sameBy sameNumber entry.2 y = true := by
  induction xs with
  | nil => simp [sameEntriesBy]
  | cons entry xs ih =>
    obtain ⟨name, x⟩ := entry
    simp only [sameEntriesBy, Bool.and_eq_true, ih, List.forall_mem_cons]
    cases ys.lookup name <;> simp

theorem sameValue_arr {xs ys : List Json} :
    (Json.arr xs).sameValue (.arr ys) = true ↔ xs.length = ys.length ∧
      ∀ (i : Nat) (x y : Json), xs[i]? = some x → ys[i]? = some y → x.sameValue y = true := by
  rw [sameValue, sameBy, sameItemsBy_iff]
  rfl

theorem sameValue_obj {xs ys : List (String × Json)} :
    (Json.obj xs).sameValue (.obj ys) = true ↔ xs.length = ys.length ∧
      ∀ entry ∈ xs, ∃ y, ys.lookup entry.1 = some y ∧ entry.2.sameValue y = true := by
  rw [sameValue, sameBy, Bool.and_eq_true, sameEntriesBy_iff, beq_iff_eq]
  rfl

/-- A value without repeated names is equal to itself. With repeated names this
    may fail, since a name is looked up where it occurs first. -/
theorem sameValue_refl {v : Json} (hv : v.NamesDistinct) : v.sameValue v = true := by
  induction hv with
  | null => rfl
  | bool value => simp [sameValue, sameBy]
  | num value => exact Number.sameValue_refl value
  | str value => simp [sameValue, sameBy]
  | arr _ ih =>
    refine sameValue_arr.mpr ⟨rfl, fun i x y hx hy => ?_⟩
    rw [hx, Option.some.injEq] at hy
    exact hy ▸ ih x (List.mem_of_getElem? hx)
  | obj hnames _ ih =>
    refine sameValue_obj.mpr ⟨rfl, fun entry hentry => ⟨entry.2, ?_, ih entry hentry⟩⟩
    exact (Entries.lookup_eq_some_iff hnames).mpr hentry

/-- The entries of the first object are looked for in the second only. With
    distinct names and equally many entries on both sides nothing of the second
    object is left over. This is a count and needs no order. -/
theorem sameValue_symm {v w : Json} (hv : v.NamesDistinct) (hw : w.NamesDistinct)
    (h : v.sameValue w = true) : w.sameValue v = true := by
  induction v generalizing w with
  | null => cases w <;> simp_all [sameValue, sameBy]
  | bool value => cases w <;> simp_all [sameValue, sameBy]
  | num value =>
    cases w with
    | num other => exact Number.sameValue_symm h
    | _ => simp [sameValue, sameBy] at h
  | str value => cases w <;> simp_all [sameValue, sameBy]
  | arr xs ih =>
    cases w with
    | arr ys =>
      obtain ⟨hlength, hitems⟩ := sameValue_arr.mp h
      refine sameValue_arr.mpr ⟨hlength.symm, fun i y x hy hx => ?_⟩
      have hmem := List.mem_of_getElem? hx
      exact ih x hmem (hv.item hmem) (hw.item (List.mem_of_getElem? hy)) (hitems i x y hx hy)
    | _ => simp [sameValue, sameBy] at h
  | obj xs ih =>
    cases w with
    | obj ys =>
      obtain ⟨hlength, hentries⟩ := sameValue_obj.mp h
      have hcover : ∀ x ∈ xs, ∃ y ∈ ys, x.1 = y.1 ∧ x.2.sameValue y.2 = true := by
        intro x hx
        obtain ⟨y, hlookup, hsame⟩ := hentries x hx
        exact ⟨(x.1, y), Entries.mem_of_lookup hlookup, rfl, hsame⟩
      have hback := exists_partner_of_cover (Nat.le_of_eq hlength.symm) hcover
        ((Entries.pairwise_ne hv.names).imp fun hne _ _ hxy hxy' => hne (hxy.1.trans hxy'.1.symm))
      refine sameValue_obj.mpr ⟨hlength.symm, fun y hy => ?_⟩
      obtain ⟨x, hx, hname, hsame⟩ := hback y hy
      refine ⟨x.2, (Entries.lookup_eq_some_iff hv.names).mpr (hname ▸ hx), ?_⟩
      exact ih x hx (hv.entry hx) (hw.entry hy) hsame
    | _ => simp [sameValue, sameBy] at h

/-- Transitivity needs no distinct names, since every entry is looked up along the way. -/
theorem sameValue_trans {u v w : Json} (huv : u.sameValue v = true) (hvw : v.sameValue w = true) :
    u.sameValue w = true := by
  induction u generalizing v w with
  | null => cases v <;> cases w <;> simp_all [sameValue, sameBy]
  | bool value => cases v <;> cases w <;> simp_all [sameValue, sameBy]
  | num value =>
    cases v with
    | num other =>
      cases w with
      | num last => exact Number.sameValue_trans huv hvw
      | _ => simp [sameValue, sameBy] at hvw
    | _ => simp [sameValue, sameBy] at huv
  | str value => cases v <;> cases w <;> simp_all [sameValue, sameBy]
  | arr xs ih =>
    cases v with
    | arr ys =>
      cases w with
      | arr zs =>
        obtain ⟨hxy, hfirst⟩ := sameValue_arr.mp huv
        obtain ⟨hyz, hsecond⟩ := sameValue_arr.mp hvw
        refine sameValue_arr.mpr ⟨hxy.trans hyz, fun i x z hx hz => ?_⟩
        obtain ⟨y, hy⟩ : ∃ y, ys[i]? = some y := by
          obtain ⟨hi, _⟩ := List.getElem?_eq_some_iff.mp hz
          exact ⟨_, List.getElem?_eq_getElem (hyz ▸ hi)⟩
        exact ih x (List.mem_of_getElem? hx) (hfirst i x y hx hy) (hsecond i y z hy hz)
      | _ => simp [sameValue, sameBy] at hvw
    | _ => simp [sameValue, sameBy] at huv
  | obj xs ih =>
    cases v with
    | obj ys =>
      cases w with
      | obj zs =>
        obtain ⟨hxy, hfirst⟩ := sameValue_obj.mp huv
        obtain ⟨hyz, hsecond⟩ := sameValue_obj.mp hvw
        refine sameValue_obj.mpr ⟨hxy.trans hyz, fun entry hentry => ?_⟩
        obtain ⟨y, hy, hentryY⟩ := hfirst entry hentry
        obtain ⟨z, hz, hyZ⟩ := hsecond (entry.1, y) (Entries.mem_of_lookup hy)
        exact ⟨z, hz, ih entry hentry hentryY hyZ⟩
      | _ => simp [sameValue, sameBy] at hvw
    | _ => simp [sameValue, sameBy] at huv

/-- Equality of literals is an equivalence relation on the values in which no object repeats
    a name, as none does that was read. That two numbers may be found equal by being rounded
    does not harm this, since both sides are rounded in one way. -/
theorem sameValue_equivalence :
    Equivalence fun v w : { value : Json // value.NamesDistinct } => v.1.sameValue w.1 = true where
  refl v := sameValue_refl v.2
  symm {v w} h := sameValue_symm v.2 w.2 h
  trans h h' := sameValue_trans h h'

-- Only the first value of a repeated name is ever found, so that an object can differ from itself.
example : (obj [("a", .null), ("a", .bool true)]).sameValue
    (.obj [("a", .null), ("a", .bool true)]) = false := by
  decide +kernel

end Json

end SchemaTypes
