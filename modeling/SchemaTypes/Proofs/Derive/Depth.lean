import SchemaTypes.Proofs.Schema.Conformance

namespace SchemaTypes

section Acceptance

variable {σ : Type} {f g : σ → Json → Bool} {v : Json}

/-- An item that passes one of the tests passes one of those that take their
    places, if these pass no fewer values. -/
theorem Items.exists_tests_of_imp {items : Items σ}
    (h : ∀ x ∈ items.nested, f x v = true → g x v = true)
    (hpass : ∃ test ∈ (items.map f).tests, test v = true) :
    ∃ test ∈ (items.map g).tests, test v = true := by
  cases items with
  | absent => exact hpass
  | single schema =>
    have hx := h schema (by simp [nested])
    simpa [map, tests] using hx (by simpa [map, tests] using hpass)
  | positional schemas =>
    simp only [map, tests, List.mem_map, exists_exists_and_eq_and] at hpass ⊢
    obtain ⟨x, hx, hpass⟩ := hpass
    exact ⟨x, hx, h x hx hpass⟩

theorem Additional.exists_tests_of_imp {additional : Additional σ}
    (h : ∀ x ∈ additional.nested, f x v = true → g x v = true)
    (hpass : ∃ test ∈ (additional.map f).tests, test v = true) :
    ∃ test ∈ (additional.map g).tests, test v = true := by
  cases additional with
  | constrain schema =>
    have hx := h schema (by simp [nested])
    simpa [map, tests] using hx (by simpa [map, tests] using hpass)
  | _ => exact hpass

/-- The same for what is said of the properties that are not named. -/
theorem Additional.passes_of_imp {additional : Additional σ}
    (h : ∀ x ∈ additional.nested, f x v = true → g x v = true)
    (hpass : (additional.map f).passes v = true) : (additional.map g).passes v = true := by
  cases additional with
  | constrain schema => exact h schema (by simp [nested]) hpass
  | _ => rfl

/-- A shape accepts no fewer values when the tests in the place of its nested
    schemas pass no fewer. Every form uses its nested schemas in favour of a value
    only, which is why a cut at some depth can only widen. -/
theorem Shape.accepts_of_imp {shape : Shape σ}
    (h : ∀ x ∈ shape.nested, ∀ v : Json, v.NamesDistinct → f x v = true → g x v = true)
    (hv : v.NamesDistinct) (haccepts : (shape.map f).accepts v = true) :
    (shape.map g).accepts v = true := by
  cases shape with
  | oneOf schemas =>
    simp only [map, accepts, List.any_map, List.any_eq_true, Function.comp_apply] at haccepts ⊢
    obtain ⟨x, hx, hpass⟩ := haccepts
    exact ⟨x, hx, h x hx v hv hpass⟩
  | allOf schemas =>
    simp only [map, accepts, List.all_map, List.all_eq_true, Function.comp_apply] at haccepts ⊢
    exact fun x hx => h x hx v hv (haccepts x hx)
  | array items additional =>
    cases v with
    | arr values =>
      simp only [map, accepts, List.all_eq_true, List.any_eq_true, List.mem_append, or_and_right,
        exists_or] at haccepts ⊢
      intro value hvalue
      have hvalue' := hv.item hvalue
      obtain hpass | hpass := haccepts value hvalue
      · exact .inl (Items.exists_tests_of_imp
          (fun x hx => h x (List.mem_append_left _ hx) value hvalue') hpass)
      · exact .inr (Additional.exists_tests_of_imp
          (fun x hx => h x (List.mem_append_right _ hx) value hvalue') hpass)
    | _ => exact haccepts
  | object properties required additional =>
    cases v with
    | obj entries =>
      simp only [map, accepts, Bool.and_eq_true, List.all_eq_true, lookup_map_properties]
        at haccepts ⊢
      refine ⟨haccepts.1, fun entry hentry => ?_⟩
      have hpass := haccepts.2 entry hentry
      cases hproperty : (properties.getD []).lookup entry.1 with
      | some x =>
        have hx := List.mem_map_of_mem (f := (·.2)) (Entries.mem_of_lookup hproperty)
        simp only [hproperty, Option.map_some] at hpass ⊢
        exact h x (List.mem_append_left _ hx) entry.2 (hv.entry hentry) hpass
      | none =>
        simp only [hproperty, Option.map_none, Bool.or_eq_true] at hpass ⊢
        exact hpass.imp_right (Additional.passes_of_imp fun x hx =>
          h x (List.mem_append_right _ hx) entry.2 (hv.entry hentry))
    | _ => exact haccepts
  | _ => exact haccepts

end Acceptance

/-- The order of limits in which no limit is the greatest. -/
def LimitLe : Option Nat → Option Nat → Prop
  | _, none => True
  | none, some _ => False
  | some limit, some limit' => limit ≤ limit'

theorem LimitLe.map {limit limit' : Option Nat} (h : LimitLe limit limit') {f : Nat → Nat}
    (hf : Monotone f) : LimitLe (limit.map f) (limit'.map f) := by
  cases limit' with
  | none => trivial
  | some limit' =>
    cases limit with
    | none => exact h
    | some limit => exact hf h

namespace Schema

/-- How many levels of schemas are nested in a schema. -/
def nesting (schema : Json) : Nat :=
  ((parts schema).map fun ⟨part, _⟩ => nesting part + 1).nested.max?.getD 0
termination_by sizeOf schema

/-- A nested schema has at least one level less below it. -/
theorem nesting_lt_of_mem_nested {schema part : Json} (h : part ∈ (classify schema).nested) :
    nesting part < nesting schema := by
  rw [nesting.eq_def schema, map_parts fun part => nesting part + 1, Shape.nested_map]
  exact List.le_max?_getD_of_mem (List.mem_map_of_mem (f := fun part => nesting part + 1) h)

/-- The fewer levels are followed, the more values the type admits: the levels
    left out become types of all values. The induction is on the schema, for any
    two limits of which one allows no more than the other. -/
theorem admits_typeWithin_of_le {levels levels' : Option Nat} (hlevels : LimitLe levels levels')
    {schema v : Json} (hschema : schema.NamesDistinct) (hv : v.NamesDistinct)
    (h : (typeWithin levels' schema).admits v = true) :
    (typeWithin levels schema).admits v = true := by
  induction schema using partInduction generalizing levels levels' v with
  | step schema ih =>
    by_cases hzero : levels = some 0
    · rw [typeWithin, if_pos hzero]
      exact Ty.admits_any
    · have hzero' : levels' ≠ some 0 := by
        rintro rfl
        cases levels with
        | none => exact hlevels
        | some levels => exact hzero (congrArg some (Nat.le_zero.mp hlevels))
      have hnext := hlevels.map (f := (· - 1)) fun _ _ hle => Nat.sub_le_sub_right hle 1
      have hpartNames : ∀ part ∈ (classify schema).nested, part.NamesDistinct :=
        fun part hpart => hschema.of_below (below_of_mem_nested hpart)
      have hadmits (levels : Option Nat) :
          (Ty.ofShape ((classify schema).map (typeWithin levels))).admits v =
            ((classify schema).map fun part => (typeWithin levels part).admits).accepts v :=
        Ty.admits_ofShape (wellFormed_classify hschema)
          (fun part hpart => normalized_typeWithin levels (hpartNames part hpart))
          (fun _ _ _ _ => rfl) hv
      rw [typeWithin_of_ne_zero hzero, hadmits]
      rw [typeWithin_of_ne_zero hzero', hadmits] at h
      refine Shape.accepts_of_imp (fun part hpart v hv => ?_) hv h
      exact ih part hpart hnext (hpartNames part hpart) hv

/-- As many levels as there are give the type that is found without a limit. Here
    the types are equal and not only alike. -/
theorem typeWithin_eq_of_nesting_lt {levels : Nat} {schema : Json}
    (h : nesting schema < levels) : typeWithin (some levels) schema = typeWithin none schema := by
  induction schema using partInduction generalizing levels with
  | step schema ih =>
    have hzero : some levels ≠ some 0 := by
      simp only [ne_eq, Option.some.injEq]
      omega
    rw [typeWithin_of_ne_zero hzero, typeWithin_of_ne_zero (by simp)]
    refine congrArg Ty.ofShape (Shape.map_congr fun part hpart => ?_)
    have hpart' := nesting_lt_of_mem_nested hpart
    exact ih part hpart (show nesting part < levels - 1 by omega)

end Schema

namespace Deriver

/-- A limit on the depth only widens types, and a limit that no nested schema goes
    beyond changes nothing. Neither depends on whether types are kept for reuse or
    on what has been kept. -/
theorem derive_widens {deriver deriver' : Deriver} (hderiver : deriver.Reachable)
    (hderiver' : deriver'.Reachable) (schema : Json) :
    (LimitLe deriver.options.maxDepth deriver'.options.maxDepth → schema.NamesDistinct →
      ∀ v : Json, v.NamesDistinct → (deriver'.derive schema).1.admits v = true →
        (deriver.derive schema).1.admits v = true) ∧
    ((∀ limit ∈ deriver.options.maxDepth, Schema.nesting schema ≤ limit) →
      deriver'.options.maxDepth = none →
        (deriver.derive schema).1 = (deriver'.derive schema).1) := by
  rw [derive_eq hderiver.sound, derive_eq hderiver'.sound]
  constructor
  · intro hlimit hschema v hv hadmits
    have hlevels := hlimit.map (f := (· + 1)) fun _ _ hle => Nat.add_le_add_right hle 1
    exact Schema.admits_typeWithin_of_le hlevels hschema hv hadmits
  · intro hlimit hnone
    rw [hnone]
    cases hsome : deriver.options.maxDepth with
    | none => rfl
    | some limit =>
      exact Schema.typeWithin_eq_of_nesting_lt (Nat.lt_succ_of_le (hlimit limit hsome))

/-- A list of names under a limit that leaves its items open, and under one that
    reaches all of it. -/
theorem derive_widens_list_of_names :
    let name := Json.obj [("oneOf", .arr [.obj [("type", .str "string")], .obj [("const", .null)]])]
    let schema := Json.obj [("allOf", .arr [.obj [("type", .str "array"), ("items", name)],
      .obj [("type", .str "array")]])]
    let deriver (limit : Option Nat) (memoize : Bool) : Deriver := { options := ⟨limit, memoize⟩ }
    ((deriver (some 1) true).derive schema).1.admits (.arr [.str "a", .null]) = true ∧
      ((deriver (some 3) true).derive schema).1 = ((deriver none false).derive schema).1 := by
  intro name schema deriver
  refine ⟨(derive_widens (.new _) (.new ⟨some 2, false⟩) schema).1 ?_ ?_ _ ?_ ?_,
    (derive_widens (.new _) (.new _) schema).2 ?_ rfl⟩
  · exact Nat.le_succ 1
  · simp [schema, name, Entries.names]
  · simp
  · decide +kernel
  · decide +kernel

-- Levels that are left out do widen the type.
example :
    let schema := Json.obj [("type", .str "array"), ("items", .obj [("type", .str "string")])]
    let deriver (limit : Option Nat) : Deriver := { options := ⟨limit, true⟩ }
    ((deriver (some 0)).derive schema).1.admits (.arr [.null]) = true ∧
      ((deriver none).derive schema).1.admits (.arr [.null]) = false := by decide +kernel

end Deriver

end SchemaTypes
