import Mathlib.Data.List.Perm.Basic
import SchemaTypes.Proofs.Ty.Associativity
import SchemaTypes.Proofs.Ty.OfShape

namespace SchemaTypes

variable {α β γ δ σ τ : Type}

/-- The second list has, in some order, an element for every element of the first. -/
def Shuffled (R : α → β → Prop) (xs : List α) (ys : List β) : Prop :=
  ∃ zs, xs.Perm zs ∧ List.Forall₂ R zs ys

theorem forall₂_trans {R : α → α → Prop} {xs ys zs : List α}
    (htrans : ∀ {x y z}, R x y → R y z → R x z) (hxy : List.Forall₂ R xs ys)
    (hyz : List.Forall₂ R ys zs) : List.Forall₂ R xs zs := by
  induction hxy generalizing zs with
  | nil => exact hyz
  | cons hxy _ ih =>
    cases hyz with
    | cons hyz hrest => exact .cons (htrans hxy hyz) (ih hrest)

theorem cover_append {R : α → β → Prop} {xs xs' : List α} {ys ys' : List β}
    (h : ∀ x ∈ xs, ∃ y ∈ ys, R x y) (h' : ∀ x ∈ xs', ∃ y ∈ ys', R x y) :
    ∀ x ∈ xs ++ xs', ∃ y ∈ ys ++ ys', R x y := by
  intro x hx
  obtain hx | hx := List.mem_append.mp hx
  · obtain ⟨y, hy, hxy⟩ := h x hx
    exact ⟨y, List.mem_append_left _ hy, hxy⟩
  · obtain ⟨y, hy, hxy⟩ := h' x hx
    exact ⟨y, List.mem_append_right _ hy, hxy⟩

theorem rel_cases {R : α → β → Prop} {x : Option α} {y : Option β} (h : Option.Rel R x y) :
    (x = none ∧ y = none) ∨ ∃ a b, x = some a ∧ y = some b ∧ R a b := by
  cases h with
  | none => exact .inl ⟨rfl, rfl⟩
  | some h => exact .inr ⟨_, _, rfl, rfl, h⟩

namespace Shuffled

variable {R : α → β → Prop} {S : γ → δ → Prop} {xs : List α} {ys : List β}

theorem length_eq (h : Shuffled R xs ys) : xs.length = ys.length := by
  obtain ⟨zs, hperm, hzs⟩ := h
  exact hperm.length_eq.trans hzs.length_eq

/-- Every element has a partner in the other list, on both sides. -/
theorem cover (h : Shuffled R xs ys) :
    (∀ x ∈ xs, ∃ y ∈ ys, R x y) ∧ ∀ y ∈ ys, ∃ x ∈ xs, R x y := by
  obtain ⟨zs, hperm, hzs⟩ := h
  obtain ⟨hleft, hright⟩ := cover_of_forall₂ hzs
  refine ⟨fun x hx => hleft x (hperm.mem_iff.mp hx), fun y hy => ?_⟩
  obtain ⟨x, hx, hxy⟩ := hright y hy
  exact ⟨x, hperm.mem_iff.mpr hx, hxy⟩

theorem imp {S : α → β → Prop} (h : Shuffled R xs ys)
    (himp : ∀ x ∈ xs, ∀ y ∈ ys, R x y → S x y) : Shuffled S xs ys := by
  obtain ⟨zs, hperm, hzs⟩ := h
  obtain ⟨hlength, hzip⟩ := List.forall₂_iff_zip.mp hzs
  refine ⟨zs, hperm, List.forall₂_iff_zip.mpr ⟨hlength, fun {x y} hxy => ?_⟩⟩
  obtain ⟨hx, hy⟩ := List.of_mem_zip hxy
  exact himp x (hperm.mem_iff.mpr hx) y hy (hzip hxy)

theorem map {f : α → γ} {g : β → δ} (h : Shuffled R xs ys)
    (hmap : ∀ x ∈ xs, ∀ y ∈ ys, R x y → S (f x) (g y)) : Shuffled S (xs.map f) (ys.map g) := by
  obtain ⟨zs, hperm, hzs⟩ := h.imp (S := fun x y => S (f x) (g y)) hmap
  refine ⟨zs.map f, hperm.map f, ?_⟩
  rw [List.forall₂_map_left_iff, List.forall₂_map_right_iff]
  exact hzs

/-- Lists that are shuffled twice are shuffled once, if related elements may be chained. -/
theorem trans {R : α → α → Prop} {xs ys zs : List α} (htrans : ∀ {x y z}, R x y → R y z → R x z)
    (hxy : Shuffled R xs ys) (hyz : Shuffled R ys zs) : Shuffled R xs zs := by
  obtain ⟨us, hus, husys⟩ := hxy
  obtain ⟨vs, hvs, hvszs⟩ := hyz
  have hcomp : Relation.Comp (List.Forall₂ R) List.Perm us vs := ⟨ys, husys, hvs⟩
  rw [List.forall₂_comp_perm_eq_perm_comp_forall₂] at hcomp
  obtain ⟨ws, hws, hwsvs⟩ := hcomp
  exact ⟨ws, hus.trans hws, forall₂_trans htrans hwsvs hvszs⟩

/-- A test that does not tell related elements apart passes on both lists or on neither. -/
theorem all_eq {p : α → Bool} {q : β → Bool} (h : Shuffled R xs ys)
    (hR : ∀ {x y}, R x y → p x = q y) : xs.all p = ys.all q := by
  obtain ⟨hleft, hright⟩ := h.cover
  rw [Bool.eq_iff_iff, List.all_eq_true, List.all_eq_true]
  constructor
  · intro hall y hy
    obtain ⟨x, hx, hxy⟩ := hright y hy
    rw [← hR hxy]
    exact hall x hx
  · intro hall x hx
    obtain ⟨y, hy, hxy⟩ := hleft x hx
    rw [hR hxy]
    exact hall y hy

/-- Looking a name up does not depend on the order of entries. Names have to be
    distinct in one of the lists, and then are in the other. -/
theorem lookup {R : String → α → β → Prop} {xs : List (String × α)} {ys : List (String × β)}
    (h : Shuffled (fun a b => a.1 = b.1 ∧ R a.1 a.2 b.2) xs ys) (hnames : (Entries.names xs).Nodup)
    (name : String) : Option.Rel (R name) (xs.lookup name) (ys.lookup name) := by
  obtain ⟨zs, hperm, hzs⟩ := h
  rw [Entries.lookup_eq_of_perm hperm hnames]
  clear hperm
  induction hzs with
  | nil => exact .none
  | @cons a b _ _ hab _ ih =>
    obtain ⟨key, x⟩ := a
    obtain ⟨key', y⟩ := b
    obtain ⟨rfl, hxy⟩ := hab
    rw [List.lookup_cons, List.lookup_cons]
    cases hkey : name == key with
    | true =>
      rw [eq_of_beq hkey]
      exact .some hxy
    | false => exact ih

end Shuffled

/-- Items that differ in order only, apart from the schemas themselves. -/
inductive Items.Similar (R : σ → τ → Prop) : Items σ → Items τ → Prop where
  | absent : Similar R .absent .absent
  | single {x : σ} {y : τ} (h : R x y) : Similar R (.single x) (.single y)
  | positional {xs : List σ} {ys : List τ} (h : Shuffled R xs ys) :
    Similar R (.positional xs) (.positional ys)

inductive Additional.Similar (R : σ → τ → Prop) : Additional σ → Additional τ → Prop where
  | absent : Similar R .absent .absent
  | allow : Similar R .allow .allow
  | deny : Similar R .deny .deny
  | constrain {x : σ} {y : τ} (h : R x y) : Similar R (.constrain x) (.constrain y)

/-- Shapes that differ in the order of lists and names and in how literals are
    written, while the nested schemas are related. -/
inductive Shape.Similar (R : σ → τ → Prop) : Shape σ → Shape τ → Prop where
  | absent : Similar R .absent .absent
  | oneOf {xs : List σ} {ys : List τ} (h : Shuffled R xs ys) : Similar R (.oneOf xs) (.oneOf ys)
  | allOf {xs : List σ} {ys : List τ} (h : Shuffled R xs ys) : Similar R (.allOf xs) (.allOf ys)
  | const {value other : Json} (h : value.sameValue other = true) :
    Similar R (.const value) (.const other)
  | enum {values others : List Json}
      (h : Shuffled (fun value other => value.sameValue other = true) values others) :
    Similar R (.enum values) (.enum others)
  | null : Similar R .null .null
  | number : Similar R .number .number
  | integer : Similar R .integer .integer
  | string : Similar R .string .string
  | boolean : Similar R .boolean .boolean
  | array {items : Items σ} {items' : Items τ} {additional : Additional σ}
      {additional' : Additional τ} (hitems : items.Similar R items')
      (hadditional : additional.Similar R additional') :
    Similar R (.array items additional) (.array items' additional')
  | object {properties : Option (List (String × σ))} {properties' : Option (List (String × τ))}
      {required required' : List String} {additional : Additional σ} {additional' : Additional τ}
      (hproperties : ∀ name, Option.Rel R ((properties.getD []).lookup name)
        ((properties'.getD []).lookup name))
      (hrequired : ∀ name, name ∈ required ↔ name ∈ required')
      (hadditional : additional.Similar R additional') :
    Similar R (.object properties required additional) (.object properties' required' additional')
  | unrecognized : Similar R .unrecognized .unrecognized

section Map

variable {R : σ → τ → Prop} {S : α → β → Prop} {f : σ → α} {g : τ → β}

theorem Items.Similar.map {items : Items σ} {items' : Items τ} (h : items.Similar R items')
    (hmap : ∀ x ∈ items.nested, ∀ y ∈ items'.nested, R x y → S (f x) (g y)) :
    (items.map f).Similar S (items'.map g) := by
  cases h with
  | absent => exact .absent
  | single h => exact .single (hmap _ (by simp [nested]) _ (by simp [nested]) h)
  | positional h => exact .positional (h.map hmap)

theorem Additional.Similar.map {additional : Additional σ} {additional' : Additional τ}
    (h : additional.Similar R additional')
    (hmap : ∀ x ∈ additional.nested, ∀ y ∈ additional'.nested, R x y → S (f x) (g y)) :
    (additional.map f).Similar S (additional'.map g) := by
  cases h with
  | absent => exact .absent
  | allow => exact .allow
  | deny => exact .deny
  | constrain h => exact .constrain (hmap _ (by simp [nested]) _ (by simp [nested]) h)

/-- Replacing the nested schemas keeps shapes similar if it keeps the schemas
    related. Only those that stand in the two shapes have to be looked at. -/
theorem Shape.Similar.map {shape : Shape σ} {shape' : Shape τ} (h : shape.Similar R shape')
    (hmap : ∀ x ∈ shape.nested, ∀ y ∈ shape'.nested, R x y → S (f x) (g y)) :
    (shape.map f).Similar S (shape'.map g) := by
  cases h with
  | absent => exact .absent
  | oneOf h => exact .oneOf (h.map hmap)
  | allOf h => exact .allOf (h.map hmap)
  | const h => exact .const h
  | enum h => exact .enum h
  | null => exact .null
  | number => exact .number
  | integer => exact .integer
  | string => exact .string
  | boolean => exact .boolean
  | array hitems hadditional =>
    refine .array (hitems.map fun x hx y hy => ?_) (hadditional.map fun x hx y hy => ?_)
    · exact hmap x (List.mem_append_left _ hx) y (List.mem_append_left _ hy)
    · exact hmap x (List.mem_append_right _ hx) y (List.mem_append_right _ hy)
  | object hproperties hrequired hadditional =>
    refine .object (fun name => ?_) hrequired (hadditional.map fun x hx y hy => ?_)
    · rw [lookup_map_properties, lookup_map_properties]
      obtain ⟨hx, hy⟩ | ⟨x, y, hx, hy, hxy⟩ := rel_cases (hproperties name)
      · rw [hx, hy]
        exact .none
      · rw [hx, hy]
        have hx := List.mem_map_of_mem (f := (·.2)) (Entries.mem_of_lookup hx)
        have hy := List.mem_map_of_mem (f := (·.2)) (Entries.mem_of_lookup hy)
        exact .some (hmap x (List.mem_append_left _ hx) y (List.mem_append_left _ hy) hxy)
    · exact hmap x (List.mem_append_right _ hx) y (List.mem_append_right _ hy)
  | unrecognized => exact .unrecognized

end Map

section Types

/-- Similar items have equal types, in whichever order. -/
theorem Items.Similar.cover_types {items items' : Items Ty} (h : items.Similar Ty.Alike items') :
    (∀ ty ∈ items.types, ∃ other ∈ items'.types, ty.Alike other) ∧
      ∀ other ∈ items'.types, ∃ ty ∈ items.types, ty.Alike other := by
  cases h with
  | absent => exact cover_of_forall₂ (.cons (.refl .any) .nil)
  | single h => exact cover_of_forall₂ (.cons h .nil)
  | positional h => exact h.cover

theorem Additional.Similar.rel_type? {additional additional' : Additional Ty}
    (h : additional.Similar Ty.Alike additional') :
    Option.Rel Ty.Alike additional.type? additional'.type? := by
  cases h with
  | absent => exact .none
  | allow => exact .some (.refl .any)
  | deny => exact .none
  | constrain h => exact .some h

namespace Ty

/-- The items of a list have one type, the union of all that they may have. It
    does not depend on the order of the schemas. -/
theorem alike_itemTypes {items items' : Items Ty} {additional additional' : Additional Ty}
    (hitems : items.Similar Alike items') (hadditional : additional.Similar Alike additional') :
    (unionOf (items.types ++ additional.type?.toList)).Alike
      (unionOf (items'.types ++ additional'.type?.toList)) := by
  have hlists : List.Forall₂ Alike additional.type?.toList additional'.type?.toList := by
    cases hadditional with
    | absent => exact .nil
    | allow => exact .cons (.refl .any) .nil
    | deny => exact .nil
    | constrain h => exact .cons h .nil
  obtain ⟨hleft, hright⟩ := hitems.cover_types
  obtain ⟨hleft', hright'⟩ := cover_of_forall₂ hlists
  exact alike_unionOf_of_cover (cover_append hleft hleft')
    (cover_append (R := flip Alike) hright hright')

section ObjectFields

variable {properties properties' : List (String × Ty)} {required required' : List String}
  {index index' : Option Ty}

/-- The object type of a schema is in normal form if the types of its properties
    and of its index are. -/
theorem normalized_object_objectFields (hnames : (Entries.names properties).Nodup)
    (hrequired : required.Nodup)
    (hproperties : ∀ name, ∀ ty ∈ properties.lookup name, ty.Normalized)
    (hindex : ∀ ty ∈ index, ty.Normalized) :
    (object (objectFields properties required) index).Normalized := by
  refine .object (nodup_names_objectFields hnames hrequired) (fun entry => ?_) hindex
  refine normalized_of_mem_objectFields fun property hproperty => ?_
  exact hproperties property.1 property.2 ((Entries.lookup_eq_some_iff hnames).mpr hproperty)

/-- The order of properties and of required names does not matter to an object
    type. Which names are listed and what is said of them is the same. -/
theorem alike_object_objectFields (hnames : (Entries.names properties).Nodup)
    (hnames' : (Entries.names properties').Nodup) (hnodup : required.Nodup)
    (hnodup' : required'.Nodup)
    (hproperties : ∀ name, Option.Rel Alike (properties.lookup name) (properties'.lookup name))
    (hrequired : ∀ name, name ∈ required ↔ name ∈ required')
    (hindex : Option.Rel Alike index index') :
    (object (objectFields properties required) index).Alike
      (object (objectFields properties' required') index') := by
  have hleft {s t : Option Ty} (h : Option.Rel Alike s t) : ∀ ty ∈ s, ty.Normalized := by
    rintro ty ⟨⟩
    cases h with
    | some h => exact h.left
  have hright {s t : Option Ty} (h : Option.Rel Alike s t) : ∀ ty ∈ t, ty.Normalized := by
    rintro ty ⟨⟩
    cases h with
    | some h => exact h.right
  have hnormal := normalized_object_objectFields hnames hnodup
    (fun name => hleft (hproperties name)) (hleft hindex)
  have hnormal' := normalized_object_objectFields hnames' hnodup'
    (fun name => hright (hproperties name)) (hright hindex)
  have hrest := slotAlike_rest_iff.mpr hindex
  rw [alike_object_iff hnormal hnormal']
  refine ⟨fun name => ?_, fun name => ?_, hrest⟩
  · rw [mem_names_objectFields, mem_names_objectFields, hrequired, ← not_iff_not, not_or, not_or,
      ← Entries.lookup_eq_none_iff, ← Entries.lookup_eq_none_iff]
    obtain ⟨hx, hy⟩ | ⟨x, y, hx, hy, _⟩ := rel_cases (hproperties name)
    · rw [hx, hy]
    · simp [hx, hy]
  · rw [slot_objectFields, slot_objectFields]
    obtain ⟨hx, hy⟩ | ⟨x, y, hx, hy, hxy⟩ := rel_cases (hproperties name)
    · rw [hx, hy]
      simp only [hrequired]
      split
      · exact .some ⟨.refl .any, rfl⟩
      · exact hrest
    · rw [hx, hy]
      refine .some ⟨hxy, ?_⟩
      simp [hrequired]

end ObjectFields

/-- Similar shapes of equal types give equal types. This is one step of the
    induction over two schemas, with a case for each shape. -/
theorem alike_ofShape {shape shape' : Shape Ty} (h : shape.Similar Alike shape')
    (hshape : shape.WellFormed) (hshape' : shape'.WellFormed) :
    (ofShape shape).Alike (ofShape shape') := by
  cases h with
  | absent => exact .refl .any
  | oneOf h => exact alike_unionOf_of_cover h.cover.1 h.cover.2
  | @allOf tys _ h =>
    have hnormal (ty) (hty : ty ∈ tys) : ty.Normalized := by
      obtain ⟨_, _, halike⟩ := h.cover.1 ty hty
      exact halike.left
    obtain ⟨others, hperm, hothers⟩ := h
    exact (alike_meetAll_of_perm hperm hnormal).trans (alike_meetAll hothers)
  | const h => exact alike_literal hshape hshape' h
  | enum h =>
    have hliterals := h.map (f := literal) (g := literal) (S := Alike)
      fun value hvalue other hother => alike_literal (hshape value hvalue) (hshape' other hother)
    exact alike_unionOf_of_cover hliterals.cover.1 hliterals.cover.2
  | null => exact .refl .null
  | number => exact .refl .number
  | integer => exact .refl .number
  | string => exact .refl .string
  | boolean => exact .refl .boolean
  | array hitems hadditional => exact alike_array (alike_itemTypes hitems hadditional)
  | object hproperties hrequired hadditional =>
    exact alike_object_objectFields hshape.1 hshape'.1 hshape.2 hshape'.2 hproperties hrequired
      hadditional.rel_type?
  | unrecognized => exact .refl .any

end Ty

end Types

end SchemaTypes
