import SchemaTypes.Proofs.Schema.Rearrangement

namespace SchemaTypes

namespace Schema

variable {σ τ : Type}

/-- What the keywords of a schema hold, each read by itself. A keyword of the
    wrong form holds nothing. -/
structure Keywords (σ : Type) where
  oneOf : Option (List σ)
  allOf : Option (List σ)
  const : Option Json
  enum : Option Json
  type : Option Json
  items : Option (Items σ)
  additionalItems : Option (Additional σ)
  properties : Option (Option (List (String × σ)))
  required : Option (List String)
  additionalProperties : Option (Additional σ)

namespace Keywords

def ofEntries (entries : List (String × Json)) : Keywords Json where
  oneOf := objectList? (entries.lookup "oneOf")
  allOf := objectList? (entries.lookup "allOf")
  const := entries.lookup "const"
  enum := entries.lookup "enum"
  type := entries.lookup "type"
  items := items? (entries.lookup "items")
  additionalItems := additional? (entries.lookup "additionalItems")
  properties := properties? (entries.lookup "properties")
  required := required? (entries.lookup "required")
  additionalProperties := additional? (entries.lookup "additionalProperties")

def arrayShape (keywords : Keywords σ) : Shape σ :=
  match keywords.items, keywords.additionalItems with
  | some items, some additional => .array items additional
  | _, _ => .unrecognized

def objectShape (keywords : Keywords σ) : Shape σ :=
  match keywords.properties, keywords.required, keywords.additionalProperties with
  | some properties, some required, some additional => .object properties required additional
  | _, _, _ => .unrecognized

def typeShape (keywords : Keywords σ) : Option Json → Shape σ
  | some (.str "null") => .null
  | some (.str "number") => .number
  | some (.str "integer") => .integer
  | some (.str "string") => .string
  | some (.str "boolean") => .boolean
  | some (.str "array") => keywords.arrayShape
  | some (.str "object") => keywords.objectShape
  | _ => .unrecognized

/-- The shape that the keywords give, whatever the nested schemas are. -/
def shape (keywords : Keywords σ) : Shape σ :=
  match keywords.oneOf, keywords.allOf, keywords.const, keywords.enum with
  | some schemas, _, _, _ => .oneOf schemas
  | none, some schemas, _, _ => .allOf schemas
  | none, none, some value, _ => .const value
  | none, none, none, some (.arr values) => .enum values
  | none, none, none, _ => keywords.typeShape keywords.type

/-- Replaces every nested schema. -/
def map (f : σ → τ) (keywords : Keywords σ) : Keywords τ where
  oneOf := keywords.oneOf.map (List.map f)
  allOf := keywords.allOf.map (List.map f)
  const := keywords.const
  enum := keywords.enum
  type := keywords.type
  items := keywords.items.map (Items.map f)
  additionalItems := keywords.additionalItems.map (Additional.map f)
  properties := keywords.properties.map
    (Option.map fun entries => entries.map fun entry => (entry.1, f entry.2))
  required := keywords.required
  additionalProperties := keywords.additionalProperties.map (Additional.map f)

theorem typeShape_map (f : σ → τ) (keywords : Keywords σ) (type : Option Json) :
    (keywords.map f).typeShape type = (keywords.typeShape type).map f := by
  obtain ⟨_, _, _, _, _, items, additionalItems, properties, required, additional⟩ := keywords
  unfold typeShape
  split
  case h_6 => cases items <;> cases additionalItems <;> rfl
  case h_7 => cases properties <;> cases required <;> cases additional <;> rfl
  all_goals rfl

/-- The shape is found without looking at the nested schemas. Replacing them
    before or after makes no difference. -/
theorem shape_map (f : σ → τ) (keywords : Keywords σ) :
    (keywords.map f).shape = keywords.shape.map f := by
  have htype := typeShape_map f keywords keywords.type
  obtain ⟨oneOf, allOf, const, enum, _, _, _, _, _, _⟩ := keywords
  simp only [shape, map] at htype ⊢
  cases oneOf with
  | some schemas => rfl
  | none =>
    cases allOf with
    | some schemas => rfl
    | none =>
      cases const with
      | some value => rfl
      | none =>
        rcases enum with _ | ⟨_ | _ | _ | _ | _ | _⟩
        case some.arr => rfl
        all_goals exact htype

end Keywords

theorem arrayShape_eq (entries : List (String × Json)) :
    arrayShape entries = (Keywords.ofEntries entries).arrayShape := by
  simp only [arrayShape, Keywords.arrayShape, Keywords.ofEntries]
  cases items? (entries.lookup "items") <;>
    cases additional? (entries.lookup "additionalItems") <;> rfl

theorem objectShape_eq (entries : List (String × Json)) :
    objectShape entries = (Keywords.ofEntries entries).objectShape := by
  simp only [objectShape, Keywords.objectShape, Keywords.ofEntries]
  cases properties? (entries.lookup "properties") <;>
    cases required? (entries.lookup "required") <;>
      cases additional? (entries.lookup "additionalProperties") <;> rfl

theorem typeShape_eq (entries : List (String × Json)) (type : Option Json) :
    typeShape entries type = (Keywords.ofEntries entries).typeShape type := by
  unfold typeShape
  split
  case h_6 => exact arrayShape_eq entries
  case h_7 => exact objectShape_eq entries
  case h_8 => rw [Keywords.typeShape] <;> assumption
  all_goals rfl

/-- Classifying an object comes down to reading its keywords one by one and
    choosing a shape by what they hold. -/
theorem classify_obj (entries : List (String × Json)) :
    classify (.obj entries) = (Keywords.ofEntries entries).shape := by
  have htype := typeShape_eq entries
  simp only [classify, oneOfShape, allOfShape, constShape, enumShape, htype]
  simp only [Keywords.shape, Keywords.ofEntries]
  cases objectList? (entries.lookup "oneOf") with
  | some schemas => rfl
  | none =>
    cases objectList? (entries.lookup "allOf") with
    | some schemas => rfl
    | none =>
      cases entries.lookup "const" with
      | some value => rfl
      | none => rcases entries.lookup "enum" with _ | ⟨_ | _ | _ | _ | _ | _⟩ <;> rfl

/-- Two related values. -/
structure Pair (R : Json → Json → Prop) where
  left : Json
  right : Json
  related : R left right

/-- Two values in the place of one schema: they are objects and related, or
    neither is an object. -/
def Peers (R : Json → Json → Prop) (x y : Json) : Prop :=
  x.isObj = y.isObj ∧ (x.isObj = true → R x y)

/-- Two values, each a schema or a list of schemas, with related schemas in the
    same places. -/
inductive SchemasMatch (R : Json → Json → Prop) : Json → Json → Prop where
  | null : SchemasMatch R .null .null
  | bool (value : Bool) : SchemasMatch R (.bool value) (.bool value)
  | num (value : Number) : SchemasMatch R (.num value) (.num value)
  | str (value : String) : SchemasMatch R (.str value) (.str value)
  | arr {xs ys : List Json} (h : List.Forall₂ (Peers R) xs ys) : SchemasMatch R (.arr xs) (.arr ys)
  | obj {xs ys : List (String × Json)} (h : R (.obj xs) (.obj ys)) :
    SchemasMatch R (.obj xs) (.obj ys)

/-- Two values that give the same names related schemas. -/
inductive PropertiesMatch (R : Json → Json → Prop) : Json → Json → Prop where
  | obj {xs ys : List (String × Json)}
      (h : List.Forall₂ (fun a b => a.1 = b.1 ∧ Peers R a.2 b.2) xs ys) :
    PropertiesMatch R (.obj xs) (.obj ys)
  | other {x : Json} (hx : x.isObj = false) : PropertiesMatch R x x

/-- Two values of one role that differ in related schemas only. -/
def Matches (R : Json → Json → Prop) : Role → Json → Json → Prop
  | .schema => SchemasMatch R
  | .properties => PropertiesMatch R
  | .data | .values => Eq

section Matches

variable {R : Json → Json → Prop} {slot slot' : Option Json}

theorem Matches.refl (hR : ∀ x, R x x) (role : Role) (x : Json) : Matches R role x x := by
  have hpeers (x : Json) : Peers R x x := ⟨rfl, fun _ => hR x⟩
  cases role with
  | data => rfl
  | values => rfl
  | schema =>
    cases x with
    | null => exact .null
    | bool value => exact .bool value
    | num value => exact .num value
    | str value => exact .str value
    | arr items => exact .arr (List.forall₂_same.mpr fun x _ => hpeers x)
    | obj entries => exact .obj (hR _)
  | properties =>
    cases x with
    | obj entries => exact .obj (List.forall₂_same.mpr fun entry _ => ⟨rfl, hpeers entry.2⟩)
    | _ => exact .other rfl

/-- Values that match may be chained, if related schemas may. -/
theorem Matches.trans (hR : ∀ {x y z}, R x y → R y z → R x z) {role : Role} {x y z : Json}
    (hxy : Matches R role x y) (hyz : Matches R role y z) : Matches R role x z := by
  have hpeers {x y z : Json} (hxy : Peers R x y) (hyz : Peers R y z) : Peers R x z :=
    ⟨hxy.1.trans hyz.1, fun hx => hR (hxy.2 hx) (hyz.2 (hxy.1 ▸ hx))⟩
  cases role with
  | data => exact Eq.trans hxy hyz
  | values => exact Eq.trans hxy hyz
  | schema =>
    cases hxy with
    | arr hxy =>
      cases hyz with
      | arr hyz => exact .arr (forall₂_trans hpeers hxy hyz)
    | obj hxy =>
      cases hyz with
      | obj hyz => exact .obj (hR hxy hyz)
    | _ => exact hyz
  | properties =>
    cases hxy with
    | obj hxy =>
      cases hyz with
      | obj hyz =>
        refine .obj (forall₂_trans (fun hab hbc => ?_) hxy hyz)
        exact ⟨hab.1.trans hbc.1, hpeers hab.2 hbc.2⟩
      | other hy => cases hy
    | other _ => exact hyz

/-- Values that match are objects together or not at all, whichever of the two
    forms they have. -/
theorem SchemasMatch.peers {x y : Json} (h : SchemasMatch R x y) : Peers R x y := by
  cases h with
  | obj h => exact ⟨rfl, fun _ => h⟩
  | _ => exact ⟨rfl, fun hobj => by cases hobj⟩

/-- Two lists of peers are both lists of schemas or neither is, and lists of
    schemas are the two sides of one list of pairs. -/
theorem exists_pairs_of_peers {xs ys : List Json} (h : List.Forall₂ (Peers R) xs ys) :
    xs.all Json.isObj = ys.all Json.isObj ∧ (xs.all Json.isObj = true →
      ∃ pairs : List (Pair R), pairs.map Pair.left = xs ∧ pairs.map Pair.right = ys) := by
  induction h with
  | nil => exact ⟨rfl, fun _ => ⟨[], rfl, rfl⟩⟩
  | cons hxy _ ih =>
    refine ⟨by rw [List.all_cons, List.all_cons, hxy.1, ih.1], fun hobj => ?_⟩
    rw [List.all_cons, Bool.and_eq_true] at hobj
    obtain ⟨pairs, rfl, rfl⟩ := ih.2 hobj.2
    exact ⟨⟨_, _, hxy.2 hobj.1⟩ :: pairs, rfl, rfl⟩

/-- The same for schemas with names, which are equal on both sides. -/
theorem exists_pairs_of_named_peers {xs ys : List (String × Json)}
    (h : List.Forall₂ (fun a b => a.1 = b.1 ∧ Peers R a.2 b.2) xs ys) :
    (xs.all (·.2.isObj)) = (ys.all (·.2.isObj)) ∧ ((xs.all (·.2.isObj)) = true →
      ∃ pairs : List (String × Pair R), (pairs.map fun entry => (entry.1, entry.2.left)) = xs ∧
        (pairs.map fun entry => (entry.1, entry.2.right)) = ys) := by
  induction h with
  | nil => exact ⟨rfl, fun _ => ⟨[], rfl, rfl⟩⟩
  | @cons a b _ _ hab _ ih =>
    obtain ⟨name, x⟩ := a
    obtain ⟨name', y⟩ := b
    obtain ⟨rfl, hxy⟩ := hab
    refine ⟨by rw [List.all_cons, List.all_cons, hxy.1, ih.1], fun hobj => ?_⟩
    rw [List.all_cons, Bool.and_eq_true] at hobj
    obtain ⟨pairs, rfl, rfl⟩ := ih.2 hobj.2
    exact ⟨(name, ⟨x, y, hxy.2 hobj.1⟩) :: pairs, rfl, rfl⟩

/-- The two sides of a keyword are read alike. The lemmas for the other keywords
    with schemas say the same of these, each in its own form. -/
theorem exists_pairs_objectList? (h : Option.Rel (SchemasMatch R) slot slot') :
    ∃ pairs : Option (List (Pair R)), pairs.map (List.map Pair.left) = objectList? slot ∧
      pairs.map (List.map Pair.right) = objectList? slot' := by
  cases h with
  | none => exact ⟨none, rfl, rfl⟩
  | some h =>
    cases h with
    | arr h =>
      obtain ⟨hall, hpairs⟩ := exists_pairs_of_peers h
      rw [objectList?, objectList?, ← hall]
      split
      next hobj =>
        obtain ⟨pairs, rfl, rfl⟩ := hpairs hobj
        exact ⟨some pairs, rfl, rfl⟩
      next => exact ⟨none, rfl, rfl⟩
    | _ => exact ⟨none, rfl, rfl⟩

theorem exists_pairs_items? (h : Option.Rel (SchemasMatch R) slot slot') :
    ∃ pairs : Option (Items (Pair R)), pairs.map (Items.map Pair.left) = items? slot ∧
      pairs.map (Items.map Pair.right) = items? slot' := by
  have hlists := exists_pairs_objectList? h
  cases h with
  | none => exact ⟨some .absent, rfl, rfl⟩
  | some h =>
    cases h with
    | arr h =>
      obtain ⟨pairs, hleft, hright⟩ := hlists
      refine ⟨pairs.map .positional, ?_, ?_⟩
      · rw [items?, ← hleft]
        cases pairs <;> rfl
      · rw [items?, ← hright]
        cases pairs <;> rfl
    | obj h => exact ⟨some (.single ⟨_, _, h⟩), rfl, rfl⟩
    | _ => exact ⟨none, rfl, rfl⟩

theorem exists_pairs_additional? (h : Option.Rel (SchemasMatch R) slot slot') :
    ∃ pairs : Option (Additional (Pair R)), pairs.map (Additional.map Pair.left) = additional? slot ∧
      pairs.map (Additional.map Pair.right) = additional? slot' := by
  cases h with
  | none => exact ⟨some .absent, rfl, rfl⟩
  | some h =>
    cases h with
    | bool value =>
      cases value with
      | false => exact ⟨some .deny, rfl, rfl⟩
      | true => exact ⟨some .allow, rfl, rfl⟩
    | obj h => exact ⟨some (.constrain ⟨_, _, h⟩), rfl, rfl⟩
    | _ => exact ⟨none, rfl, rfl⟩

theorem exists_pairs_properties? (h : Option.Rel (PropertiesMatch R) slot slot') :
    ∃ pairs : Option (Option (List (String × Pair R))),
      pairs.map (Option.map fun entries => entries.map fun entry => (entry.1, entry.2.left)) =
        properties? slot ∧
      pairs.map (Option.map fun entries => entries.map fun entry => (entry.1, entry.2.right)) =
        properties? slot' := by
  cases h with
  | none => exact ⟨some none, rfl, rfl⟩
  | @some x _ h =>
    cases h with
    | obj h =>
      obtain ⟨hall, hpairs⟩ := exists_pairs_of_named_peers h
      rw [properties?, properties?, ← hall]
      split
      next hobj =>
        obtain ⟨pairs, rfl, rfl⟩ := hpairs hobj
        exact ⟨some (some pairs), rfl, rfl⟩
      next => exact ⟨none, rfl, rfl⟩
    | other hx =>
      cases x with
      | obj entries => cases hx
      | _ => exact ⟨none, rfl, rfl⟩

theorem eq_of_rel_eq {α : Type} {x y : Option α} (h : Option.Rel Eq x y) : x = y := by
  cases h with
  | none => rfl
  | some h => rw [h]

/-- Schemas whose keywords match have one shape, with related schemas nested in
    the same places. The common shape holds pairs, of which the two schemas have
    the two sides. -/
theorem exists_pairs_classify {xs ys : List (String × Json)}
    (h : ∀ name, Option.Rel (Matches R (Role.ofKeyword name)) (xs.lookup name) (ys.lookup name)) :
    ∃ pairs : Shape (Pair R), pairs.map Pair.left = classify (.obj xs) ∧
      pairs.map Pair.right = classify (.obj ys) := by
  obtain ⟨oneOf, honeOf, honeOf'⟩ := exists_pairs_objectList? (h "oneOf")
  obtain ⟨allOf, hallOf, hallOf'⟩ := exists_pairs_objectList? (h "allOf")
  obtain ⟨items, hitems, hitems'⟩ := exists_pairs_items? (h "items")
  obtain ⟨more, hmore, hmore'⟩ := exists_pairs_additional? (h "additionalItems")
  obtain ⟨properties, hproperties, hproperties'⟩ := exists_pairs_properties? (h "properties")
  obtain ⟨rest, hrest, hrest'⟩ := exists_pairs_additional? (h "additionalProperties")
  have hconst := eq_of_rel_eq (h "const")
  have henum := eq_of_rel_eq (h "enum")
  have htype := eq_of_rel_eq (h "type")
  have hrequired := eq_of_rel_eq (h "required")
  let keywords : Keywords (Pair R) :=
    ⟨oneOf, allOf, xs.lookup "const", xs.lookup "enum", xs.lookup "type", items, more, properties,
      required? (xs.lookup "required"), rest⟩
  refine ⟨keywords.shape, ?_, ?_⟩
  · rw [← Keywords.shape_map, classify_obj, Keywords.ofEntries, ← honeOf, ← hallOf, ← hitems, ← hmore,
      ← hproperties, ← hrest]
    rfl
  · rw [← Keywords.shape_map, classify_obj, Keywords.ofEntries, ← honeOf', ← hallOf', ← hitems',
      ← hmore', ← hproperties', ← hrest', ← hconst, ← henum, ← htype, ← hrequired]
    rfl

/-- Values that match can take the place of each other under a keyword. All other
    keywords are looked up as before. -/
theorem matches_lookup_replace (hR : ∀ x, R x x) (front back : List (String × Json))
    {keyword : String} {x y : Json} (h : Matches R (Role.ofKeyword keyword) x y) (name : String) :
    Option.Rel (Matches R (Role.ofKeyword name)) ((front ++ (keyword, x) :: back).lookup name)
      ((front ++ (keyword, y) :: back).lookup name) := by
  have hrefl (slot : Option Json) : Option.Rel (Matches R (Role.ofKeyword name)) slot slot := by
    cases slot with
    | none => exact .none
    | some value => exact .some (.refl hR _ value)
  rw [List.lookup_append, List.lookup_append]
  cases front.lookup name with
  | some value => exact hrefl (some value)
  | none =>
    rw [Option.none_or, Option.none_or, List.lookup_cons, List.lookup_cons]
    cases hname : name == keyword with
    | true =>
      rw [eq_of_beq hname]
      exact .some h
    | false => exact hrefl _

end Matches

end Schema

end SchemaTypes
