import SchemaTypes.Proofs.Derive.NormalForm
import SchemaTypes.Proofs.Schema.Keywords

namespace SchemaTypes

/-- A shape is similar to itself, nested schemas being related if they are equal. -/
theorem Shape.Similar.refl {σ : Type} {shape : Shape σ} (h : shape.WellFormed) :
    shape.Similar Eq shape := by
  have hlist {α : Type} {R : α → α → Prop} {xs : List α} (hR : ∀ x ∈ xs, R x x) :
      Shuffled R xs xs := ⟨xs, .refl xs, List.forall₂_same.mpr hR⟩
  have hadditional (additional : Additional σ) : additional.Similar Eq additional := by
    cases additional with
    | absent => exact .absent
    | allow => exact .allow
    | deny => exact .deny
    | constrain schema => exact .constrain rfl
  cases shape with
  | absent => exact .absent
  | oneOf schemas => exact .oneOf (hlist fun _ _ => rfl)
  | allOf schemas => exact .allOf (hlist fun _ _ => rfl)
  | const value => exact .const (Json.sameValue_refl h)
  | enum values => exact .enum (hlist fun value hvalue => Json.sameValue_refl (h value hvalue))
  | null => exact .null
  | number => exact .number
  | integer => exact .integer
  | string => exact .string
  | boolean => exact .boolean
  | array items additional =>
    refine .array ?_ (hadditional additional)
    cases items with
    | absent => exact .absent
    | single schema => exact .single rfl
    | positional schemas => exact .positional (hlist fun _ _ => rfl)
  | object properties required additional =>
    refine .object (fun name => ?_) (fun _ => .rfl) (hadditional additional)
    cases (properties.getD []).lookup name with
    | none => exact .none
    | some schema => exact .some rfl
  | unrecognized => exact .unrecognized

/-- Whether a shape is well formed does not depend on what stands for the nested schemas. -/
theorem Shape.WellFormed.of_map {σ τ : Type} {f : σ → τ} {shape : Shape σ}
    (h : (shape.map f).WellFormed) : shape.WellFormed := by
  cases shape with
  | object properties required additional =>
    refine ⟨?_, h.2⟩
    cases properties with
    | none => exact List.nodup_nil
    | some properties => simpa [Entries.names, Function.comp_def] using h.1
  | _ => exact h

namespace Schema

/-- A schema in which the place of one nested schema is left open. -/
inductive Frame where
  /-- The place under a keyword that holds a schema. -/
  | slot (front : List (String × Json)) (keyword : String)
      (hkeyword : Role.ofKeyword keyword = .schema) (back : List (String × Json))
  /-- A place in the list under a keyword that holds schemas. -/
  | item (front : List (String × Json)) (keyword : String)
      (hkeyword : Role.ofKeyword keyword = .schema) (before after : List Json)
      (back : List (String × Json))
  /-- The place of a property. -/
  | property (front before : List (String × Json)) (name : String)
      (after back : List (String × Json))

def Frame.plug : Frame → Json → Json
  | slot front keyword _ back, schema => .obj (front ++ (keyword, schema) :: back)
  | item front keyword _ before after back, schema =>
    .obj (front ++ (keyword, .arr (before ++ schema :: after)) :: back)
  | property front before name after back, schema =>
    .obj (front ++ ("properties", .obj (before ++ (name, schema) :: after)) :: back)

/-- A schema with an open place at any depth: the frames around the place, from
    the outermost to the innermost. -/
abbrev Context := List Frame

def Context.plug : Context → Json → Json
  | [], schema => schema
  | frame :: context, schema => frame.plug (Context.plug context schema)

/-- A frame is a schema object around its place, whatever is put there. -/
theorem Frame.isObj_plug (frame : Frame) (schema : Json) : (frame.plug schema).isObj = true := by
  cases frame <;> rfl

theorem Context.isObj_plug (context : Context) {schema : Json} (h : schema.isObj = true) :
    (context.plug schema).isObj = true := by
  cases context with
  | nil => exact h
  | cons frame context => exact frame.isObj_plug _

/-- Filling the place in a frame with related schemas gives schemas of one shape,
    with related schemas nested in the same places. -/
theorem Frame.exists_pairs_plug {R : Json → Json → Prop} (hR : ∀ x, R x x) (frame : Frame)
    {x y : Json} (hx : x.isObj = true) (hy : y.isObj = true) (h : R x y) :
    ∃ pairs : Shape (Pair R), pairs.map Pair.left = classify (frame.plug x) ∧
      pairs.map Pair.right = classify (frame.plug y) := by
  have hpeers (x : Json) : Peers R x x := ⟨rfl, fun _ => hR x⟩
  have hxy : Peers R x y := ⟨hx.trans hy.symm, fun _ => h⟩
  cases frame with
  | slot front keyword hkeyword back =>
    apply exists_pairs_classify (matches_lookup_replace hR front back _)
    rw [hkeyword]
    cases x <;> cases hx
    cases y <;> cases hy
    exact .obj h
  | item front keyword hkeyword before after back =>
    apply exists_pairs_classify (matches_lookup_replace hR front back _)
    rw [hkeyword]
    exact .arr (forall₂_replace hpeers hxy before after)
  | property front before name after back =>
    apply exists_pairs_classify (matches_lookup_replace hR front back _)
    exact .obj (forall₂_replace (fun entry => ⟨rfl, hpeers entry.2⟩) ⟨rfl, hxy⟩ before after)

/-- The two schemas have equal types, if no object in them has two entries of one name. -/
def AlikeTypes (x y : Json) : Prop :=
  x.NamesDistinct → y.NamesDistinct → (typeWithin none x).Alike (typeWithin none y)

theorem alikeTypes_refl (x : Json) : AlikeTypes x x :=
  fun hx _ => .refl (normalized_typeWithin none hx)

/-- The type of a schema is made from the types of its parts, and equal ones give
    equal types. Two schemas of one shape thus have equal types if their parts
    have, place by place. -/
theorem alikeTypes_of_pairs {x y : Json} {pairs : Shape (Pair AlikeTypes)}
    (hleft : pairs.map Pair.left = classify x) (hright : pairs.map Pair.right = classify y) :
    AlikeTypes x y := by
  intro hx hy
  have hwell := wellFormed_classify hx
  have hwell' := wellFormed_classify hy
  rw [← hleft] at hwell
  rw [← hright] at hwell'
  rw [typeWithin_of_ne_zero (by simp), typeWithin_of_ne_zero (by simp), ← hleft, ← hright,
    Shape.map_map, Shape.map_map]
  refine Ty.alike_ofShape ((Shape.Similar.refl hwell.of_map).map ?_) (hwell.of_map.map _)
    (hwell'.of_map.map _)
  rintro pair hpair _ _ rfl
  have hpart := List.mem_map_of_mem (f := Pair.left) hpair
  have hpart' := List.mem_map_of_mem (f := Pair.right) hpair
  rw [← Shape.nested_map, hleft] at hpart
  rw [← Shape.nested_map, hright] at hpart'
  exact pair.related (hx.of_below (below_of_mem_nested hpart))
    (hy.of_below (below_of_mem_nested hpart'))

/-- One step outwards: the place may be under a keyword that holds a schema, in a
    list of schemas, or under the name of a property. -/
theorem Frame.alikeTypes_plug (frame : Frame) {x y : Json} (hx : x.isObj = true)
    (hy : y.isObj = true) (h : AlikeTypes x y) : AlikeTypes (frame.plug x) (frame.plug y) := by
  obtain ⟨pairs, hleft, hright⟩ := frame.exists_pairs_plug alikeTypes_refl hx hy h
  exact alikeTypes_of_pairs hleft hright

/-- By induction on the context, one frame after the other from the inside. -/
theorem Context.alikeTypes_plug (context : Context) {x y : Json} (hx : x.isObj = true)
    (hy : y.isObj = true) (h : AlikeTypes x y) : AlikeTypes (context.plug x) (context.plug y) := by
  induction context with
  | nil => exact h
  | cons frame context ih => exact frame.alikeTypes_plug (isObj_plug _ hx) (isObj_plug _ hy) ih

end Schema

/-- Derivation is compositional: wherever one schema stands in another, one of an
    equal type can take its place. Equality is up to the order of members and
    fields, so that no two schemas have to be derived to one and the same type.
    Names must be distinct, as they are in all documents that were read. -/
theorem typeOf_same_of_replaced (context : Schema.Context) {schema schema' : Json}
    (hschema : schema.isObj = true) (hschema' : schema'.isObj = true)
    (hnames : (context.plug schema).NamesDistinct) (hnames' : (context.plug schema').NamesDistinct)
    (h : (typeOf schema).same (typeOf schema') = true) :
    (typeOf (context.plug schema)).same (typeOf (context.plug schema')) = true := by
  rw [typeOf_eq_typeWithin, typeOf_eq_typeWithin] at h ⊢
  refine (context.alikeTypes_plug hschema hschema' (fun hx hy => ⟨?_, ?_, h⟩) hnames hnames').same
  · exact Schema.normalized_typeWithin none hx
  · exact Schema.normalized_typeWithin none hy

/-- An enumeration and a choice of constants in another order, as the schema of a
    property that stands in one part of a conjunction. -/
theorem typeOf_same_of_replaced_size :
    let schema := Json.obj [("enum", .arr [.str "small", .num (.int 1)])]
    let schema' := Json.obj [("oneOf", .arr [.obj [("const", .num (.int 1))],
      .obj [("const", .str "small")]])]
    let context : Schema.Context := [
      .item [] "allOf" rfl [] [.obj [("type", .str "object"), ("required", .arr [.str "size"])]] [],
      .property [("type", .str "object")] [("name", .obj [])] "size" [] []]
    (typeOf (context.plug schema)).same (typeOf (context.plug schema')) = true := by
  intro schema schema' context
  apply typeOf_same_of_replaced context rfl rfl
  · simp [context, Schema.Context.plug, Schema.Frame.plug, schema, Entries.names]
  · simp [context, Schema.Context.plug, Schema.Frame.plug, schema', Entries.names]
  · decide +kernel

end SchemaTypes
