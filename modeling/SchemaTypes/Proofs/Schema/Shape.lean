import SchemaTypes.Proofs.Json.Basic
import SchemaTypes.Schema.Classify

namespace SchemaTypes

variable {σ τ : Type}

def Items.map (f : σ → τ) : Items σ → Items τ
  | .absent => .absent
  | .single schema => .single (f schema)
  | .positional schemas => .positional (schemas.map f)

def Additional.map (f : σ → τ) : Additional σ → Additional τ
  | .absent => .absent
  | .allow => .allow
  | .deny => .deny
  | .constrain schema => .constrain (f schema)

namespace Shape

/-- Replaces every nested schema. -/
def map (f : σ → τ) : Shape σ → Shape τ
  | .absent => .absent
  | .oneOf schemas => .oneOf (schemas.map f)
  | .allOf schemas => .allOf (schemas.map f)
  | .const value => .const value
  | .enum values => .enum values
  | .null => .null
  | .number => .number
  | .integer => .integer
  | .string => .string
  | .boolean => .boolean
  | .array items additional => .array (items.map f) (additional.map f)
  | .object properties required additional =>
    .object (properties.map fun entries => entries.map fun entry => (entry.1, f entry.2)) required
      (additional.map f)
  | .unrecognized => .unrecognized

/-- Names are distinct in literals, among the properties and among the required names. -/
def WellFormed : Shape σ → Prop
  | .const value => value.NamesDistinct
  | .enum values => ∀ value ∈ values, value.NamesDistinct
  | .object properties required _ =>
    (Entries.names (properties.getD [])).Nodup ∧ required.Nodup
  | _ => True

end Shape

section Map

variable {f : σ → τ}

theorem Items.nested_map (items : Items σ) : (items.map f).nested = items.nested.map f := by
  cases items <;> rfl

theorem Additional.nested_map (additional : Additional σ) :
    (additional.map f).nested = additional.nested.map f := by
  cases additional <;> rfl

/-- The nested schemas of a shape are replaced one by one and keep their order. -/
theorem Shape.nested_map (shape : Shape σ) : (shape.map f).nested = shape.nested.map f := by
  cases shape with
  | array items additional =>
    simp only [map, nested, Items.nested_map, Additional.nested_map, List.map_append]
  | object properties required additional =>
    cases properties <;> simp [map, nested, Additional.nested_map]
  | _ => rfl

/-- Replacing the nested schemas twice is replacing them once. -/
theorem Shape.map_map {υ : Type} (g : τ → υ) (shape : Shape σ) :
    (shape.map f).map g = shape.map fun x => g (f x) := by
  have hitems (items : Items σ) : (items.map f).map g = items.map fun x => g (f x) := by
    cases items <;> simp [Items.map, Function.comp_def]
  have hadditional (additional : Additional σ) :
      (additional.map f).map g = additional.map fun x => g (f x) := by
    cases additional <;> rfl
  cases shape with
  | array items additional => simp only [map, hitems, hadditional]
  | object properties required additional =>
    cases properties <;> simp [map, hadditional, Function.comp_def]
  | _ => simp [map, Function.comp_def]

/-- What replaces the nested schemas matters at these only. -/
theorem Shape.map_congr {g : σ → τ} {shape : Shape σ} (h : ∀ x ∈ shape.nested, f x = g x) :
    shape.map f = shape.map g := by
  have hadditional {additional : Additional σ} (h : ∀ x ∈ additional.nested, f x = g x) :
      additional.map f = additional.map g := by
    cases additional with
    | constrain schema => exact congrArg _ (h schema (by simp [Additional.nested]))
    | _ => rfl
  cases shape with
  | oneOf schemas => exact congrArg _ (List.map_congr_left h)
  | allOf schemas => exact congrArg _ (List.map_congr_left h)
  | array items additional =>
    have hitems : items.map f = items.map g := by
      have h : ∀ x ∈ items.nested, f x = g x := fun x hx => h x (List.mem_append_left _ hx)
      cases items with
      | absent => rfl
      | single schema => exact congrArg _ (h schema (by simp [Items.nested]))
      | positional schemas => exact congrArg _ (List.map_congr_left h)
    rw [map, map, hitems, hadditional fun x hx => h x (List.mem_append_right _ hx)]
  | object properties required additional =>
    have hproperties (entries) (hentries : properties = some entries) :
        (entries.map fun entry => (entry.1, f entry.2)) =
          entries.map fun entry => (entry.1, g entry.2) := by
      refine List.map_congr_left fun entry hentry => ?_
      rw [h entry.2 (List.mem_append_left _ (List.mem_map_of_mem (by simpa [hentries])))]
    rw [map, map, hadditional fun x hx => h x (List.mem_append_right _ hx)]
    cases properties with
    | none => rfl
    | some entries => rw [Option.map_some, Option.map_some, hproperties entries rfl]
  | _ => rfl

/-- Whether a shape is well formed does not depend on the nested schemas. -/
theorem Shape.WellFormed.map {shape : Shape σ} (h : shape.WellFormed) (f : σ → τ) :
    (shape.map f).WellFormed := by
  cases shape with
  | object properties required additional =>
    refine ⟨?_, h.2⟩
    cases properties with
    | none => exact h.1
    | some properties => simpa [Entries.names, Function.comp_def] using h.1
  | _ => exact h

/-- A property is found by its name before and after the schemas are replaced. -/
theorem Shape.lookup_map_properties (f : σ → τ) (properties : Option (List (String × σ)))
    (name : String) :
    ((properties.map fun entries => entries.map fun entry => (entry.1, f entry.2)).getD []).lookup
      name = ((properties.getD []).lookup name).map f := by
  cases properties with
  | none => rfl
  | some properties => exact Entries.lookup_map fun entry : String × σ => f entry.2

end Map

section Attach

variable {P : σ → Prop}

theorem Items.map_attachWith (f : σ → τ) (items : Items σ) (h : ∀ x ∈ items.nested, P x) :
    (items.attachWith P h).map (fun x => f x.1) = items.map f := by
  cases items with
  | absent => rfl
  | single schema => rfl
  | positional schemas =>
    simp only [attachWith, map, positional.injEq]
    exact List.attachWith_map_val h

theorem Additional.map_attachWith (f : σ → τ) (additional : Additional σ)
    (h : ∀ x ∈ additional.nested, P x) :
    (additional.attachWith P h).map (fun x => f x.1) = additional.map f := by
  cases additional <;> rfl

/-- Attached proofs do not matter to a replacement. -/
theorem Shape.map_attachWith (f : σ → τ) (shape : Shape σ) (h : ∀ x ∈ shape.nested, P x) :
    (shape.attachWith P h).map (fun x => f x.1) = shape.map f := by
  cases shape with
  | oneOf schemas =>
    simp only [attachWith, map, oneOf.injEq]
    exact List.attachWith_map_val h
  | allOf schemas =>
    simp only [attachWith, map, allOf.injEq]
    exact List.attachWith_map_val h
  | array items additional =>
    rw [attachWith, map, map, Items.map_attachWith, Additional.map_attachWith]
  | object properties required additional =>
    cases properties with
    | none => rw [attachWith, map, map, Additional.map_attachWith]; rfl
    | some properties =>
      rw [attachWith, map, map, Additional.map_attachWith, Option.map_some, Option.map_some,
        List.map_map]
      simp only [object.injEq, Option.some.injEq, and_self, and_true]
      exact List.attach_map_val (f := fun entry : String × σ => (entry.1, f entry.2))
  | _ => rfl

end Attach

section Classify

variable {schema x : Json}

/-- What stands in a schema has distinct names if the schema does. -/
theorem Json.NamesDistinct.of_below (h : schema.NamesDistinct) (hx : x.Below schema) :
    x.NamesDistinct := by
  induction hx with
  | item hx => exact h.item hx
  | entry hx => exact h.entry hx
  | trans _ _ ihx ihy => exact ihx (ihy h)

/-- The shape of a schema is well formed. Required names are distinct by the way
    they are read, and the rest comes from the schema. -/
theorem Schema.wellFormed_classify (h : schema.NamesDistinct) : (classify schema).WellFormed := by
  have hdrawn := drawnFrom_classify schema
  generalize classify schema = shape at hdrawn
  cases shape with
  | const value => exact h.of_below hdrawn
  | enum values => exact fun value hvalue => h.of_below (hdrawn value hvalue)
  | object properties required additional =>
    refine ⟨?_, hdrawn.2.1⟩
    cases properties with
    | none => exact List.nodup_nil
    | some properties => exact (h.of_below (hdrawn.1 properties rfl)).names
  | _ => trivial

/-- Induction over a schema and the schemas nested in it. These are found in the shape of
    the schema, so that the proof of a fact about derivation has one case per shape. -/
@[elab_as_elim]
theorem Schema.partInduction {motive : Json → Prop}
    (step : ∀ schema, (∀ part ∈ (classify schema).nested, motive part) → motive schema)
    (schema : Json) : motive schema :=
  step schema fun part hpart =>
    have := (below_of_mem_nested hpart).sizeOf_lt
    partInduction step part
termination_by sizeOf schema

/-- The parts of a schema are its nested schemas, with a proof that each is smaller. -/
theorem Schema.map_parts {τ : Type} (f : Json → τ) (schema : Json) :
    ((parts schema).map fun part => f part.1) = (classify schema).map f :=
  Shape.map_attachWith f _ _

end Classify

end SchemaTypes
