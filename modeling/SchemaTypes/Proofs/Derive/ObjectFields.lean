import SchemaTypes.Proofs.Derive.NormalForm

namespace SchemaTypes

section Keywords

/-- The list without repetitions is that of the standard library, so that the
    specification need not mention the function of the derivation. -/
theorem firstOccurrences_eq_eraseDups {α : Type} [BEq α] [LawfulBEq α] (xs : List α) :
    firstOccurrences xs = xs.eraseDups := by
  induction xs using List.reverseRecOn with
  | nil => rfl
  | append_singleton xs x ih =>
    have hstep : firstOccurrences (xs ++ [x]) =
        if (firstOccurrences xs).contains x then firstOccurrences xs
        else firstOccurrences xs ++ [x] := by
      rw [firstOccurrences, List.foldl_append]
      rfl
    rw [hstep, List.eraseDups_append, ← ih]
    by_cases hx : x ∈ xs
    · simp [mem_firstOccurrences, hx, List.removeAll]
    · simp [mem_firstOccurrences, hx, List.removeAll, List.eraseDups_cons]

theorem filterMap_eq_of_mapM {α β : Type} {f : α → Option β} {xs : List α} {ys : List β}
    (h : xs.mapM f = some ys) : xs.filterMap f = ys := by
  induction xs generalizing ys with
  | nil =>
    cases h
    rfl
  | cons x xs ih =>
    rw [List.mapM_cons] at h
    obtain ⟨y, hy, h⟩ := Option.bind_eq_some_iff.mp h
    obtain ⟨rest, hrest, h⟩ := Option.bind_eq_some_iff.mp h
    cases h
    rw [List.filterMap_cons_some hy, ih hrest]

namespace Schema

/-- The entries under the keyword `properties`, if an object stands there. -/
def propertiesOf (schema : Json) : List (String × Json) :=
  match schema.field? "properties" with
  | some (.obj entries) => entries
  | _ => []

/-- The names under the keyword `required`, as often as they stand there. -/
def requiredOf (schema : Json) : List String :=
  match schema.field? "required" with
  | some (.arr items) => items.filterMap Json.str?
  | _ => []

variable {schema : Json} {properties : Option (List (String × Json))} {required : List String}
  {additional : Additional Json}

/-- The three keywords of an object schema are read on their own. If one of them
    is malformed the schema is read as saying nothing of objects. -/
theorem objectShape_eq_object_iff {entries : List (String × Json)} :
    objectShape entries = .object properties required additional ↔
      properties? (entries.lookup "properties") = some properties ∧
        required? (entries.lookup "required") = some required ∧
        additional? (entries.lookup "additionalProperties") = some additional := by
  unfold objectShape
  split
  next hproperties hrequired hadditional => simp [hproperties, hrequired, hadditional]
  next hnone =>
    refine ⟨nofun, fun ⟨hproperties, hrequired, hadditional⟩ => ?_⟩
    exact absurd hadditional (hnone _ _ _ hproperties hrequired)

/-- An object schema has its parts from three keywords, all of them of the right
    form. What other members the schema has does not matter. -/
theorem keywords_of_classify (h : classify schema = .object properties required additional) :
    properties? (schema.field? "properties") = some properties ∧
      required? (schema.field? "required") = some required ∧
      additional? (schema.field? "additionalProperties") = some additional := by
  unfold classify at h
  split at h
  case h_2 => cases h
  unfold oneOfShape at h
  split at h
  · cases h
  unfold allOfShape at h
  split at h
  · cases h
  unfold constShape at h
  split at h
  · cases h
  unfold enumShape at h
  split at h
  · cases h
  unfold typeShape at h
  split at h
  case h_6 =>
    unfold arrayShape at h
    split at h <;> cases h
  case h_7 => exact objectShape_eq_object_iff.mp h
  all_goals cases h

theorem getD_eq_propertiesOf (h : properties? (schema.field? "properties") = some properties) :
    properties.getD [] = propertiesOf schema := by
  unfold properties? at h
  unfold propertiesOf
  split at h
  next hslot =>
    cases h
    rw [hslot]
    rfl
  next hslot =>
    split at h <;> cases h
    rw [hslot]
    rfl
  next => cases h

/-- Required names are kept in the order in which they are listed first. -/
theorem eq_eraseDups_requiredOf (h : required? (schema.field? "required") = some required) :
    required = (requiredOf schema).eraseDups := by
  unfold required? at h
  unfold requiredOf
  split at h
  next hslot =>
    cases h
    rw [hslot]
    rfl
  next hslot =>
    obtain ⟨names, hnames, rfl⟩ := Option.map_eq_some_iff.mp h
    rw [hslot, firstOccurrences_eq_eraseDups, ← filterMap_eq_of_mapM hnames]
  next => cases h

/-- What is said of further properties gives the index: the type of all values for
    `true`, the type of a schema for a schema, and none for `false` or nothing. -/
theorem type?_map_eq_some_iff
    (h : additional? (schema.field? "additionalProperties") = some additional) (below : Json → Ty)
    (ty : Ty) :
    (additional.map below).type? = some ty ↔
      (schema.field? "additionalProperties" = some (.bool true) ∧ ty = .any) ∨
      ∃ entries, schema.field? "additionalProperties" = some (.obj entries) ∧
        ty = below (.obj entries) := by
  unfold additional? at h
  split at h
  case h_5 => cases h
  all_goals next hslot =>
    cases h
    simp [hslot, Additional.map, Additional.type?, eq_comm]

end Schema

end Keywords

/-- The fields of an object type come from two sources: a property is a field with
    its type, optional unless it is required, and a required name that is no
    property is a field of any type. -/
theorem Ty.mem_objectFields_iff {properties : List (String × Ty)} {required : List String}
    {name : String} {field : Field Ty} :
    (name, field) ∈ objectFields properties required ↔
      (∃ ty, (name, ty) ∈ properties ∧ field = ⟨ty, !required.contains name⟩) ∨
      (name ∈ required ∧ name ∉ Entries.names properties ∧ field = ⟨.any, false⟩) := by
  simp only [objectFields, List.mem_append, List.mem_map, List.mem_filter, Prod.mk.injEq,
    Bool.not_eq_true', ← Bool.not_eq_true, Entries.has_iff, Prod.exists]
  constructor
  · rintro (⟨_, ty, hproperty, rfl, rfl⟩ | ⟨_, ⟨hrequired, hnew⟩, rfl, rfl⟩)
    · exact .inl ⟨ty, hproperty, rfl⟩
    · exact .inr ⟨hrequired, hnew, rfl⟩
  · rintro (⟨ty, hproperty, rfl⟩ | ⟨hrequired, hnew, rfl⟩)
    · exact .inl ⟨name, ty, hproperty, rfl, rfl⟩
    · exact .inr ⟨name, ⟨hrequired, hnew⟩, rfl, rfl⟩

namespace Schema

/-- The fields and the index that an object schema asks for, where `below` gives
    the types of the schemas nested in it. -/
structure AsksFor (schema : Json) (below : Json → Ty) (fields : List (String × Field Ty))
    (index : Option Ty) : Prop where
  /-- Properties come first. Behind them are the other required names, each where
      it first stands. -/
  names : Entries.names fields = Entries.names (propertiesOf schema) ++
    (requiredOf schema).eraseDups.filter (!(Entries.names (propertiesOf schema)).contains ·)
  distinct : (Entries.names fields).Nodup
  optional : ∀ name field, (name, field) ∈ fields →
    (field.optional = false ↔ name ∈ requiredOf schema)
  property : ∀ name field part, (name, field) ∈ fields → (name, part) ∈ propertiesOf schema →
    field.ty = below part
  noProperty : ∀ name field, (name, field) ∈ fields → name ∉ Entries.names (propertiesOf schema) →
    field.ty = .any
  index : ∀ ty, index = some ty ↔
    (schema.field? "additionalProperties" = some (.bool true) ∧ ty = .any) ∨
    ∃ entries, schema.field? "additionalProperties" = some (.obj entries) ∧ ty = below (.obj entries)

variable {schema : Json} {properties : Option (List (String × Json))} {required : List String}
  {additional : Additional Json}

/-- The fields and the index that are built from the parts of an object schema are
    those that it asks for, whatever types stand for the nested schemas. -/
theorem asksFor_of_classify (hschema : schema.NamesDistinct)
    (h : classify schema = .object properties required additional) (below : Json → Ty) :
    AsksFor schema below
      (Ty.objectFields ((propertiesOf schema).map fun property => (property.1, below property.2))
        (requiredOf schema).eraseDups)
      (additional.map below).type? := by
  obtain ⟨hproperties, hrequired, hadditional⟩ := keywords_of_classify h
  have hdistinct : (Entries.names (propertiesOf schema)).Nodup := by
    have hwellFormed := wellFormed_classify hschema
    rw [h] at hwellFormed
    exact getD_eq_propertiesOf hproperties ▸ hwellFormed.1
  have hnames : Entries.names ((propertiesOf schema).map fun property =>
      (property.1, below property.2)) = Entries.names (propertiesOf schema) := by
    simp [Entries.names, Function.comp_def]
  -- A field comes from a property, or from a required name that no property has.
  have hsource {name : String} {field : Field Ty} (hfield : (name, field) ∈ Ty.objectFields
      ((propertiesOf schema).map fun property => (property.1, below property.2))
        (requiredOf schema).eraseDups) :
      (∃ part, (name, part) ∈ propertiesOf schema ∧
        field = ⟨below part, !(requiredOf schema).eraseDups.contains name⟩) ∨
      (name ∈ requiredOf schema ∧ name ∉ Entries.names (propertiesOf schema) ∧
        field = ⟨.any, false⟩) := by
    rw [Ty.mem_objectFields_iff, hnames, List.mem_eraseDups] at hfield
    refine hfield.imp_left ?_
    rintro ⟨ty, hproperty, rfl⟩
    obtain ⟨⟨_, part⟩, hpart, heq⟩ := List.mem_map.mp hproperty
    cases heq
    exact ⟨part, hpart, rfl⟩
  constructor
  case names =>
    rw [Ty.names_objectFields, hnames]
    congr 1
    apply List.filter_congr
    intro name _
    rw [← hnames, Bool.eq_iff_iff, Bool.not_eq_true', Bool.not_eq_true', ← Bool.not_eq_true,
      ← Bool.not_eq_true, Entries.has_iff, List.contains_iff_mem]
  case distinct =>
    refine Ty.nodup_names_objectFields (hnames ▸ hdistinct) ?_
    exact eq_eraseDups_requiredOf hrequired ▸ nodup_of_required? hrequired
  case optional =>
    intro name field hfield
    obtain ⟨part, _, rfl⟩ | ⟨hname, _, rfl⟩ := hsource hfield
    · simp [List.mem_eraseDups]
    · simpa using hname
  case property =>
    intro name field part hfield hpart
    obtain ⟨part', hpart', rfl⟩ | ⟨_, hnew, _⟩ := hsource hfield
    · rw [← Entries.lookup_eq_some_iff hdistinct] at hpart hpart'
      rw [Option.some.inj (hpart.symm.trans hpart')]
    · exact absurd (List.mem_map_of_mem hpart) hnew
  case noProperty =>
    intro name field hfield hnew
    obtain ⟨part, hpart, _⟩ | ⟨_, _, rfl⟩ := hsource hfield
    · exact absurd (List.mem_map_of_mem hpart) hnew
    · rfl
  case index => exact type?_map_eq_some_iff hadditional below

/-- The type of an object schema, with the properties and the required names as
    they stand in it. -/
theorem typeWithin_object {levels : Option Nat} (hlevels : levels ≠ some 0)
    (h : classify schema = .object properties required additional) :
    typeWithin levels schema = .object
      (Ty.objectFields ((propertiesOf schema).map fun property =>
        (property.1, typeWithin (levels.map (· - 1)) property.2)) (requiredOf schema).eraseDups)
      (additional.map (typeWithin (levels.map (· - 1)))).type? := by
  obtain ⟨hproperties, hrequired, _⟩ := keywords_of_classify h
  rw [typeWithin_of_ne_zero hlevels, h, Shape.map, Ty.ofShape, ← eq_eraseDups_requiredOf hrequired,
    ← getD_eq_propertiesOf hproperties]
  cases properties <;> rfl

end Schema

namespace Options

/-- The states that a derivation with given settings goes through: a new one, and
    what log records and schemas that have been worked out make of it. -/
inductive Reached (options : Options) : Memo → Prop where
  | new : Reached options {}
  | note {memo : Memo} (hmemo : Reached options memo) (level : Level) (message : String) :
    Reached options (memo.note level message)
  | resolve {memo : Memo} (hmemo : Reached options memo) (schema : Json) (depth : Nat) :
    Reached options ((options.resolve schema depth).run memo).2

variable {options : Options} {memo : Memo}

theorem Reached.sound (h : options.Reached memo) : options.Sound memo := by
  induction h with
  | new => exact Deriver.sound_new options
  | note _ _ _ ih => exact ih
  | resolve _ schema depth ih => exact (options.resolve_yields schema depth _ ih).2

/-- In the midst of a derivation, at whatever depth and with whatever cache it has
    come to, a schema gets the type that it would be given anew. -/
theorem Reached.resolve_eq (h : options.Reached memo) (schema : Json) (depth : Nat) :
    ((options.resolve schema depth).run memo).1 = Schema.typeWithin (options.levels depth) schema :=
  (options.resolve_yields schema depth memo h.sound).1

/-- The type of an object schema at any depth that is followed has just the fields
    and the index that the schema asks for, the nested schemas having the types
    that they are given one level deeper. What has been derived before does not
    matter at either level. -/
theorem resolve_asksFor (hmemo : options.Reached memo) {schema : Json}
    (hschema : schema.NamesDistinct) {depth : Nat} (hdepth : options.tooDeep depth = false)
    {properties : Option (List (String × Json))} {required : List String}
    {additional : Additional Json}
    (hshape : Schema.classify schema = .object properties required additional) :
    ∃ fields index, ((options.resolve schema depth).run memo).1 = .object fields index ∧
      ∀ memo', options.Reached memo' → Schema.AsksFor schema
        (fun part => ((options.resolve part (depth + 1)).run memo').1) fields index := by
  have hlevels : options.levels depth ≠ some 0 := by
    rw [ne_eq, ← tooDeep_iff, hdepth]
    decide
  refine ⟨_, _, (hmemo.resolve_eq schema depth).trans (Schema.typeWithin_object hlevels hshape),
    fun memo' hmemo' => ?_⟩
  have hbelow : Schema.typeWithin ((options.levels depth).map (· - 1)) =
      fun part => ((options.resolve part (depth + 1)).run memo').1 := by
    funext part
    rw [← levels_succ, hmemo'.resolve_eq]
  rw [hbelow]
  exact Schema.asksFor_of_classify hschema hshape _

/-- Two properties, required names of which one is repeated and two are no
    properties, and an index, in a schema that is derived after another one. -/
theorem resolve_asksFor_second_schema :
    let text := Json.obj [("type", .str "string")]
    let list := Json.obj [("type", .str "array"), ("items", text)]
    let schema := Json.obj [("type", .str "object"),
      ("properties", .obj [("id", text), ("tags", list)]),
      ("required", .arr [.str "kind", .str "id", .str "kind", .str "name"]),
      ("additionalProperties", list)]
    let deriver : Deriver := { options := ⟨some 1, true⟩ }
    ∃ fields index, ((deriver.derive list).2.derive schema).1 = .object fields index ∧
      Entries.names fields = ["id", "tags", "kind", "name"] ∧
      (∀ field, ("id", field) ∈ fields → field.optional = false) ∧
      (∀ field, ("tags", field) ∈ fields → field.optional = true) ∧
      (∀ field, ("kind", field) ∈ fields → field.ty = .any) ∧ ∃ ty, index = some ty := by
  intro text list schema deriver
  have hmemo : deriver.options.Reached (deriver.derive list).2.memo := .resolve .new list 0
  have hschema : schema.NamesDistinct := by simp [schema, list, text, Entries.names]
  have hdepth : deriver.options.tooDeep 0 = false := rfl
  obtain ⟨fields, index, htype, hfields⟩ := resolve_asksFor hmemo hschema hdepth rfl
  have hasks := hfields _ .new
  refine ⟨fields, index, htype, hasks.names, fun field hfield => ?_, fun field hfield => ?_,
    fun field hfield => ?_, _, (hasks.index _).mpr (.inr ⟨_, rfl, rfl⟩)⟩
  · exact (hasks.optional "id" field hfield).mpr (by decide)
  · rw [← Bool.not_eq_false, hasks.optional "tags" field hfield]
    decide
  · exact hasks.noProperty "kind" field hfield (by decide)

end Options

end SchemaTypes
