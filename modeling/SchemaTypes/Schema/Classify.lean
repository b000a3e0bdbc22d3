import SchemaTypes.Schema.Shape

namespace SchemaTypes

namespace Schema

/-- The items of a list that holds objects only. -/
def objectList? : Option Json → Option (List Json)
  | some (.arr items) => if items.all Json.isObj then some items else none
  | _ => none

/-- The items of a list that holds strings only, each where it stands first. -/
def nameList? (items : List Json) : Option (List String) :=
  (items.mapM Json.str?).map firstOccurrences

def items? : Option Json → Option (Items Json)
  | none => some .absent
  | some (.obj entries) => some (.single (.obj entries))
  | some (.arr items) => (objectList? (some (.arr items))).map .positional
  | some _ => none

def additional? : Option Json → Option (Additional Json)
  | none => some .absent
  | some (.bool true) => some .allow
  | some (.bool false) => some .deny
  | some (.obj entries) => some (.constrain (.obj entries))
  | some _ => none

def properties? : Option Json → Option (Option (List (String × Json)))
  | none => some none
  | some (.obj entries) => if entries.all (·.2.isObj) then some (some entries) else none
  | some _ => none

def required? : Option Json → Option (List String)
  | none => some []
  | some (.arr items) => nameList? items
  | some _ => none

/-- A list schema. A keyword of the wrong form makes the whole schema
    unrecognized. -/
def arrayShape (entries : List (String × Json)) : Shape Json :=
  match items? (entries.lookup "items"), additional? (entries.lookup "additionalItems") with
  | some items, some additional => .array items additional
  | _, _ => .unrecognized

/-- An object schema. A keyword of the wrong form makes the whole schema
    unrecognized. -/
def objectShape (entries : List (String × Json)) : Shape Json :=
  match properties? (entries.lookup "properties"), required? (entries.lookup "required"),
    additional? (entries.lookup "additionalProperties") with
  | some properties, some required, some additional => .object properties required additional
  | _, _, _ => .unrecognized

def typeShape (entries : List (String × Json)) : Option Json → Shape Json
  | some (.str "null") => .null
  | some (.str "number") => .number
  | some (.str "integer") => .integer
  | some (.str "string") => .string
  | some (.str "boolean") => .boolean
  | some (.str "array") => arrayShape entries
  | some (.str "object") => objectShape entries
  | _ => .unrecognized

def enumShape (entries : List (String × Json)) : Shape Json :=
  match entries.lookup "enum" with
  | some (.arr values) => .enum values
  | _ => typeShape entries (entries.lookup "type")

def constShape (entries : List (String × Json)) : Shape Json :=
  match entries.lookup "const" with
  | some value => .const value
  | none => enumShape entries

def allOfShape (entries : List (String × Json)) : Shape Json :=
  match objectList? (entries.lookup "allOf") with
  | some schemas => .allOf schemas
  | none => constShape entries

def oneOfShape (entries : List (String × Json)) : Shape Json :=
  match objectList? (entries.lookup "oneOf") with
  | some schemas => .oneOf schemas
  | none => allOfShape entries

/-- The shape of a schema. Of several keywords the first of `oneOf`, `allOf`,
    `const`, `enum` and `type` decides; one of the wrong form is passed over, and
    other keywords are not looked at. -/
def classify : Json → Shape Json
  | .obj entries => oneOfShape entries
  | _ => .unrecognized

/-- The shape of a schema that may be absent. -/
def classify? : Option Json → Shape Json
  | none => .absent
  | some schema => classify schema

section Sources

variable {entries : List (String × Json)} {name : String} {x : Json}

theorem below_of_lookup (h : entries.lookup name = some x) : x.Below (.obj entries) :=
  .entry (Entries.mem_of_lookup h)

theorem eq_arr_of_objectList? {slot : Option Json} {schemas : List Json}
    (h : objectList? slot = some schemas) : slot = some (.arr schemas) := by
  unfold objectList? at h
  split at h
  · split at h <;> cases h
    rfl
  · cases h

/-- Every schema that is found in a list under a keyword stands inside the schema
    with that keyword. -/
theorem below_of_objectList? {schemas : List Json}
    (h : objectList? (entries.lookup name) = some schemas) (hx : x ∈ schemas) :
    x.Below (.obj entries) :=
  .trans (.item hx) (below_of_lookup (eq_arr_of_objectList? h))

theorem below_of_items? {items : Items Json} (h : items? (entries.lookup name) = some items)
    (hx : x ∈ items.nested) : x.Below (.obj entries) := by
  unfold items? at h
  split at h
  · cases h
    simp [Items.nested] at hx
  next hslot =>
    cases h
    simp only [Items.nested, List.mem_singleton] at hx
    rw [hx]
    exact below_of_lookup hslot
  next hslot =>
    obtain ⟨schemas, hschemas, rfl⟩ := Option.map_eq_some_iff.mp h
    rw [← hslot] at hschemas
    exact below_of_objectList? hschemas hx
  · cases h

theorem below_of_additional? {additional : Additional Json}
    (h : additional? (entries.lookup name) = some additional) (hx : x ∈ additional.nested) :
    x.Below (.obj entries) := by
  unfold additional? at h
  split at h <;> cases h <;> simp only [Additional.nested, List.not_mem_nil] at hx
  rw [List.mem_singleton.mp hx]
  exact below_of_lookup (by assumption)

/-- The object under `properties` stands inside the schema, and so do the schemas in it. -/
theorem below_of_properties? {properties : List (String × Json)}
    (h : properties? (entries.lookup name) = some (some properties)) :
    (Json.obj properties).Below (.obj entries) := by
  unfold properties? at h
  split at h
  · cases h
  · split at h <;> cases h
    exact below_of_lookup (by assumption)
  · cases h

theorem nodup_of_required? {slot : Option Json} {required : List String}
    (h : required? slot = some required) : required.Nodup := by
  unfold required? at h
  split at h
  · cases h
    exact List.nodup_nil
  · obtain ⟨names, _, rfl⟩ := Option.map_eq_some_iff.mp h
    exact nodup_firstOccurrences names
  · cases h

/-- Where the parts of a shape come from: nested schemas and literals stand inside
    the schema, and so does the object that holds the properties. No name is
    required twice. -/
def DrawnFrom (schema : Json) : Shape Json → Prop
  | .oneOf schemas | .allOf schemas | .enum schemas => ∀ x ∈ schemas, x.Below schema
  | .const value => value.Below schema
  | .array items additional =>
    (∀ x ∈ items.nested, x.Below schema) ∧ ∀ x ∈ additional.nested, x.Below schema
  | .object properties required additional =>
    (∀ entries ∈ properties, (Json.obj entries).Below schema) ∧ required.Nodup ∧
      ∀ x ∈ additional.nested, x.Below schema
  | _ => True

/-- Reading the keywords of a list schema makes no schema up. -/
theorem drawnFrom_arrayShape : DrawnFrom (.obj entries) (arrayShape entries) := by
  unfold arrayShape
  split
  next hitems hadditional =>
    exact ⟨fun _ => below_of_items? hitems, fun _ => below_of_additional? hadditional⟩
  next => trivial

/-- Reading the keywords of an object schema makes no schema up, and lists no
    required name twice. -/
theorem drawnFrom_objectShape : DrawnFrom (.obj entries) (objectShape entries) := by
  unfold objectShape
  split
  next hproperties hrequired hadditional =>
    refine ⟨fun properties hsome => ?_, nodup_of_required? hrequired,
      fun _ => below_of_additional? hadditional⟩
    rw [Option.mem_def.mp hsome] at hproperties
    exact below_of_properties? hproperties
  next => trivial

/-- Whatever the form of a schema is, its shape mentions only schemas that stand
    inside it and lists no required name twice. All that is known of a shape
    without its schema is said here. -/
theorem drawnFrom_classify (schema : Json) : DrawnFrom schema (classify schema) := by
  unfold classify
  split
  case h_2 => trivial
  unfold oneOfShape
  split
  next hschemas => exact fun _ => below_of_objectList? hschemas
  unfold allOfShape
  split
  next hschemas => exact fun _ => below_of_objectList? hschemas
  unfold constShape
  split
  next hvalue => exact below_of_lookup hvalue
  unfold enumShape
  split
  next hvalues => exact fun _ hx => .trans (.item hx) (below_of_lookup hvalues)
  unfold typeShape
  split
  case h_6 => exact drawnFrom_arrayShape
  case h_7 => exact drawnFrom_objectShape
  all_goals trivial

/-- The schemas that a shape mentions stand inside its schema, which bounds every
    recursion that goes from a schema to the parts of its shape. -/
theorem below_of_mem_nested {schema : Json} (h : x ∈ (classify schema).nested) :
    x.Below schema := by
  have hdrawn := drawnFrom_classify schema
  generalize classify schema = shape at h hdrawn
  cases shape <;> simp only [Shape.nested, List.not_mem_nil] at h
  case oneOf schemas => exact hdrawn x h
  case allOf schemas => exact hdrawn x h
  case array items additional =>
    obtain h | h := List.mem_append.mp h
    · exact hdrawn.1 x h
    · exact hdrawn.2 x h
  case object properties required additional =>
    obtain h | h := List.mem_append.mp h
    · obtain ⟨⟨name, value⟩, hentry, rfl⟩ := List.mem_map.mp h
      cases properties with
      | none => simp at hentry
      | some properties => exact .trans (.entry hentry) (hdrawn.1 properties rfl)
    · exact hdrawn.2.2 x h

end Sources

/-- The shape of a schema, every nested one with the proof that it is smaller. -/
def parts (schema : Json) : Shape { x : Json // sizeOf x < sizeOf schema } :=
  (classify schema).attachWith _ fun _ h => (below_of_mem_nested h).sizeOf_lt

end Schema

end SchemaTypes
