import SchemaTypes.Json.Basic

namespace SchemaTypes

/-- What a list schema says of the first items. -/
inductive Items (σ : Type) where
  | absent
  | single (schema : σ)
  | positional (schemas : List σ)

/-- What a schema says of the items or properties that it does not name. -/
inductive Additional (σ : Type) where
  | absent
  | allow
  | deny
  | constrain (schema : σ)

/-- The keyword of a schema that decides which data it describes, with what the keyword
    holds. The nested schemas are of any type, so that a shape of types is what is left of a
    shape of schemas once the nested ones have been worked out. -/
inductive Shape (σ : Type) where
  | absent
  | oneOf (schemas : List σ)
  | allOf (schemas : List σ)
  | const (value : Json)
  | enum (values : List Json)
  | null
  | number
  | integer
  | string
  | boolean
  | array (items : Items σ) (additional : Additional σ)
  | object (properties : Option (List (String × σ))) (required : List String)
      (additional : Additional σ)
  | unrecognized

variable {σ τ : Type}

namespace Items

def nested : Items σ → List σ
  | .absent => []
  | .single schema => [schema]
  | .positional schemas => schemas

def mapM {m : Type → Type} [Monad m] (f : σ → m τ) : Items σ → m (Items τ)
  | .absent => pure .absent
  | .single schema => .single <$> f schema
  | .positional schemas => .positional <$> schemas.mapM f

def attachWith (P : σ → Prop) : (items : Items σ) → (∀ x ∈ items.nested, P x) → Items { x // P x }
  | .absent, _ => .absent
  | .single schema, h => .single ⟨schema, h schema (by simp [nested])⟩
  | .positional schemas, h => .positional (schemas.attachWith P h)

end Items

namespace Additional

def nested : Additional σ → List σ
  | .constrain schema => [schema]
  | _ => []

def mapM {m : Type → Type} [Monad m] (f : σ → m τ) : Additional σ → m (Additional τ)
  | .absent => pure .absent
  | .allow => pure .allow
  | .deny => pure .deny
  | .constrain schema => .constrain <$> f schema

def attachWith (P : σ → Prop) :
    (additional : Additional σ) → (∀ x ∈ additional.nested, P x) → Additional { x // P x }
  | .absent, _ => .absent
  | .allow, _ => .allow
  | .deny, _ => .deny
  | .constrain schema, h => .constrain ⟨schema, h schema (by simp [nested])⟩

end Additional

namespace Shape

/-- The nested schemas in the order in which they are looked at. -/
def nested : Shape σ → List σ
  | .oneOf schemas => schemas
  | .allOf schemas => schemas
  | .array items additional => items.nested ++ additional.nested
  | .object properties _ additional => (properties.getD []).map (·.2) ++ additional.nested
  | _ => []

/-- Works out the nested schemas in order. -/
def mapM {m : Type → Type} [Monad m] (f : σ → m τ) : Shape σ → m (Shape τ)
  | .absent => pure .absent
  | .oneOf schemas => .oneOf <$> schemas.mapM f
  | .allOf schemas => .allOf <$> schemas.mapM f
  | .const value => pure (.const value)
  | .enum values => pure (.enum values)
  | .null => pure .null
  | .number => pure .number
  | .integer => pure .integer
  | .string => pure .string
  | .boolean => pure .boolean
  | .array items additional => do
    let items ← items.mapM f
    let additional ← additional.mapM f
    return .array items additional
  | .object none required additional => do
    let additional ← additional.mapM f
    return .object none required additional
  | .object (some properties) required additional => do
    let properties ← properties.mapM fun entry => do return (entry.1, ← f entry.2)
    let additional ← additional.mapM f
    return .object (some properties) required additional
  | .unrecognized => pure .unrecognized

/-- Attaches to every nested schema the proof of a property that all of them have. -/
def attachWith (P : σ → Prop) : (shape : Shape σ) → (∀ x ∈ shape.nested, P x) → Shape { x // P x }
  | .absent, _ => .absent
  | .oneOf schemas, h => .oneOf (schemas.attachWith P h)
  | .allOf schemas, h => .allOf (schemas.attachWith P h)
  | .const value, _ => .const value
  | .enum values, _ => .enum values
  | .null, _ => .null
  | .number, _ => .number
  | .integer, _ => .integer
  | .string, _ => .string
  | .boolean, _ => .boolean
  | .array items additional, h =>
    .array (items.attachWith P fun x hx => h x (List.mem_append_left _ hx))
      (additional.attachWith P fun x hx => h x (List.mem_append_right _ hx))
  | .object none required additional, h =>
    .object none required
      (additional.attachWith P fun x hx => h x (List.mem_append_right _ hx))
  | .object (some properties) required additional, h =>
    .object
      (some (properties.attach.map fun entry => (entry.1.1, ⟨entry.1.2, h entry.1.2 <|
        List.mem_append_left _ (List.mem_map_of_mem entry.2)⟩)))
      required
      (additional.attachWith P fun x hx => h x (List.mem_append_right _ hx))
  | .unrecognized, _ => .unrecognized

/-- The name by which a shape is reported. -/
def tag : Shape σ → String
  | .absent => "absent"
  | .oneOf _ => "oneOf"
  | .allOf _ => "allOf"
  | .const _ => "const"
  | .enum _ => "enum"
  | .null => "null"
  | .number => "number"
  | .integer => "integer"
  | .string => "string"
  | .boolean => "boolean"
  | .array _ _ => "array"
  | .object _ _ _ => "object"
  | .unrecognized => "unrecognized"

/-- Whether the shape may hold nested schemas. -/
def isComposite : Shape σ → Bool
  | .oneOf _ | .allOf _ | .array _ _ | .object _ _ _ => true
  | _ => false

end Shape

end SchemaTypes
