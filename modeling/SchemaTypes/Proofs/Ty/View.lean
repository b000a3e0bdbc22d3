import SchemaTypes.Proofs.Ty.Normal
import SchemaTypes.Ty.View

namespace SchemaTypes

namespace Ty

mutual

/-- The type that a JSON value is the view of. A view is told by its names and
    their order, and the names of fields and those in literals stand one object
    deeper, so that any may be used there. -/
def ofJson? : Json → Option Ty
  | .obj [("kind", .str "never")] => some .never
  | .obj [("kind", .str "any")] => some .any
  | .obj [("kind", .str "null")] => some .null
  | .obj [("kind", .str "number")] => some .number
  | .obj [("kind", .str "string")] => some .string
  | .obj [("kind", .str "boolean")] => some .boolean
  | .obj [("kind", .str "literal"), ("value", value)] => some (.literal value)
  | .obj [("kind", .str "array"), ("item", item)] => (ofJson? item).map .array
  | .obj [("kind", .str "object"), ("fields", .obj fields)] =>
    (fieldsOfJson? fields).map fun fields => .object fields none
  | .obj [("kind", .str "object"), ("fields", .obj fields), ("index", index)] => do
    let fields ← fieldsOfJson? fields
    let index ← ofJson? index
    some (.object fields (some index))
  | .obj [("kind", .str "union"), ("members", .arr members)] =>
    (membersOfJson? members).map .union
  | _ => none

def fieldsOfJson? : List (String × Json) → Option (List (String × Field Ty))
  | [] => some []
  | (name, .obj [("ty", ty), ("optional", .bool optional)]) :: rest => do
    let ty ← ofJson? ty
    let fields ← fieldsOfJson? rest
    some ((name, ⟨ty, optional⟩) :: fields)
  | _ => none

def membersOfJson? : List Json → Option (List Ty)
  | [] => some []
  | member :: rest => do
    let ty ← ofJson? member
    let members ← membersOfJson? rest
    some (ty :: members)

end

theorem membersOfJson?_membersToJson {members : List Ty}
    (h : ∀ member ∈ members, ofJson? member.toJson = some member) :
    membersOfJson? (membersToJson members) = some members := by
  induction members with
  | nil => rfl
  | cons member members ih =>
    rw [List.forall_mem_cons] at h
    simp [membersToJson, membersOfJson?, h.1, ih h.2]

theorem fieldsOfJson?_fieldsToJson {fields : List (String × Field Ty)}
    (h : ∀ entry ∈ fields, ofJson? entry.2.ty.toJson = some entry.2.ty) :
    fieldsOfJson? (fieldsToJson fields) = some fields := by
  induction fields with
  | nil => rfl
  | cons entry fields ih =>
    rw [List.forall_mem_cons] at h
    simp [fieldsToJson, fieldsOfJson?, h.1, ih h.2]

/-- A type is read back from its view. The induction is on the type and all types
    inside it. -/
theorem ofJson?_toJson (ty : Ty) : ofJson? ty.toJson = some ty := by
  induction ty with
  | array item ih => simp [toJson, kind, ofJson?, ih]
  | object fields index ihfields ihindex =>
    have hfields := fieldsOfJson?_fieldsToJson ihfields
    cases index with
    | none => simp [toJson, kind, ofJson?, hfields]
    | some index => simp [toJson, kind, ofJson?, hfields, ihindex index rfl]
  | union members ih => simp [toJson, kind, ofJson?, membersOfJson?_membersToJson ih]
  | _ => rfl

/-- Nothing but views is read, so that no two values are the view of one type. -/
theorem eq_toJson_of_ofJson? {v : Json} {ty : Ty} (h : ofJson? v = some ty) : v = ty.toJson := by
  suffices hall : (∀ v ty, ofJson? v = some ty → v = ty.toJson) ∧
      (∀ values members, membersOfJson? values = some members → values = membersToJson members) ∧
      (∀ entries fields, fieldsOfJson? entries = some fields → entries = fieldsToJson fields) from
    hall.1 v ty h
  -- One case for each equation of the three readers, with what holds of the parts that are read.
  apply ofJson?.mutual_induct
  case case8 =>
    intro item ih ty h
    rw [ofJson?] at h
    obtain ⟨ty, hty, rfl⟩ := Option.map_eq_some_iff.mp h
    rw [toJson, ← ih ty hty, kind]
  case case9 =>
    intro entries ih ty h
    rw [ofJson?] at h
    obtain ⟨fields, hfields, rfl⟩ := Option.map_eq_some_iff.mp h
    rw [toJson, ← ih fields hfields, kind]
  case case10 =>
    intro entries value ihfields ihindex ty h
    rw [ofJson?] at h
    obtain ⟨fields, hfields, h⟩ := Option.bind_eq_some_iff.mp h
    obtain ⟨index, hindex, h⟩ := Option.bind_eq_some_iff.mp h
    cases h
    rw [toJson, ← ihfields fields hfields, ← ihindex index hindex, kind]
  case case11 =>
    intro values ih ty h
    rw [ofJson?] at h
    obtain ⟨members, hmembers, rfl⟩ := Option.map_eq_some_iff.mp h
    rw [toJson, ← ih members hmembers, kind]
  case case12 =>
    intro v _ _ _ _ _ _ _ _ _ _ _ ty h
    rw [ofJson?] at h
    · cases h
    all_goals assumption
  case case14 =>
    intro value values ihvalue ihvalues members h
    rw [membersOfJson?] at h
    obtain ⟨ty, hty, h⟩ := Option.bind_eq_some_iff.mp h
    obtain ⟨rest, hrest, h⟩ := Option.bind_eq_some_iff.mp h
    cases h
    rw [membersToJson, ← ihvalue ty hty, ← ihvalues rest hrest]
  case case16 =>
    intro name value optional entries ihvalue ihentries fields h
    rw [fieldsOfJson?] at h
    obtain ⟨ty, hty, h⟩ := Option.bind_eq_some_iff.mp h
    obtain ⟨rest, hrest, h⟩ := Option.bind_eq_some_iff.mp h
    cases h
    rw [fieldsToJson, ← ihvalue ty hty, ← ihentries rest hrest]
  case case17 =>
    intro entries hnil hcons fields h
    rw [fieldsOfJson?] at h
    · cases h
    all_goals assumption
  case case7 =>
    intro value ty h
    cases h
    rfl
  -- The kinds without parts, and the empty lists.
  all_goals
    intro _ h
    cases h
    rfl

/-- The view of a type determines the type, to the order of fields and members: it
    is read back from its view, and from nothing else. No normal form is asked
    for, and the names in fields and literals may be any. -/
theorem view_determines :
    (∀ v ty, ofJson? v = some ty ↔ v = ty.toJson) ∧ ∀ a b : Ty, a.toJson = b.toJson → a = b := by
  have hread (v : Json) (ty : Ty) : ofJson? v = some ty ↔ v = ty.toJson := by
    refine ⟨eq_toJson_of_ofJson?, ?_⟩
    rintro rfl
    exact ofJson?_toJson ty
  refine ⟨hread, fun a b h => ?_⟩
  have ha := (hread a.toJson a).mpr rfl
  have hb := (hread a.toJson b).mpr h
  exact Option.some.inj (ha.symm.trans hb)

-- What looks like a view inside a literal is part of the literal.
example :
    ofJson? (.obj [("kind", .str "literal"), ("value", .obj [("kind", .str "never")])]) =
      some (.literal (.obj [("kind", .str "never")])) := rfl

end Ty

end SchemaTypes
