import SchemaTypes.Proofs.Ty.Normal
import SchemaTypes.Proofs.TypeScript.Readable
import SchemaTypes.TypeScript.OfTy

namespace SchemaTypes

/-- The type that is written as a word. -/
def Keyword.ty : Keyword → Ty
  | .never => .never
  | .value => .any
  | .null => .null
  | .number => .number
  | .string => .string
  | .boolean => .boolean

namespace Ty

mutual

/-- The type that is read where the given one is written. The text `null` does not tell the
    literal from the type, nor do empty braces, and both are read as the type. -/
def asRead : Ty → Ty
  | .literal .null => .null
  | .literal (.obj []) => .object [] none
  | .array item => .array (asRead item)
  | .object fields none => .object (asReadFields fields) none
  | .object fields (some index) => .object (asReadFields fields) (some (asRead index))
  | .union members => .union (asReadMembers members)
  | ty => ty

def asReadFields : List (String × Field Ty) → List (String × Field Ty)
  | [] => []
  | (name, ⟨ty, optional⟩) :: rest => (name, ⟨asRead ty, optional⟩) :: asReadFields rest

def asReadMembers : List Ty → List Ty
  | [] => []
  | member :: rest => asRead member :: asReadMembers rest

end

end Ty

namespace TypeExpr

mutual

/-- The value that an expression is the type of, if there is only one. -/
def literal? : TypeExpr → Option Json
  | .keyword .null => some .null
  | .scalar value => some value
  | .tuple items => (literals? items).map .arr
  | .object properties => (entries? properties).map .obj
  | _ => none

def literals? : List TypeExpr → Option (List Json)
  | [] => some []
  | item :: rest => (literal? item).bind fun value => (literals? rest).map (value :: ·)

/-- The properties of one value are all readonly, and none can be missing. -/
def entries? : List (Property TypeExpr) → Option (List (String × Json))
  | [] => some []
  | ⟨name, true, false, ty⟩ :: rest =>
    (literal? ty).bind fun value => (entries? rest).map ((name, value) :: ·)
  | _ => none

end

mutual

/-- The type that an expression means. With readonly properties an object type is
    that of one value. -/
def toTy? : TypeExpr → Option Ty
  | .keyword word => some word.ty
  | .scalar value => some (.literal value)
  | .tuple items => (literals? items).map fun values => .literal (.arr values)
  | .arrayOf item => (toTy? item).map .array
  | .genericArray item => (toTy? item).map .array
  | .object properties =>
    if properties.any (·.readonly) then (entries? properties).map fun entries => .literal (.obj entries)
    else (fields? properties).map fun fields => .object fields none
  | .mapped ty => (toTy? ty).map fun index => .object [] (some index)
  | .both (.object properties) (.mapped ty) =>
    (fields? properties).bind fun fields => (toTy? ty).map fun index => .object fields (some index)
  | .both _ _ => none
  | .union members => (members? members).map .union

def fields? : List (Property TypeExpr) → Option (List (String × Field Ty))
  | [] => some []
  | ⟨name, false, optional, ty⟩ :: rest =>
    (toTy? ty).bind fun ty => (fields? rest).map ((name, ⟨ty, optional⟩) :: ·)
  | _ => none

def members? : List TypeExpr → Option (List Ty)
  | [] => some []
  | member :: rest => (toTy? member).bind fun ty => (members? rest).map (ty :: ·)

end

section ReadableOfTy

theorem ofLiterals_eq_map (values : List Json) : ofLiterals values = values.map ofLiteral := by
  induction values with
  | nil => rfl
  | cons value values ih => exact congrArg (ofLiteral value :: ·) ih

theorem ofEntries_eq_map (entries : List (String × Json)) :
    ofEntries entries = entries.map fun entry => ⟨entry.1, true, false, ofLiteral entry.2⟩ := by
  induction entries with
  | nil => rfl
  | cons entry entries ih => exact congrArg (⟨entry.1, true, false, ofLiteral entry.2⟩ :: ·) ih

theorem ofFields_eq_map (fields : List (String × Field Ty)) :
    ofFields fields = fields.map fun entry =>
      ⟨entry.1, false, entry.2.optional, ofTy entry.2.ty⟩ := by
  induction fields with
  | nil => rfl
  | cons entry fields ih =>
    exact congrArg (⟨entry.1, false, entry.2.optional, ofTy entry.2.ty⟩ :: ·) ih

theorem ofMembers_eq_map (members : List Ty) : ofMembers members = members.map ofTy := by
  induction members with
  | nil => rfl
  | cons member members ih => exact congrArg (ofTy member :: ·) ih

/-- The type of one value is readable, whatever the value is. -/
theorem readable_ofLiteral (value : Json) : Readable (ofLiteral value) := by
  induction value with
  | null => exact readable_null
  | bool b => exact readable_bool b
  | num n => exact readable_num n
  | str text => exact readable_str text
  | arr items ih =>
    refine readable_tuple ?_
    rw [ofLiterals_eq_map]
    exact List.forall_mem_map.mpr ih
  | obj entries ih =>
    refine readable_object ?_
    rw [ofEntries_eq_map]
    exact List.forall_mem_map.mpr ih

theorem ofArray_cases (item : Ty) (expr : TypeExpr) :
    ofArray item expr = .genericArray expr ∨ ofArray item expr = .arrayOf expr := by
  cases item <;> simp [ofArray]

/-- Properties are readable beside a type for all names, since both stand in braces. -/
theorem readable_ofObject {properties : List (Property TypeExpr)} {index : Option TypeExpr}
    (hproperties : ∀ p ∈ properties, Readable p.ty) (hindex : ∀ expr ∈ index, Readable expr) :
    Readable (ofObject properties index) := by
  cases index with
  | none => exact readable_object hproperties
  | some index =>
    have hmapped := readable_mapped (hindex index rfl)
    cases properties with
    | nil => exact hmapped
    | cons property properties =>
      exact readable_both (readable_object hproperties) hmapped rfl rfl

/-- A type in normal form is written as a readable expression. The normal form is
    used for unions, which have two members at least. -/
theorem readable_ofTy {ty : Ty} (h : ty.Normalized) : Readable (ofTy ty) := by
  -- The induction is on the normal form: a union with one member would be read as the member.
  induction h with
  | never => exact readable_keyword .never
  | any => exact readable_keyword .value
  | null => exact readable_keyword .null
  | number => exact readable_keyword .number
  | string => exact readable_keyword .string
  | boolean => exact readable_keyword .boolean
  | literal => exact readable_ofLiteral _
  | @array item _ ih =>
    show Readable (ofArray item (ofTy item))
    obtain heq | heq := ofArray_cases item (ofTy item) <;> rw [heq]
    · exact readable_genericArray ih
    · exact readable_arrayOf ih
  | @object fields index _ _ _ ihfields ihindex =>
    have hfields : ∀ p ∈ ofFields fields, Readable p.ty := by
      rw [ofFields_eq_map]
      exact List.forall_mem_map.mpr ihfields
    cases index with
    | none => exact readable_ofObject hfields (by simp)
    | some index => exact readable_ofObject hfields (by simpa using ihindex index rfl)
  | @union members htwo _ _ _ ih =>
    show Readable (.union (ofMembers members))
    rw [ofMembers_eq_map]
    exact readable_union (by simpa using htwo) (List.forall_mem_map.mpr ih)

end ReadableOfTy

section Meaning

theorem literals?_ofLiterals {values : List Json}
    (h : ∀ value ∈ values, (ofLiteral value).asRead.literal? = some value) :
    literals? (asReadItems (ofLiterals values)) = some values := by
  induction values with
  | nil => rfl
  | cons value values ih =>
    have hvalues := ih fun v hv => h v (.tail _ hv)
    show ((ofLiteral value).asRead.literal?).bind (fun v =>
      (literals? (asReadItems (ofLiterals values))).map (v :: ·)) = _
    rw [h value (by simp), hvalues]
    rfl

theorem entries?_ofEntries {entries : List (String × Json)}
    (h : ∀ entry ∈ entries, (ofLiteral entry.2).asRead.literal? = some entry.2) :
    entries? (asReadProperties (ofEntries entries)) = some entries := by
  induction entries with
  | nil => rfl
  | cons entry entries ih =>
    have hentries := ih fun e he => h e (.tail _ he)
    show ((ofLiteral entry.2).asRead.literal?).bind (fun v =>
      (entries? (asReadProperties (ofEntries entries))).map ((entry.1, v) :: ·)) = _
    rw [h entry (by simp), hentries]
    rfl

/-- A value is found again in the expression that is read where its type is written. -/
theorem literal?_ofLiteral (value : Json) : (ofLiteral value).asRead.literal? = some value := by
  induction value with
  | null => rfl
  | bool b => rfl
  | num n => rfl
  | str text => rfl
  | arr items ih => exact congrArg (Option.map Json.arr) (literals?_ofLiterals ih)
  | obj entries ih => exact congrArg (Option.map Json.obj) (entries?_ofEntries ih)

/-- The type of one value means this value, but for `null` and the empty object,
    which are read as types of their own. -/
theorem toTy?_ofLiteral (value : Json) :
    (ofLiteral value).asRead.toTy? = some (Ty.literal value).asRead := by
  cases value with
  | null => rfl
  | bool b => rfl
  | num n => rfl
  | str text => rfl
  | arr items =>
    exact congrArg (Option.map fun values => Ty.literal (.arr values))
      (literals?_ofLiterals fun value _ => literal?_ofLiteral value)
  | obj entries =>
    cases entries with
    | nil => rfl
    | cons entry entries =>
      exact congrArg (Option.map fun entries => Ty.literal (.obj entries))
        (entries?_ofEntries fun entry _ => literal?_ofLiteral entry.2)

theorem fields?_ofFields {fields : List (String × Field Ty)}
    (h : ∀ entry ∈ fields, (ofTy entry.2.ty).asRead.toTy? = some entry.2.ty.asRead) :
    fields? (asReadProperties (ofFields fields)) = some (Ty.asReadFields fields) := by
  induction fields with
  | nil => rfl
  | cons entry fields ih =>
    have hfields := ih fun e he => h e (.tail _ he)
    show ((ofTy entry.2.ty).asRead.toTy?).bind (fun ty =>
      (fields? (asReadProperties (ofFields fields))).map ((entry.1, ⟨ty, entry.2.optional⟩) :: ·)) = _
    rw [h entry (by simp), hfields]
    rfl

theorem members?_ofMembers {members : List Ty}
    (h : ∀ member ∈ members, (ofTy member).asRead.toTy? = some member.asRead) :
    members? (asReadItems (ofMembers members)) = some (Ty.asReadMembers members) := by
  induction members with
  | nil => rfl
  | cons member members ih =>
    have hmembers := ih fun m hm => h m (.tail _ hm)
    show ((ofTy member).asRead.toTy?).bind (fun ty =>
      (members? (asReadItems (ofMembers members))).map (ty :: ·)) = _
    rw [h member (by simp), hmembers]
    rfl

theorem toTy?_object {fields : List (String × Field Ty)}
    (h : ∀ entry ∈ fields, (ofTy entry.2.ty).asRead.toTy? = some entry.2.ty.asRead) :
    (object (ofFields fields)).asRead.toTy? = some (.object (Ty.asReadFields fields) none) := by
  have hreadonly : (asReadProperties (ofFields fields)).any (·.readonly) = false := by
    rw [asReadProperties_eq_map, ofFields_eq_map]
    simp [propertyAsRead]
  show (if (asReadProperties (ofFields fields)).any (·.readonly) then
      (entries? (asReadProperties (ofFields fields))).map fun entries => Ty.literal (.obj entries)
    else (fields? (asReadProperties (ofFields fields))).map fun fields => Ty.object fields none) = _
  rw [hreadonly, fields?_ofFields h]
  rfl

/-- Properties beside a type for all names mean an object type with an index. -/
theorem toTy?_both {fields : List (String × Field Ty)} {index : Ty}
    (hfields : ∀ entry ∈ fields, (ofTy entry.2.ty).asRead.toTy? = some entry.2.ty.asRead)
    (hindex : (ofTy index).asRead.toTy? = some index.asRead) :
    (ofObject (ofFields fields) (some (ofTy index))).asRead.toTy? =
      some (.object (Ty.asReadFields fields) (some index.asRead)) := by
  cases fields with
  | nil => exact congrArg (Option.map fun index => Ty.object [] (some index)) hindex
  | cons entry fields =>
    show (fields? (asReadProperties (ofFields (entry :: fields)))).bind (fun fields =>
      (ofTy index).asRead.toTy?.map fun index => Ty.object fields (some index)) = _
    rw [fields?_ofFields hfields, hindex]
    rfl

/-- What is read where a type is written means the type. The induction is on the
    type, and literals are all that may be read as something else. -/
theorem toTy?_ofTy (ty : Ty) : (ofTy ty).asRead.toTy? = some ty.asRead := by
  induction ty with
  | never => rfl
  | any => rfl
  | null => rfl
  | number => rfl
  | string => rfl
  | boolean => rfl
  | literal value => exact toTy?_ofLiteral value
  | array item ih =>
    show (ofArray item (ofTy item)).asRead.toTy? = _
    obtain heq | heq := ofArray_cases item (ofTy item) <;> rw [heq] <;>
      exact congrArg (Option.map Ty.array) ih
  | object fields index ihfields ihindex =>
    cases index with
    | none => exact toTy?_object ihfields
    | some index => exact toTy?_both ihfields (ihindex index rfl)
  | union members ih => exact congrArg (Option.map Ty.union) (members?_ofMembers ih)

end Meaning

end TypeExpr

namespace Ty

/-- Reads the text of a type expression as a type. -/
def read? (text : String) : Option Ty := do (← TypeExpr.parse text).toTy?

/-- A type in normal form is read back from its text, as far as a text can tell. -/
theorem read?_render {ty : Ty} (h : ty.Normalized) : read? ty.render = some ty.asRead := by
  rw [read?, render, (TypeExpr.readable_ofTy h).parse_text]
  exact TypeExpr.toTy?_ofTy ty

/-- The text of a type is read as the type itself, but for the literals whose text is that
    of another type, by a reader that lets a suffix bind tighter than `&` and `&` tighter
    than `|`. So two types of one text differ in such literals only. -/
theorem render_unambiguous {ty other : Ty} (h : ty.Normalized) (hother : other.Normalized) :
    read? ty.render = some ty.asRead ∧
      (ty.render = other.render → ty.asRead = other.asRead) ∧
      ∀ a b c : Keyword, TypeExpr.parse (a.text ++ " | " ++ b.text ++ " & " ++ c.text ++ "[]") =
        some (.union [.keyword a, .both (.keyword b) (.arrayOf (.keyword c))]) := by
  refine ⟨read?_render h, fun htext => ?_, TypeExpr.parse_operators⟩
  have hread := read?_render h
  rw [htext, read?_render hother] at hread
  exact (Option.some.inj hread).symm

/-- A list of records that hold more than they list, and the same list with a
    literal in place of the type `null`. -/
theorem render_unambiguous_open_records :
    (Ty.array (.object [("id", ⟨.literal .null, true⟩)] (some .string))).Normalized ∧
      (Ty.array (.object [("id", ⟨.null, true⟩)] (some .string))).Normalized ∧
      read? "(\x7b id?: null \x7d & \x7b [K in string]?: string \x7d)[]" =
        some (.array (.object [("id", ⟨.null, true⟩)] (some .string))) := by
  have hliteral : (Ty.array (.object [("id", ⟨.literal .null, true⟩)] (some .string))).Normalized :=
    .array (.object (by decide) (by simpa using .literal .null) (by simpa using .string))
  have hnull : (Ty.array (.object [("id", ⟨.null, true⟩)] (some .string))).Normalized :=
    .array (.object (by decide) (by simpa using .null) (by simpa using .string))
  exact ⟨hliteral, hnull, (render_unambiguous hliteral hnull).1⟩

end Ty

end SchemaTypes
