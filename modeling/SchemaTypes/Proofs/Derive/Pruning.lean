import SchemaTypes.Proofs.Derive.NormalForm
import SchemaTypes.Proofs.Schema.Keywords

namespace SchemaTypes

namespace Schema

/-- Keywords under which a list has a schema in each place. -/
def listKeywords : List String := ["oneOf", "allOf", "items"]

/-- Keywords under which a single schema may stand. -/
def schemaKeywords : List String := ["items", "additionalItems", "additionalProperties"]

section Definitions

variable (f : Json → Json)

/-- Replaces what stands in the place of a schema, if it is one: schemas are objects. -/
def mapPlace (x : Json) : Json := if x.isObj then f x else x

/-- Replaces the schemas that stand under a keyword. -/
def mapUnder (keyword : String) : Json → Json
  | .arr items => if keyword ∈ listKeywords then .arr (items.map (mapPlace f)) else .arr items
  | .obj entries =>
    if keyword ∈ schemaKeywords then f (.obj entries)
    else if keyword = "properties" then
      .obj (entries.map fun entry => (entry.1, mapPlace f entry.2))
    else .obj entries
  | value => value

/-- Replaces the schemas that are nested in a schema, but not those nested in these. -/
def mapNested : Json → Json
  | .obj entries => .obj (entries.map fun entry => (entry.1, mapUnder f entry.1 entry.2))
  | value => value

end Definitions

/-- The schema in which each schema nested `depth + 1` levels deep is emptied. -/
def prune : (depth : Nat) → Json → Json
  | 0 => mapNested fun _ => .obj []
  | depth + 1 => mapNested (prune depth)

section Replacement

variable {f : Json → Json}

/-- Only objects are schemas, and replacing schemas by schemas changes nothing else. -/
theorem isObj_mapPlace (hf : ∀ x, x.isObj = true → (f x).isObj = true) (x : Json) :
    (mapPlace f x).isObj = x.isObj := by
  unfold mapPlace
  split
  next hx => rw [hf x hx, hx]
  next => rfl

theorem exists_eq_obj {x : Json} (hx : x.isObj = true) : ∃ entries, x = .obj entries := by
  cases x with
  | obj entries => exact ⟨entries, rfl⟩
  | _ => cases hx

theorem mapPlace_of_isObj {x : Json} (hx : x.isObj = true) : mapPlace f x = f x := if_pos hx

theorem isObj_mapNested {x : Json} (hx : x.isObj = true) : (mapNested f x).isObj = true := by
  obtain ⟨entries, rfl⟩ := exists_eq_obj hx
  rfl

/-- A list of schemas stays one, and a list with something else in it stays none. -/
theorem objectList?_map (hf : ∀ x, x.isObj = true → (f x).isObj = true) (items : List Json) :
    objectList? (some (.arr (items.map (mapPlace f)))) =
      (objectList? (some (.arr items))).map (List.map f) := by
  have hall : (items.map (mapPlace f)).all Json.isObj = items.all Json.isObj := by
    rw [List.all_map]
    exact congrArg items.all (funext (isObj_mapPlace hf))
  simp only [objectList?, hall]
  split
  next hobj =>
    refine congrArg some (List.map_congr_left fun x hx => ?_)
    exact mapPlace_of_isObj (List.all_eq_true.mp hobj x hx)
  next => rfl

/-- Under `oneOf` and `allOf` only a list holds schemas. A single schema there is
    not looked at, and so it is not replaced either. -/
theorem objectList?_mapUnder (hf : ∀ x, x.isObj = true → (f x).isObj = true) {keyword : String}
    (hkeyword : keyword = "oneOf" ∨ keyword = "allOf") (slot : Option Json) :
    objectList? (slot.map (mapUnder f keyword)) = (objectList? slot).map (List.map f) := by
  have hlist : keyword ∈ listKeywords := by
    obtain rfl | rfl := hkeyword <;> simp [listKeywords]
  have hobject (entries : List (String × Json)) : mapUnder f keyword (.obj entries) = .obj entries := by
    obtain rfl | rfl := hkeyword <;> simp [mapUnder, schemaKeywords]
  cases slot with
  | none => rfl
  | some x =>
    cases x with
    | arr items =>
      rw [Option.map_some, mapUnder, if_pos hlist]
      exact objectList?_map hf items
    | obj entries =>
      rw [Option.map_some, hobject]
      rfl
    | _ => rfl

/-- Under `items` both a schema and a list of schemas are replaced. -/
theorem items?_mapUnder (hf : ∀ x, x.isObj = true → (f x).isObj = true) (slot : Option Json) :
    items? (slot.map (mapUnder f "items")) = (items? slot).map (Items.map f) := by
  cases slot with
  | none => rfl
  | some x =>
    cases x with
    | arr items =>
      have hlist := objectList?_map hf items
      rw [Option.map_some, mapUnder, if_pos (by simp [listKeywords])]
      simp only [items?, hlist, Option.map_map]
      rfl
    | obj entries =>
      obtain ⟨entries', hobj⟩ := exists_eq_obj (hf (.obj entries) rfl)
      rw [Option.map_some, mapUnder, if_pos (by simp [schemaKeywords])]
      simp only [items?, Option.map_some, Items.map, hobj]
    | _ => rfl

theorem additional?_mapUnder (hf : ∀ x, x.isObj = true → (f x).isObj = true) {keyword : String}
    (hkeyword : keyword = "additionalItems" ∨ keyword = "additionalProperties") (slot : Option Json) :
    additional? (slot.map (mapUnder f keyword)) = (additional? slot).map (Additional.map f) := by
  have hschema : keyword ∈ schemaKeywords := by
    obtain rfl | rfl := hkeyword <;> simp [schemaKeywords]
  have hlist : keyword ∉ listKeywords := by
    obtain rfl | rfl := hkeyword <;> simp [listKeywords]
  cases slot with
  | none => rfl
  | some x =>
    cases x with
    | bool value => cases value <;> rfl
    | arr items =>
      rw [Option.map_some, mapUnder, if_neg hlist]
      rfl
    | obj entries =>
      obtain ⟨entries', hobj⟩ := exists_eq_obj (hf (.obj entries) rfl)
      rw [Option.map_some, mapUnder, if_pos hschema]
      simp only [additional?, Option.map_some, Additional.map, hobj]
    | _ => rfl

/-- Under `properties` each entry of the object is replaced, and its names are kept. -/
theorem properties?_mapUnder (hf : ∀ x, x.isObj = true → (f x).isObj = true) (slot : Option Json) :
    properties? (slot.map (mapUnder f "properties")) = (properties? slot).map
      (Option.map fun entries => entries.map fun entry => (entry.1, f entry.2)) := by
  cases slot with
  | none => rfl
  | some x =>
    cases x with
    | arr items => rfl
    | obj entries =>
      have hall : ((entries.map fun entry => (entry.1, mapPlace f entry.2)).all fun entry =>
          entry.2.isObj) = entries.all fun entry => entry.2.isObj := by
        rw [List.all_map]
        exact congrArg entries.all (funext fun entry => isObj_mapPlace hf entry.2)
      rw [Option.map_some, mapUnder, if_neg (by simp [schemaKeywords]), if_pos rfl]
      simp only [properties?, hall]
      split
      next hobj =>
        refine congrArg (some ∘ some) (List.map_congr_left fun entry hentry => ?_)
        rw [mapPlace_of_isObj (List.all_eq_true.mp hobj entry hentry)]
      next => rfl
    | _ => rfl

/-- Under other keywords there are no schemas, so that whatever stands there is
    left as it is. -/
theorem mapUnder_of_not_mem {keyword : String}
    (h : keyword ∉ "properties" :: (listKeywords ++ schemaKeywords)) : mapUnder f keyword = id := by
  rw [List.mem_cons, List.mem_append, not_or, not_or] at h
  funext x
  cases x <;> simp [mapUnder, h]

/-- Replacing the nested schemas by schemas keeps the shape of a schema, and they
    are replaced in it. Keywords that are malformed or passed over stay so, for
    which each keyword has its own lemma above. -/
theorem classify_mapNested (hf : ∀ x, x.isObj = true → (f x).isObj = true) (schema : Json) :
    classify (mapNested f schema) = (classify schema).map f := by
  cases schema with
  | obj entries =>
    have hlookup (keyword : String) :
        (entries.map fun entry => (entry.1, mapUnder f entry.1 entry.2)).lookup keyword =
          (entries.lookup keyword).map (mapUnder f keyword) :=
      Entries.lookup_map fun entry => mapUnder f entry.1 entry.2
    have hconst : mapUnder f "const" = id := mapUnder_of_not_mem (by decide)
    have henum : mapUnder f "enum" = id := mapUnder_of_not_mem (by decide)
    have htype : mapUnder f "type" = id := mapUnder_of_not_mem (by decide)
    have hrequired : mapUnder f "required" = id := mapUnder_of_not_mem (by decide)
    rw [mapNested, classify_obj, classify_obj, ← Keywords.shape_map]
    simp only [Keywords.ofEntries, Keywords.map, hlookup, objectList?_mapUnder hf (.inl rfl),
      objectList?_mapUnder hf (.inr rfl), items?_mapUnder hf, additional?_mapUnder hf (.inl rfl),
      additional?_mapUnder hf (.inr rfl), properties?_mapUnder hf, hconst, henum, htype, hrequired,
      Option.map_id, id_eq]
  | _ => rfl

end Replacement

/-- A pruned schema is a schema. -/
theorem isObj_prune (depth : Nat) {schema : Json} (h : schema.isObj = true) :
    (prune depth schema).isObj = true := by
  cases depth <;> exact isObj_mapNested h

/-- Following a number of levels and no more is following all levels of what is
    left when the others are emptied. The empty schema is that of all values, as
    is the type beyond the limit. -/
theorem typeWithin_eq_typeWithin_prune (depth : Nat) (schema : Json) :
    typeWithin (some (depth + 1)) schema = typeWithin none (prune depth schema) := by
  rw [typeWithin_of_ne_zero (by simp), typeWithin_of_ne_zero (by simp)]
  refine congrArg Ty.ofShape ?_
  induction depth generalizing schema with
  | zero =>
    have hempty (x : Json) : typeWithin (some 0) x = typeWithin none (.obj []) := by
      rw [typeWithin, if_pos rfl, typeWithin_of_ne_zero (by simp)]
      rfl
    rw [prune, classify_mapNested fun _ _ => rfl, Shape.map_map]
    exact Shape.map_congr fun x _ => hempty x
  | succ depth ih =>
    rw [prune, classify_mapNested fun _ => isObj_prune depth, Shape.map_map]
    refine Shape.map_congr fun x _ => ?_
    rw [Option.map_some, Option.map_none, Nat.add_sub_cancel, typeWithin_of_ne_zero (by simp),
      typeWithin_of_ne_zero (by simp), ih x]

end Schema

namespace Deriver

/-- A limit on the depth prunes: the type found under it is the one found without
    a limit once every schema one level below the limit is emptied. Neither side
    depends on whether types are kept for reuse or on what has been kept. -/
theorem derive_eq_derive_prune {deriver deriver' : Deriver} (hderiver : deriver.Reachable)
    (hderiver' : deriver'.Reachable) {depth : Nat} (hdepth : deriver.options.maxDepth = some depth)
    (hnone : deriver'.options.maxDepth = none) (schema : Json) :
    (deriver.derive schema).1 = (deriver'.derive (Schema.prune depth schema)).1 := by
  rw [derive_eq hderiver.sound, derive_eq hderiver'.sound, hdepth, hnone]
  exact Schema.typeWithin_eq_typeWithin_prune depth schema

/-- Lists in lists, of which the innermost is beyond the limit. -/
theorem derive_eq_derive_prune_nested_lists :
    let list (items : Json) := Json.obj [("type", .str "array"), ("items", items)]
    let schema := Json.obj [("type", .str "object"), ("properties", .obj [
      ("rows", list (list (.obj [("type", .str "string")]))), ("name", .obj [("const", .str "a")])]),
      ("additionalProperties", .obj [("oneOf", .arr [.obj [("type", .str "null")], .obj []])])]
    let pruned := Json.obj [("type", .str "object"), ("properties", .obj [
      ("rows", list (.obj [])), ("name", .obj [("const", .str "a")])]),
      ("additionalProperties", .obj [("oneOf", .arr [.obj [], .obj []])])]
    let deriver : Deriver := { options := ⟨some 1, true⟩ }
    let deriver' : Deriver := { options := ⟨none, false⟩ }
    ((deriver.derive schema).2.derive schema).1 = (deriver'.derive pruned).1 := by
  intro list schema pruned deriver deriver'
  have hpruned : Schema.prune 1 schema = pruned := by
    simp [schema, pruned, list, Schema.prune, Schema.mapNested, Schema.mapUnder, Schema.mapPlace,
      Schema.listKeywords, Schema.schemaKeywords, Json.isObj]
  rw [← hpruned]
  exact derive_eq_derive_prune (.derive (.new _) schema) (.new _) rfl rfl schema

end Deriver

end SchemaTypes
