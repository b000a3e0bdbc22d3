import SchemaTypes.Proofs.Derive.NormalForm
import SchemaTypes.Proofs.Schema.Keywords

namespace SchemaTypes

namespace Schema

/-- The names that are looked at in a schema. -/
def keywords : List String :=
  ["oneOf", "allOf", "const", "enum", "type", "items", "additionalItems", "properties", "required",
    "additionalProperties"]

/-- A keyword holds a list of schemas, all of them objects. -/
def HoldsSchemas (entries : List (String × Json)) (keyword : String) : Prop :=
  ∃ schemas, entries.lookup keyword = some (.arr schemas) ∧ ∀ x ∈ schemas, x.isObj = true

/-- A name that is passed over in a schema with the given members: it is no keyword, or a
    list of alternatives or of conjuncts is there to be looked at first. -/
def Unheeded (entries : List (String × Json)) (name : String) : Prop :=
  name ∉ keywords ∨ (HoldsSchemas entries "oneOf" ∧ name ≠ "oneOf") ∨
    (HoldsSchemas entries "allOf" ∧ name ≠ "oneOf" ∧ name ≠ "allOf")

/-- One value comes from another by adding, removing and changing, in any number
    of schemas inside it, members that are passed over beside those that stay. -/
inductive Retouched : Role → Json → Json → Prop where
  | refl {role : Role} (x : Json) : Retouched role x x
  | trans {role : Role} {x y z : Json} (hxy : Retouched role x y) (hyz : Retouched role y z) :
    Retouched role x z
  | members (front old new back : List (String × Json))
      (h : ∀ entry ∈ old ++ new, Unheeded (front ++ back) entry.1) :
    Retouched .schema (.obj (front ++ old ++ back)) (.obj (front ++ new ++ back))
  | entry {role : Role} (front back : List (String × Json)) {name : String} {x y : Json}
      (h : Retouched (role.entry name) x y) :
    Retouched role (.obj (front ++ (name, x) :: back)) (.obj (front ++ (name, y) :: back))
  | item {role : Role} (front back : List Json) {x y : Json} (h : Retouched role.item x y) :
    Retouched role (.arr (front ++ x :: back)) (.arr (front ++ y :: back))

section Members

variable {front extra back : List (String × Json)}

/-- Members that are passed over hide no other ones. -/
theorem lookup_of_heeded (hextra : ∀ entry ∈ extra, Unheeded (front ++ back) entry.1) {name : String}
    (hname : ¬ Unheeded (front ++ back) name) :
    (front ++ extra ++ back).lookup name = (front ++ back).lookup name := by
  have hnone : extra.lookup name = none := by
    rw [Entries.lookup_eq_none_iff]
    intro hmem
    obtain ⟨entry, hentry, rfl⟩ := List.mem_map.mp hmem
    exact hname (hextra entry hentry)
  rw [List.lookup_append, List.lookup_append, List.lookup_append, hnone, Option.or_none]

theorem objectList?_eq_some_iff {entries : List (String × Json)} {keyword : String}
    {schemas : List Json} :
    objectList? (entries.lookup keyword) = some schemas ↔
      entries.lookup keyword = some (.arr schemas) ∧ ∀ x ∈ schemas, x.isObj = true := by
  constructor
  · intro h
    have hslot := eq_arr_of_objectList? h
    rw [hslot, objectList?] at h
    split at h
    next hall => exact ⟨hslot, List.all_eq_true.mp hall⟩
    next => cases h
  · rintro ⟨hslot, hobj⟩
    rw [hslot, objectList?, if_pos (List.all_eq_true.mpr hobj)]

/-- The condition in the words of the specification, and in those of the reader. -/
theorem holdsSchemas_iff {entries : List (String × Json)} {keyword : String} :
    HoldsSchemas entries keyword ↔ ∃ schemas, objectList? (entries.lookup keyword) = some schemas :=
  exists_congr fun _ => objectList?_eq_some_iff.symm

/-- The shape of a schema is found in the members that are not passed over. Which
    ones are passed over depends on the others: a choice of schemas is looked for
    first, and where there is one, the type does not matter. -/
theorem classify_eq_of_heeded {xs ys : List (String × Json)}
    (h : ∀ name, ¬ Unheeded ys name → xs.lookup name = ys.lookup name) :
    classify (.obj xs) = classify (.obj ys) := by
  have honeOf := h "oneOf" (by simp [Unheeded, keywords])
  by_cases hone : HoldsSchemas ys "oneOf"
  · obtain ⟨schemas, hschemas⟩ := holdsSchemas_iff.mp hone
    simp only [classify, oneOfShape, honeOf, hschemas]
  have hallOf := h "allOf" (by simp [Unheeded, keywords, hone])
  by_cases hall : HoldsSchemas ys "allOf"
  · obtain ⟨schemas, hschemas⟩ := holdsSchemas_iff.mp hall
    simp only [classify, oneOfShape, allOfShape, honeOf, hallOf, hschemas]
  · -- Neither list is there to be looked at first, so that no keyword is passed over.
    have hkeyword (name : String) (hname : name ∈ keywords) : xs.lookup name = ys.lookup name :=
      h name (by simp [Unheeded, hname, hone, hall])
    simp only [keywords, List.forall_mem_cons] at hkeyword
    obtain ⟨_, _, hconst, henum, htype, hitems, hmore, hproperties, hrequired, hrest, _⟩ := hkeyword
    simp only [classify_obj, Keywords.ofEntries, honeOf, hallOf, hconst, henum, htype, hitems, hmore,
      hproperties, hrequired, hrest]

end Members

/-- The two schemas have the same type, however many levels are followed. -/
def SameTypes (x y : Json) : Prop := ∀ levels, typeWithin levels x = typeWithin levels y

/-- Schemas whose parts have the same types in the same places have the same type,
    at every number of levels. -/
theorem SameTypes.of_map_eq {x y : Json}
    (h : ∀ levels, (classify x).map (typeWithin levels) = (classify y).map (typeWithin levels)) :
    SameTypes x y := by
  intro levels
  by_cases hlevels : levels = some 0
  · rw [typeWithin, typeWithin, if_pos hlevels, if_pos hlevels]
  · rw [typeWithin_of_ne_zero hlevels, typeWithin_of_ne_zero hlevels, h]

/-- Schemas that have the same type may take the place of each other in a schema.
    The types are equal here and not only alike, since nothing is reordered. -/
theorem SameTypes.replace (front back : List (String × Json)) {keyword : String} {x y : Json}
    (h : Matches SameTypes (Role.ofKeyword keyword) x y) :
    SameTypes (.obj (front ++ (keyword, x) :: back)) (.obj (front ++ (keyword, y) :: back)) := by
  obtain ⟨pairs, hleft, hright⟩ := exists_pairs_classify
    (matches_lookup_replace (R := SameTypes) (fun _ _ => rfl) front back h)
  refine .of_map_eq fun levels => ?_
  rw [← hleft, ← hright, Shape.map_map, Shape.map_map]
  exact Shape.map_congr fun pair _ => pair.related levels

/-- Retouched schemas have the same type, and what is no schema has not been
    touched. The two are proved together, since a list or an object that holds
    schemas is none itself. -/
theorem Retouched.matches {role : Role} {x y : Json} (h : Retouched role x y) :
    Matches SameTypes role x y := by
  have hrefl (role : Role) (x : Json) : Matches SameTypes role x x := .refl (fun _ _ => rfl) role x
  have hpeers (x : Json) : Peers SameTypes x x := ⟨rfl, fun _ _ => rfl⟩
  induction h with
  | refl x => exact hrefl _ x
  | trans _ _ ihxy ihyz => exact ihxy.trans (fun hxy hyz levels => (hxy levels).trans (hyz levels)) ihyz
  | members front old new back h =>
    rw [List.forall_mem_append] at h
    have hclassify (extra : List (String × Json))
        (hextra : ∀ entry ∈ extra, Unheeded (front ++ back) entry.1) :=
      classify_eq_of_heeded fun _ hname => lookup_of_heeded hextra hname
    refine .obj (.of_map_eq fun levels => ?_)
    rw [hclassify old h.1, hclassify new h.2]
  | @entry role front back name x y _ ih =>
    cases role with
    | schema => exact .obj (.replace front back ih)
    | properties =>
      refine .obj (forall₂_replace (fun entry => ⟨rfl, hpeers entry.2⟩) ⟨rfl, ?_⟩ front back)
      exact SchemasMatch.peers ih
    | _ =>
      have heq : x = y := ih
      exact heq ▸ hrefl _ _
  | @item role front back x y _ ih =>
    cases role with
    | schema => exact .arr (forall₂_replace hpeers (SchemasMatch.peers ih) front back)
    | _ =>
      have heq : x = y := ih
      exact heq ▸ hrefl _ _

theorem Retouched.sameTypes {x y : Json} (h : Retouched .schema x y) : SameTypes x y := by
  have hother {x y : Json} (hx : classify x = .unrecognized) (hy : classify y = .unrecognized) :
      SameTypes x y := .of_map_eq fun _ => by rw [hx, hy]
  cases h.matches with
  | obj hxy => exact hxy
  | _ => exact hother rfl rfl

end Schema

namespace Deriver

/-- Members that are passed over do not interfere: whatever is done to them in a
    schema and in the schemas nested in it, the type is the same, and so it is
    whatever each of the two derivations has kept of the schemas it saw before. -/
theorem derive_eq_of_retouched {deriver deriver' : Deriver} (hderiver : deriver.Reachable)
    (hderiver' : deriver'.Reachable) (hoptions : deriver.options = deriver'.options)
    {schema schema' : Json} (h : Schema.Retouched .schema schema schema') :
    (deriver.derive schema).1 = (deriver'.derive schema').1 := by
  rw [derive_eq hderiver.sound, derive_eq hderiver'.sound, hoptions]
  exact h.sameTypes _

/-- The title of a nested schema, a constant beside a choice of schemas and an
    identifier, all of which are passed over. -/
theorem derive_eq_of_retouched_note :
    let note (title : Json) :=
      Json.obj [("type", .str "object"), ("properties", .obj [("title", title)])]
    let title := Json.obj [("type", .str "string"), ("title", .str "The title")]
    let title' := Json.obj [("type", .str "string")]
    let deriver : Deriver := { options := ⟨some 4, true⟩ }
    let schema := Json.obj [("oneOf", .arr [note title]), ("const", .null)]
    let schema' := Json.obj [("$id", .str "note"), ("oneOf", .arr [note title'])]
    (deriver.derive schema).1 = ((deriver.derive schema).2.derive schema').1 := by
  intro note title title' deriver schema schema'
  have htitle : Schema.Retouched .schema title title' := by
    refine .members [("type", .str "string")] [("title", .str "The title")] [] [] ?_
    simp [Schema.Unheeded, Schema.keywords]
  have hnote : Schema.Retouched .schema (.arr [note title]) (.arr [note title']) :=
    .item [] [] (.entry [_] [] (.entry [] [] htitle))
  apply derive_eq_of_retouched (.new _) (.derive (.new _) schema) rfl
  refine .trans (.entry [] [("const", .null)] hnote) (.trans
    (.members [("oneOf", .arr [note title'])] [("const", .null)] [] [] ?_)
    (.members [] [] [("$id", .str "note")] [("oneOf", .arr [note title'])] ?_))
  · simp [Schema.Unheeded, Schema.keywords, Schema.HoldsSchemas, note, Json.isObj]
  · simp [Schema.Unheeded, Schema.keywords]

-- A name among the properties is no keyword, whatever it is.
example :
    let schema (name : String) := Json.obj [("type", .str "object"),
      ("properties", .obj [(name, .obj [("type", .str "string")])])]
    (typeOf (schema "title")).same (typeOf (schema "$id")) = false := by decide +kernel

end Deriver

end SchemaTypes
