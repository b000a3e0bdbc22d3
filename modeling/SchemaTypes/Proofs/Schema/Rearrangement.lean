import SchemaTypes.Proofs.Schema.Similarity

namespace SchemaTypes

namespace Schema

/-- What a value inside a schema stands for: plain data, a list of values or of
    names, a schema or a list of schemas, or the schemas of named properties. -/
inductive Role where
  | data
  | values
  | schema
  | properties

namespace Role

def ofKeyword : String → Role
  | "oneOf" | "allOf" | "items" | "additionalItems" | "additionalProperties" => .schema
  | "enum" | "required" => .values
  | "properties" => .properties
  | _ => .data

def entry : Role → String → Role
  | .schema, keyword => ofKeyword keyword
  | .properties, _ => .schema
  | _, _ => .data

def item : Role → Role
  -- A list in the place of a schema holds schemas.
  | .schema => .schema
  | _ => .data

/-- Whether the items of a list may change places. -/
def unordered : Role → Bool
  | .schema | .values => true
  | _ => false

end Role

/-- One value comes from another by permuting, in any number of places, the
    entries of an object and the items of a list that is not read in order. -/
inductive Rearranged : Role → Json → Json → Prop where
  | refl {role : Role} (x : Json) : Rearranged role x x
  | trans {role : Role} {x y z : Json} (hxy : Rearranged role x y) (hyz : Rearranged role y z) :
    Rearranged role x z
  | entries {role : Role} {xs ys : List (String × Json)} (hperm : xs.Perm ys) :
    Rearranged role (.obj xs) (.obj ys)
  | items {role : Role} {xs ys : List Json} (hrole : role.unordered = true) (hperm : xs.Perm ys) :
    Rearranged role (.arr xs) (.arr ys)
  | entry {role : Role} (front back : List (String × Json)) {name : String} {x y : Json}
      (h : Rearranged (role.entry name) x y) :
    Rearranged role (.obj (front ++ (name, x) :: back)) (.obj (front ++ (name, y) :: back))
  | item {role : Role} (front back : List Json) {x y : Json} (h : Rearranged role.item x y) :
    Rearranged role (.arr (front ++ x :: back)) (.arr (front ++ y :: back))

/-- What rearranging does to a value at its top, however many times it was done. -/
inductive Aligned (role : Role) : Json → Json → Prop where
  | null : Aligned role .null .null
  | bool (value : Bool) : Aligned role (.bool value) (.bool value)
  | num (value : Number) : Aligned role (.num value) (.num value)
  | str (value : String) : Aligned role (.str value) (.str value)
  | arr {xs ys : List Json} (hitems : Shuffled (Rearranged role.item) xs ys)
      (hordered : role.unordered = false → List.Forall₂ (Rearranged role.item) xs ys) :
    Aligned role (.arr xs) (.arr ys)
  | obj {xs ys : List (String × Json)}
      (hentries : Shuffled (fun a b => a.1 = b.1 ∧ Rearranged (role.entry a.1) a.2 b.2) xs ys) :
    Aligned role (.obj xs) (.obj ys)

variable {role : Role} {x y z : Json}

theorem Aligned.refl (role : Role) (x : Json) : Aligned role x x := by
  cases x with
  | null => exact .null
  | bool value => exact .bool value
  | num value => exact .num value
  | str value => exact .str value
  | arr items =>
    have hitems : List.Forall₂ (Rearranged role.item) items items :=
      List.forall₂_same.mpr fun x _ => .refl x
    exact .arr ⟨items, .refl _, hitems⟩ fun _ => hitems
  | obj entries =>
    exact .obj ⟨entries, .refl _, List.forall₂_same.mpr fun entry _ => ⟨rfl, .refl entry.2⟩⟩

/-- Several rearrangements at the top come down to a single one, with the parts
    rearranged in turn. -/
theorem Aligned.trans (hxy : Aligned role x y) (hyz : Aligned role y z) : Aligned role x z := by
  cases hxy with
  | null => exact hyz
  | bool value => exact hyz
  | num value => exact hyz
  | str value => exact hyz
  | arr hitems hordered =>
    cases hyz with
    | arr hitems' hordered' =>
      exact .arr (hitems.trans .trans hitems') fun hrole =>
        forall₂_trans .trans (hordered hrole) (hordered' hrole)
  | obj hentries =>
    cases hyz with
    | obj hentries' =>
      refine .obj (hentries.trans (fun {a b c} hab hbc => ?_) hentries')
      exact ⟨hab.1.trans hbc.1, hab.2.trans (hab.1 ▸ hbc.2)⟩

/-- One element of a list is replaced by a related one, and all the others stay. -/
theorem forall₂_replace {α : Type} {R : α → α → Prop} (hR : ∀ a, R a a) {a b : α} (h : R a b)
    (front back : List α) : List.Forall₂ R (front ++ a :: back) (front ++ b :: back) := by
  have hsame (as : List α) : List.Forall₂ R as as := List.forall₂_same.mpr fun a _ => hR a
  exact List.rel_append (hsame front) (.cons h (hsame back))

/-- However often a value was rearranged, at its top it was done once. The induction is on
    the steps, each of which changes the order at the top or a single part. -/
theorem Rearranged.aligned (h : Rearranged role x y) : Aligned role x y := by
  induction h with
  | refl x => exact .refl _ x
  | trans _ _ ihxy ihyz => exact ihxy.trans ihyz
  | @entries role xs ys hperm =>
    exact .obj ⟨ys, hperm, List.forall₂_same.mpr fun entry _ => ⟨rfl, .refl entry.2⟩⟩
  | @items role xs ys hrole hperm =>
    -- Only lists that are not read in order are permuted.
    refine .arr ⟨ys, hperm, List.forall₂_same.mpr fun x _ => .refl x⟩ fun hordered => ?_
    rw [hrole] at hordered
    cases hordered
  | entry front back h =>
    exact .obj ⟨_, .refl _, forall₂_replace (fun entry => ⟨rfl, .refl entry.2⟩) ⟨rfl, h⟩ front back⟩
  | item front back h =>
    have hitems := forall₂_replace Rearranged.refl h front back
    exact .arr ⟨_, .refl _, hitems⟩ fun _ => hitems

/-- Rearranging repeats no name. -/
theorem Rearranged.namesDistinct (h : Rearranged role x y) (hx : x.NamesDistinct) :
    y.NamesDistinct := by
  induction h with
  | refl x => exact hx
  | trans _ _ ihxy ihyz => exact ihyz (ihxy hx)
  | entries hperm =>
    rw [Json.namesDistinct_obj] at hx ⊢
    obtain ⟨hnames, hentries⟩ := hx
    exact ⟨(hperm.map _).nodup_iff.mp hnames, fun entry hentry =>
      hentries entry (hperm.mem_iff.mpr hentry)⟩
  | items _ hperm => exact .arr fun item hitem => hx.item (hperm.mem_iff.mpr hitem)
  | entry front back h ih =>
    simp only [Json.namesDistinct_obj, Entries.names, List.map_append, List.map_cons,
      List.forall_mem_append, List.forall_mem_cons] at hx ⊢
    obtain ⟨hnames, hfront, hx, hback⟩ := hx
    exact ⟨hnames, hfront, ih hx, hback⟩
  | item front back h ih =>
    simp only [Json.namesDistinct_arr, List.forall_mem_append, List.forall_mem_cons] at hx ⊢
    obtain ⟨hfront, hx, hback⟩ := hx
    exact ⟨hfront, ih hx, hback⟩

/-- What is found under a name is rearranged as its role allows, wherever the
    entry has moved. -/
theorem Rearranged.lookup {xs ys : List (String × Json)} (h : Rearranged role (.obj xs) (.obj ys))
    (hnames : (Entries.names xs).Nodup) (name : String) :
    Option.Rel (Rearranged (role.entry name)) (xs.lookup name) (ys.lookup name) := by
  cases h.aligned with
  | obj hentries =>
    exact hentries.lookup (R := fun name => Rearranged (role.entry name)) hnames name

/-- Rearranged data is the same value. Only entries of objects change places in
    data, since the order of its lists counts. -/
theorem Rearranged.sameValue (h : Rearranged .data x y) (hx : x.NamesDistinct) :
    x.sameValue y = true := by
  induction x generalizing y with
  | null => cases h.aligned with | null => exact Json.sameValue_refl hx
  | bool value => cases h.aligned with | bool => exact Json.sameValue_refl hx
  | num value => cases h.aligned with | num => exact Json.sameValue_refl hx
  | str value => cases h.aligned with | str => exact Json.sameValue_refl hx
  | arr items ih =>
    cases h.aligned with
    | arr _ hordered =>
      have hitems := hordered rfl
      refine Json.sameValue_arr.mpr ⟨hitems.length_eq, fun i item other hitem hother => ?_⟩
      obtain ⟨hi, rfl⟩ := List.getElem?_eq_some_iff.mp hitem
      obtain ⟨hi', rfl⟩ := List.getElem?_eq_some_iff.mp hother
      have hmem := List.getElem_mem hi
      exact ih _ hmem (hitems.get hi hi') (hx.item hmem)
  | obj entries ih =>
    cases h.aligned with
    | obj hentries =>
      refine Json.sameValue_obj.mpr ⟨hentries.length_eq, fun entry hentry => ?_⟩
      have hvalue := (Entries.lookup_eq_some_iff hx.names).mpr hentry
      obtain ⟨hnone, _⟩ | ⟨value, other, hsome, hother, h⟩ := rel_cases (h.lookup hx.names entry.1)
      · rw [hnone] at hvalue
        cases hvalue
      · rw [hsome] at hvalue
        cases hvalue
        exact ⟨other, hother, ih entry hentry h (hx.entry hentry)⟩

section Keywords

variable {slot slot' : Option Json}

/-- Rearranging keeps the kind of a value. -/
theorem Rearranged.isObj_eq (h : Rearranged role x y) : x.isObj = y.isObj := by
  cases h.aligned <;> rfl

theorem Rearranged.str?_eq (h : Rearranged role x y) : x.str? = y.str? := by
  cases h.aligned <;> rfl

/-- Rearranged lists of schemas are read as lists with the same schemas, rearranged in turn,
    in another order. What is no list of schemas remains none. -/
theorem rel_objectList? (h : Option.Rel (Rearranged .schema) slot slot') :
    Option.Rel (Shuffled (Rearranged .schema)) (objectList? slot) (objectList? slot') := by
  cases h with
  | none => exact .none
  | some h =>
    cases h.aligned with
    | arr hitems _ =>
      rw [objectList?, objectList?, hitems.all_eq Rearranged.isObj_eq]
      split
      · exact .some hitems
      · exact .none
    | _ => exact .none

/-- Items stay a single schema or a list of them. In the list they may change
    places, since an item may belong to any of the types. -/
theorem rel_items? (h : Option.Rel (Rearranged .schema) slot slot') :
    Option.Rel (Items.Similar (Rearranged .schema)) (items? slot) (items? slot') := by
  cases h with
  | none => exact .some .absent
  | some h =>
    cases h.aligned with
    | arr _ _ =>
      rw [items?, items?]
      obtain ⟨hx, hy⟩ | ⟨schemas, schemas', hx, hy, hschemas⟩ :=
        rel_cases (rel_objectList? (.some h))
      · rw [hx, hy]
        exact .none
      · rw [hx, hy]
        exact .some (.positional hschemas)
    | obj _ => exact .some (.single h)
    | _ => exact .none

theorem rel_additional? (h : Option.Rel (Rearranged .schema) slot slot') :
    Option.Rel (Additional.Similar (Rearranged .schema)) (additional? slot)
      (additional? slot') := by
  cases h with
  | none => exact .some .absent
  | some h =>
    cases h.aligned with
    | bool value =>
      cases value with
      | false => exact .some .deny
      | true => exact .some .allow
    | obj _ => exact .some (.constrain h)
    | _ => exact .none

/-- Properties are looked up by name, so that their order is of no concern. Names
    have to be distinct, or else another entry would be found first. -/
theorem rel_properties? (h : Option.Rel (Rearranged .properties) slot slot')
    (hslot : ∀ x ∈ slot, x.NamesDistinct) :
    Option.Rel
      (fun properties properties' => ∀ name, Option.Rel (Rearranged .schema)
        ((properties.getD []).lookup name) ((properties'.getD []).lookup name))
      (properties? slot) (properties? slot') := by
  cases h with
  | none => exact .some fun _ => .none
  | some h =>
    have hx := hslot _ rfl
    cases h.aligned with
    | obj hentries =>
      rw [properties?, properties?, hentries.all_eq fun hab => hab.2.isObj_eq]
      split
      · exact .some (h.lookup hx.names)
      · exact .none
    | _ => exact .none

/-- The names that a list holds, each where it occurs first, if it holds nothing
    but names. -/
theorem nameList?_eq (items : List Json) :
    nameList? items =
      if items.all (·.str?.isSome) then some (firstOccurrences (items.filterMap Json.str?))
      else none := by
  have hmapM : items.mapM Json.str? =
      if items.all (·.str?.isSome) then some (items.filterMap Json.str?) else none := by
    induction items with
    | nil => rfl
    | cons item items ih =>
      rw [List.mapM_cons, ih, List.all_cons, List.filterMap_cons]
      cases item.str? with
      | none => rfl
      | some name =>
        rw [Option.isSome_some, Bool.true_and]
        split <;> rfl
  rw [nameList?, hmapM]
  split <;> rfl

/-- The same names are required. -/
theorem rel_required? (h : Option.Rel (Rearranged .values) slot slot') :
    Option.Rel (fun required required' => ∀ name, name ∈ required ↔ name ∈ required')
      (required? slot) (required? slot') := by
  cases h with
  | none => exact .some fun _ => .rfl
  | some h =>
    cases h.aligned with
    | arr hitems _ =>
      rw [required?, required?, nameList?_eq, nameList?_eq,
        hitems.all_eq fun hxy => congrArg Option.isSome hxy.str?_eq]
      split
      · refine .some fun name => ?_
        obtain ⟨hleft, hright⟩ := hitems.cover
        rw [mem_firstOccurrences, mem_firstOccurrences, List.mem_filterMap, List.mem_filterMap]
        constructor
        · rintro ⟨x, hx, hname⟩
          obtain ⟨y, hy, hxy⟩ := hleft x hx
          exact ⟨y, hy, hxy.str?_eq ▸ hname⟩
        · rintro ⟨y, hy, hname⟩
          obtain ⟨x, hx, hxy⟩ := hright y hy
          exact ⟨x, hx, hxy.str?_eq ▸ hname⟩
      · exact .none
    | _ => exact .none

end Keywords

section Classify

variable {xs ys : List (String × Json)} (h : Rearranged .schema (.obj xs) (.obj ys))
  (hxs : (Json.obj xs).NamesDistinct)

include h hxs

/-- The keywords that a schema of lists reads give shapes that differ in order
    only. The lemmas for the other shapes go keyword by keyword as well. -/
theorem similar_arrayShape : (arrayShape xs).Similar (Rearranged .schema) (arrayShape ys) := by
  unfold arrayShape
  obtain ⟨hx, hy⟩ | ⟨items, items', hx, hy, hitems⟩ :=
    rel_cases (rel_items? (h.lookup hxs.names "items"))
  · rw [hx, hy]
    exact .unrecognized
  rw [hx, hy]
  obtain ⟨hx, hy⟩ | ⟨additional, additional', hx, hy, hadditional⟩ :=
    rel_cases (rel_additional? (h.lookup hxs.names "additionalItems"))
  · rw [hx, hy]
    exact .unrecognized
  rw [hx, hy]
  exact .array hitems hadditional

theorem similar_objectShape : (objectShape xs).Similar (Rearranged .schema) (objectShape ys) := by
  have hnested : ∀ x ∈ xs.lookup "properties", x.NamesDistinct := fun x hx =>
    hxs.of_below (below_of_lookup hx)
  unfold objectShape
  obtain ⟨hx, hy⟩ | ⟨properties, properties', hx, hy, hproperties⟩ :=
    rel_cases (rel_properties? (h.lookup hxs.names "properties") hnested)
  · rw [hx, hy]
    exact .unrecognized
  rw [hx, hy]
  obtain ⟨hx, hy⟩ | ⟨required, required', hx, hy, hrequired⟩ :=
    rel_cases (rel_required? (h.lookup hxs.names "required"))
  · rw [hx, hy]
    exact .unrecognized
  rw [hx, hy]
  obtain ⟨hx, hy⟩ | ⟨additional, additional', hx, hy, hadditional⟩ :=
    rel_cases (rel_additional? (h.lookup hxs.names "additionalProperties"))
  · rw [hx, hy]
    exact .unrecognized
  rw [hx, hy]
  exact .object hproperties hrequired hadditional

theorem similar_typeShape :
    (typeShape xs (xs.lookup "type")).Similar (Rearranged .schema)
      (typeShape ys (ys.lookup "type")) := by
  obtain ⟨hx, hy⟩ | ⟨type, type', hx, hy, htype⟩ := rel_cases (h.lookup hxs.names "type")
  · rw [hx, hy]
    exact .unrecognized
  rw [hx, hy]
  cases htype.aligned with
  | str value =>
    unfold typeShape
    split
    · exact .null
    · exact .number
    · exact .integer
    · exact .string
    · exact .boolean
    · exact similar_arrayShape h hxs
    · exact similar_objectShape h hxs
    · exact .unrecognized
  | _ => exact .unrecognized

theorem similar_enumShape : (enumShape xs).Similar (Rearranged .schema) (enumShape ys) := by
  unfold enumShape
  obtain ⟨hx, hy⟩ | ⟨enum, enum', hx, hy, henum⟩ := rel_cases (h.lookup hxs.names "enum")
  · rw [hx, hy]
    exact similar_typeShape h hxs
  have hnames := hxs.of_below (below_of_lookup hx)
  rw [hx, hy]
  cases henum.aligned with
  | arr hvalues _ =>
    exact .enum (hvalues.imp fun value hvalue _ _ h => h.sameValue (hnames.item hvalue))
  | _ => exact similar_typeShape h hxs

theorem similar_constShape : (constShape xs).Similar (Rearranged .schema) (constShape ys) := by
  unfold constShape
  obtain ⟨hx, hy⟩ | ⟨value, value', hx, hy, hvalue⟩ := rel_cases (h.lookup hxs.names "const")
  · rw [hx, hy]
    exact similar_enumShape h hxs
  have hnames := hxs.of_below (below_of_lookup hx)
  rw [hx, hy]
  exact .const (hvalue.sameValue hnames)

theorem similar_allOfShape : (allOfShape xs).Similar (Rearranged .schema) (allOfShape ys) := by
  unfold allOfShape
  obtain ⟨hx, hy⟩ | ⟨schemas, schemas', hx, hy, hschemas⟩ :=
    rel_cases (rel_objectList? (h.lookup hxs.names "allOf"))
  · rw [hx, hy]
    exact similar_constShape h hxs
  rw [hx, hy]
  exact .allOf hschemas

theorem similar_oneOfShape : (oneOfShape xs).Similar (Rearranged .schema) (oneOfShape ys) := by
  unfold oneOfShape
  obtain ⟨hx, hy⟩ | ⟨schemas, schemas', hx, hy, hschemas⟩ :=
    rel_cases (rel_objectList? (h.lookup hxs.names "oneOf"))
  · rw [hx, hy]
    exact similar_allOfShape h hxs
  rw [hx, hy]
  exact .oneOf hschemas

end Classify

/-- Rearranged schemas have shapes that differ in order only. Which of the shapes is chosen
    depends on the keywords that are there, and those are the same on both sides. -/
theorem similar_classify (h : Rearranged .schema x y) (hx : x.NamesDistinct) :
    (classify x).Similar (Rearranged .schema) (classify y) := by
  cases h.aligned with
  | obj _ => exact similar_oneOfShape h hx
  | _ => exact .unrecognized

end Schema

end SchemaTypes
