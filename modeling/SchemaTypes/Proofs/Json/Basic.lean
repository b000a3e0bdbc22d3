import SchemaTypes.Json.Reader
import SchemaTypes.Proofs.Entries

namespace SchemaTypes

/-- The six kinds of JSON values. -/
inductive Kind where
  | null
  | boolean
  | number
  | string
  | array
  | object
deriving DecidableEq

namespace Json

def kind : Json → Kind
  | .null => .null
  | .bool _ => .boolean
  | .num _ => .number
  | .str _ => .string
  | .arr _ => .array
  | .obj _ => .object

/-- Induction over a value and all values inside it. The cases for lists and objects know
    the statement for every item and every entry, wherever it stands. -/
@[elab_as_elim, induction_eliminator]
theorem nestedInduction {motive : Json → Prop} (null : motive .null)
    (bool : ∀ value, motive (.bool value)) (num : ∀ value, motive (.num value))
    (str : ∀ value, motive (.str value))
    (arr : ∀ items, (∀ x ∈ items, motive x) → motive (.arr items))
    (obj : ∀ entries, (∀ entry ∈ entries, motive entry.2) → motive (.obj entries)) :
    ∀ value, motive value
  | .null => null
  | .bool value => bool value
  | .num value => num value
  | .str value => str value
  | .arr items => arr items fun x _ => nestedInduction null bool num str arr obj x
  | .obj entries => obj entries fun entry _ => nestedInduction null bool num str arr obj entry.2
termination_by value => sizeOf value
decreasing_by
  · have := List.sizeOf_lt_of_mem (by assumption)
    simp only [Json.arr.sizeOf_spec]
    omega
  · rename_i hentry
    have := List.sizeOf_lt_of_mem hentry
    obtain ⟨name, value⟩ := entry
    simp only [Json.obj.sizeOf_spec, Prod.mk.sizeOf_spec] at this ⊢
    omega

/-- No object in the value has two entries of one name. -/
inductive NamesDistinct : Json → Prop where
  | null : NamesDistinct .null
  | bool (value : Bool) : NamesDistinct (.bool value)
  | num (value : Number) : NamesDistinct (.num value)
  | str (value : String) : NamesDistinct (.str value)
  | arr {items : List Json} (hitems : ∀ x ∈ items, NamesDistinct x) : NamesDistinct (.arr items)
  | obj {entries : List (String × Json)} (hnames : (Entries.names entries).Nodup)
      (hentries : ∀ entry ∈ entries, NamesDistinct entry.2) : NamesDistinct (.obj entries)

theorem NamesDistinct.item {items : List Json} {x : Json} (h : (Json.arr items).NamesDistinct)
    (hx : x ∈ items) : x.NamesDistinct := by
  cases h with
  | arr hitems => exact hitems x hx

theorem NamesDistinct.names {entries : List (String × Json)}
    (h : (Json.obj entries).NamesDistinct) : (Entries.names entries).Nodup := by
  cases h with
  | obj hnames _ => exact hnames

theorem NamesDistinct.entry {entries : List (String × Json)} {entry : String × Json}
    (h : (Json.obj entries).NamesDistinct) (hentry : entry ∈ entries) : entry.2.NamesDistinct := by
  cases h with
  | obj _ hentries => exact hentries entry hentry

attribute [simp] NamesDistinct.null NamesDistinct.bool NamesDistinct.num NamesDistinct.str

@[simp]
theorem namesDistinct_arr {items : List Json} :
    (Json.arr items).NamesDistinct ↔ ∀ x ∈ items, x.NamesDistinct :=
  ⟨fun h _ hx => h.item hx, .arr⟩

/-- An object without repeated names, by its own names and by its entries. Proofs
    of concrete values go through this and the lemma on lists. -/
@[simp]
theorem namesDistinct_obj {entries : List (String × Json)} :
    (Json.obj entries).NamesDistinct ↔
      (Entries.names entries).Nodup ∧ ∀ entry ∈ entries, entry.2.NamesDistinct :=
  ⟨fun h => ⟨h.names, fun _ hentry => h.entry hentry⟩, fun ⟨hnames, hentries⟩ => .obj hnames hentries⟩

theorem lastWinsItems_eq_map (items : List Json) : lastWinsItems items = items.map lastWins := by
  induction items with
  | nil => rfl
  | cons x xs ih => rw [lastWinsItems, ih, List.map_cons]

theorem lastWinsEntries_eq_map (entries : List (String × Json)) :
    lastWinsEntries entries = entries.map fun entry => (entry.1, entry.2.lastWins) := by
  induction entries with
  | nil => rfl
  | cons entry entries ih => rw [lastWinsEntries, ih, List.map_cons]

/-- Whatever was read, the value that is kept has no repeated names: in every
    object the entries have been put together name by name. -/
theorem namesDistinct_lastWins (value : Json) : value.lastWins.NamesDistinct := by
  induction value with
  | null => exact .null
  | bool value => exact .bool value
  | num value => exact .num value
  | str value => exact .str value
  | arr items ih =>
    rw [lastWins, lastWinsItems_eq_map]
    refine .arr fun x hx => ?_
    obtain ⟨item, hitem, rfl⟩ := List.mem_map.mp hx
    exact ih item hitem
  | obj entries ih =>
    rw [lastWins, lastWinsEntries_eq_map]
    obtain ⟨hnames, hmem⟩ := Entries.ofList_spec (entries.map fun entry => (entry.1, entry.2.lastWins))
    refine .obj hnames fun entry hentry => ?_
    obtain ⟨source, hsource, rfl⟩ := List.mem_map.mp (hmem hentry)
    exact ih source hsource

end Json

end SchemaTypes
