namespace SchemaTypes

/-- Named values in order. Names are meant to be distinct: `insert` keeps them so,
    and `List.lookup` finds the value of a name. -/
abbrev Entries (α : Type) := List (String × α)

namespace Entries

variable {α : Type}

/-- Gives `name` a value: in its old place if it has one, else behind all other names. -/
def insert (name : String) (value : α) : Entries α → Entries α
  | [] => [(name, value)]
  | (key, old) :: rest =>
    if key = name then (key, value) :: rest else (key, old) :: insert name value rest

/-- Inserts the entries in turn, so that a repeated name keeps its first place and
    takes its last value. -/
def ofList (entries : List (String × α)) : Entries α :=
  entries.foldl (fun acc entry => insert entry.1 entry.2 acc) []

def names (entries : Entries α) : List String := entries.map (·.1)

def has (entries : Entries α) (name : String) : Bool := entries.any (·.1 == name)

/-- Looking a name up makes no entry up. The converse needs distinct names, since
    only the first entry of a name is found. -/
theorem mem_of_lookup {entries : Entries α} {name : String} {value : α}
    (h : entries.lookup name = some value) : (name, value) ∈ entries := by
  obtain ⟨front, back, rfl, _⟩ := List.lookup_eq_some_iff.mp h
  simp

end Entries

/-- The elements of a list, each only where it stands first. -/
def firstOccurrences {α : Type} [BEq α] (xs : List α) : List α :=
  xs.foldl (fun seen x => if seen.contains x then seen else seen ++ [x]) []

/-- A list without the repetitions of its elements has none left. -/
theorem nodup_firstOccurrences {α : Type} [BEq α] [LawfulBEq α] (xs : List α) :
    (firstOccurrences xs).Nodup := by
  suffices h : ∀ seen : List α, seen.Nodup →
      (xs.foldl (fun seen x => if seen.contains x then seen else seen ++ [x]) seen).Nodup from
    h [] List.nodup_nil
  induction xs with
  | nil => exact fun seen hseen => hseen
  | cons x xs ih =>
    intro seen hseen
    rw [List.foldl_cons]
    apply ih
    split
    · exact hseen
    next hnew =>
      rw [List.contains_iff_mem] at hnew
      refine List.nodup_append.mpr ⟨hseen, by simp, ?_⟩
      rintro y hy z hz rfl
      exact hnew (List.mem_singleton.mp hz ▸ hy)

end SchemaTypes
