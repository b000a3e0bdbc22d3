import SchemaTypes.Entries
import SchemaTypes.Number.Basic

namespace SchemaTypes

/-- A JSON value. The entries of an object keep their order, which is seen
    wherever the value or a type derived from it is printed. -/
inductive Json where
  | null
  | bool (value : Bool)
  | num (value : Number)
  | str (value : String)
  | arr (items : List Json)
  | obj (entries : List (String × Json))

namespace Json

instance : Inhabited Json := ⟨.null⟩

def isObj : Json → Bool
  | .obj _ => true
  | _ => false

/-- A value stands inside another, in a list or under a name. -/
inductive Below : Json → Json → Prop where
  | item {x : Json} {items : List Json} (h : x ∈ items) : Below x (.arr items)
  | entry {name : String} {x : Json} {entries : List (String × Json)} (h : (name, x) ∈ entries) :
    Below x (.obj entries)
  | trans {x y z : Json} (hxy : Below x y) (hyz : Below y z) : Below x z

/-- A value inside another is smaller, which is what recursion over schemas is
    justified by. -/
theorem Below.sizeOf_lt {x y : Json} (h : x.Below y) : sizeOf x < sizeOf y := by
  induction h with
  | item h =>
    have := List.sizeOf_lt_of_mem h
    simp only [Json.arr.sizeOf_spec]
    omega
  | entry h =>
    have := List.sizeOf_lt_of_mem h
    simp only [Prod.mk.sizeOf_spec, Json.obj.sizeOf_spec] at this ⊢
    omega
  | trans _ _ hxy hyz => exact Nat.lt_trans hxy hyz

/-- The value of an object's entry. -/
def field? (name : String) : Json → Option Json
  | .obj entries => entries.lookup name
  | _ => none

def str? : Json → Option String
  | .str s => some s
  | _ => none

section Comparison

variable (sameNumber : Number → Number → Bool)

mutual

/-- Equality of values under a given equality of numbers, whatever the order of
    the entries of objects. -/
def sameBy : Json → Json → Bool
  | .null, .null => true
  | .bool a, .bool b => a == b
  | .num a, .num b => sameNumber a b
  | .str a, .str b => a == b
  | .arr xs, .arr ys => sameItemsBy xs ys
  | .obj xs, .obj ys => xs.length == ys.length && sameEntriesBy xs ys
  | _, _ => false

def sameItemsBy : List Json → List Json → Bool
  | [], [] => true
  | x :: xs, y :: ys => x.sameBy y && sameItemsBy xs ys
  | _, _ => false

/-- Every entry of the first list has an equal one of the same name in the second. -/
def sameEntriesBy : List (String × Json) → List (String × Json) → Bool
  | [], _ => true
  | (name, x) :: xs, ys =>
    (match ys.lookup name with
      | some y => x.sameBy y
      | none => false) && sameEntriesBy xs ys

end

end Comparison

/-- Equality of literal values: numbers are equal by value, so that `1` and `1.0` are. -/
def sameValue (a b : Json) : Bool := a.sameBy Number.sameValue b

mutual

/-- The value in which a repeated name of an object keeps its first place and
    takes its last value. -/
def lastWins : Json → Json
  | .arr items => .arr (lastWinsItems items)
  | .obj entries => .obj (Entries.ofList (lastWinsEntries entries))
  | value => value

def lastWinsItems : List Json → List Json
  | [] => []
  | x :: xs => x.lastWins :: lastWinsItems xs

def lastWinsEntries : List (String × Json) → List (String × Json)
  | [] => []
  | (name, x) :: xs => (name, x.lastWins) :: lastWinsEntries xs

end

end Json

end SchemaTypes
