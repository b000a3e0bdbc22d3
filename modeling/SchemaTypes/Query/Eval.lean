import SchemaTypes.Json.Basic
import SchemaTypes.Query.Syntax

namespace SchemaTypes

/-- Why a filter fails on an input. -/
inductive Fault where
  | notIndexable (value key : Json)
  | notSliceable (value : Json)
  | notIterable (value : Json)
  | noKeys (value : Json)
  | noLength (value : Json)
  | badKey (key : Json)
  | badBound (bound : Json)
  | unfit (values : List Json)
  | undefined (name : String)
  | outOfRange
  | raised (value : Json)

/-- The outputs of a filter in order. A failure stands among the outputs, since
    what comes after it may still be asked for. -/
abbrev Outputs := List (Except Fault Json)

namespace Query

def truthy : Json → Bool
  | .null | .bool false => false
  | _ => true

/-- Runs a filter on each output of another. Failures stay where they are. -/
def thenEach (outputs : Outputs) (next : Json → Outputs) : Outputs :=
  outputs.flatMap fun
    | .ok value => next value
    | .error fault => [.error fault]

/-- Applies an operation to each output of the first filter with each one of the second. -/
def combine (operation : Json → Json → Except Fault Json) (firsts seconds : Outputs) : Outputs :=
  firsts.flatMap fun first => seconds.map fun second => do operation (← first) (← second)

def dropFaults (optional : Bool) (outputs : Outputs) : Outputs :=
  if optional then outputs.filter fun output => output.toBool else outputs

def fitsWord (n : Int) : Bool :=
  let bound : Nat := 1 <<< 63
  n < bound && -(bound : Int) ≤ n

/-- The result of an operation on doubles. One that is not finite has no literal
    and is `null`. -/
def ofDouble? : Option Double → Json
  | some x => .num (.float x)
  | none => .null

/-- The sum of two numbers. It is an integer if both are and it fits a signed word. -/
def addNumbers (a b : Number) : Json :=
  match a, b with
  | .int x, .int y =>
    if fitsWord x && fitsWord y && fitsWord (x + y) then .num (.int (x + y))
    else sum
  | _, _ => sum
where
  sum : Json := ofDouble? do (← a.toDouble?).add? (← b.toDouble?)

def negateNumber : Number → Option Number
  | .int n => if fitsWord n && fitsWord (-n) then some (.int (-n))
    else (Number.toDouble? (.int n)).map fun x => .float x.neg
  | .float x => some (.float x.neg)

def addValues : Json → Json → Except Fault Json
  | .null, b => .ok b
  | a, .null => .ok a
  | .num a, .num b => .ok (addNumbers a b)
  | .str a, .str b => .ok (.str (a ++ b))
  | .arr a, .arr b => .ok (.arr (a ++ b))
  | .obj a, .obj b => .ok (.obj (Entries.ofList (a ++ b)))
  | a, b => .error (.unfit [a, b])

/-- Integers are compared exactly, and other numbers as doubles. -/
def sameNumber : Number → Number → Bool
  | .int a, .int b => if fitsWord a && fitsWord b then a == b else Number.sameValue (.int a) (.int b)
  | a, b => a.sameValue b

def sameValues (a b : Json) : Bool := a.sameBy sameNumber b

def subtractValues : Json → Json → Except Fault Json
  | .num a, .num b =>
    match negateNumber b with
    | some b => .ok (addNumbers a b)
    | none => .ok .null
  | .arr a, .arr b => .ok (.arr (a.filter fun x => !b.any (sameValues x)))
  | a, b => .error (.unfit [a, b])

def negateValue : Json → Except Fault Json
  | .num n => .ok (((negateNumber n).map .num).getD .null)
  | value => .error (.unfit [value])

/-- A position counted from the end if it is negative. -/
def position? (n : Int) (length : Nat) : Option Nat :=
  if 0 ≤ n then some n.toNat
  else if n.natAbs ≤ length then some (length - n.natAbs)
  else none

/-- The part of a value under a key. A position or name that is not there gives `null`. -/
def indexValue : Json → Json → Except Fault Json
  | .arr items, .num (.int n) =>
    .ok (((position? n items.length).bind fun i => items[i]?).getD .null)
  | .obj entries, .str name => .ok ((entries.lookup name).getD .null)
  | value, key => .error (.notIndexable value key)

/-- A bound of a slice, moved into the range of positions. -/
def bound (default length : Nat) : Option Json → Except Fault Nat
  | none => .ok default
  | some (.num (.int n)) => .ok (min ((position? n length).getD 0) length)
  | some value => .error (.badBound value)

def sliceValue (value : Json) (first last : Option Json) : Except Fault Json :=
  match value with
  | .arr items => do
    let first ← bound 0 items.length first
    let last ← bound items.length items.length last
    .ok (.arr ((items.take last).drop first))
  | .str s => do
    let first ← bound 0 s.length first
    let last ← bound s.length s.length last
    .ok (.str (String.ofList ((s.toList.take last).drop first)))
  | value => .error (.notSliceable value)

def eachValue : Json → Outputs
  | .arr items => items.map .ok
  | .obj entries => entries.map fun entry => .ok entry.2
  | value => [.error (.notIterable value)]

def lengthValue : Json → Except Fault Json
  | .null => .ok (.num (.int 0))
  | .num (.int n) =>
    if fitsWord n then .ok (.num (.int n.natAbs)) else .ok (ofDouble? (Number.toDouble? (.int n)))
  | .num (.float x) => .ok (.num (.float x.abs))
  | .str s => .ok (.num (.int s.length))
  | .arr items => .ok (.num (.int items.length))
  | .obj entries => .ok (.num (.int entries.length))
  | value => .error (.noLength value)

def positions (items : List Json) : List Json :=
  (List.range items.length).map fun (i : Nat) => .num (.int i)

/-- The names of an object in the order of their code points, or the positions of a list. -/
def keysValue : Json → Except Fault Json
  | .arr items => .ok (.arr (positions items))
  | .obj entries =>
    .ok (.arr (((Entries.names entries).mergeSort fun a b => !decide (b < a)).map .str))
  | value => .error (.noKeys value)

def entryValue (key value : Json) : Json := .obj [("key", key), ("value", value)]

def entriesValue : Json → Except Fault Json
  | .arr items => .ok (.arr (List.zipWith entryValue (positions items) items))
  | .obj entries => .ok (.arr (entries.map fun entry => entryValue (.str entry.1) entry.2))
  | value => .error (.noKeys value)

def hasValue : Json → Json → Except Fault Json
  | .arr items, .num (.int n) =>
    if 0 ≤ n then .ok (.bool (n.toNat < items.length))
    else .error (.notIndexable (.arr items) (.num (.int n)))
  | .obj entries, .str name => .ok (.bool (Entries.has entries name))
  | value, key => .error (.notIndexable value key)

/-- The list of all outputs, or the first failure among them. -/
def collect (outputs : Outputs) : Except Fault Json := do
  return .arr (← outputs.mapM id)

/-- The filters without arguments. -/
def callPlain (name : String) (input : Json) : Outputs :=
  match name with
  | "null" => [.ok .null]
  | "true" => [.ok (.bool true)]
  | "false" => [.ok (.bool false)]
  | "empty" => []
  | "not" => [.ok (.bool (!truthy input))]
  | "length" => [lengthValue input]
  | "keys" => [keysValue input]
  | "to_entries" => [entriesValue input]
  | "error" => [.error (.raised input)]
  | name => [.error (.undefined name)]

/-- The filters with one argument. -/
def callWith (name : String) (arg : Json → Outputs) (input : Json) : Outputs :=
  match name with
  | "select" => thenEach (arg input) fun value => if truthy value then [.ok input] else []
  | "has" => thenEach (arg input) fun key => [hasValue input key]
  | "map" => [collect (thenEach (eachValue input) arg)]
  | "error" => thenEach (arg input) fun value => [.error (.raised value)]
  | name => [.error (.undefined name)]

/-- The outputs of the first filter that are neither `null` nor `false`, or those
    of the second if there are none. -/
def firstOr (firsts seconds : Outputs) : Outputs :=
  match firsts.filter fun
    | .ok value => truthy value
    | .error _ => true with
  | [] => seconds
  | outputs => outputs

def entryOf (key value : Json) : Except Fault Json :=
  match key with
  | .str name => .ok (.obj [(name, value)])
  | key => .error (.badKey key)

mutual

/-- The outputs of a filter on an input. -/
def eval : Query → Json → Outputs
  | .identity, input => [.ok input]
  | .number literal, _ =>
    match literal.toNumber? with
    | some n => [.ok (.num n)]
    | none => [.error .outOfRange]
  | .text value, _ => [.ok (.str value)]
  | .variable name, _ => [.error (.undefined name)]
  | .call name args, input => evalCall name args input
  | .negate operand, input => (operand.eval input).map fun output => output >>= negateValue
  | .attempt body, input => dropFaults true (body.eval input)
  | .list none, _ => [.ok (.arr [])]
  | .list (some body), input => [collect (body.eval input)]
  | .object entries, input => evalEntries [.ok (.obj [])] entries input
  | .index base key optional, input =>
    let keys := key.eval input
    thenEach (base.eval input) fun value =>
      thenEach keys fun key => dropFaults optional [indexValue value key]
  | .slice base first last optional, input =>
    let firsts := evalBound first input
    let lasts := evalBound last input
    thenEach (base.eval input) fun value =>
      firsts.flatMap fun first => lasts.flatMap fun last =>
        match first, last with
        | .ok first, .ok last => dropFaults optional [sliceValue value first last]
        | .error fault, _ => [.error fault]
        | _, .error fault => [.error fault]
  | .each base optional, input =>
    thenEach (base.eval input) fun value => dropFaults optional (eachValue value)
  | .ifElse condition yes no, input =>
    thenEach (condition.eval input) fun value =>
      if truthy value then yes.eval input else no.eval input
  | .pipe first second, input => thenEach (first.eval input) fun value => second.eval value
  | .comma first second, input => first.eval input ++ second.eval input
  | .orElse first second, input => firstOr (first.eval input) (second.eval input)
  | .equal left right, input =>
    combine (fun a b => .ok (.bool (sameValues a b))) (left.eval input) (right.eval input)
  | .add left right, input => combine addValues (left.eval input) (right.eval input)
  | .subtract left right, input => combine subtractValues (left.eval input) (right.eval input)

def evalCall (name : String) : List Query → Json → Outputs
  | [], input => callPlain name input
  | [arg], input => callWith name (fun value => arg.eval value) input
  | _, _ => [.error (.undefined name)]

/-- Adds entries to each of the objects in turn. -/
def evalEntries (objects : Outputs) : List (Query × Query) → Json → Outputs
  | [], _ => objects
  | (key, value) :: rest, input =>
    let entries := combine entryOf (key.eval input) (value.eval input)
    evalEntries (combine addValues objects entries) rest input

/-- The values of a bound that may be missing. -/
def evalBound : Option Query → Json → List (Except Fault (Option Json))
  | none, _ => [.ok none]
  | some query, input => (query.eval input).map fun output => output.map some

end

end Query

end SchemaTypes
