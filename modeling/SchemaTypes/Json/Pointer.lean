import SchemaTypes.Json.Basic

namespace SchemaTypes

namespace Json

/-- The position that a step of a pointer names in a list: digits without a
    leading zero. -/
def pointerIndex? (step : String) : Option Nat :=
  match step.toList with
  | [] => none
  | '0' :: _ :: _ => none
  | digits =>
    if digits.all Char.isDigit then
      some (digits.foldl (fun n c => 10 * n + (c.toNat - '0'.toNat)) 0)
    else none

def pointerStep? (value : Json) (step : String) : Option Json :=
  match value with
  | .obj entries => entries.lookup step
  | .arr items => (pointerIndex? step).bind fun i => items[i]?
  | _ => none

/-- The part of a value that a JSON pointer selects. Steps are divided by slashes;
    in a step `~1` stands for a slash, and then `~0` for a tilde. -/
def pointer? (value : Json) (pointer : String) : Option Json :=
  match pointer.splitOn "/" with
  | [""] => some value
  | "" :: steps =>
    steps.foldlM (fun value step => value.pointerStep? ((step.replace "~1" "/").replace "~0" "~"))
      value
  | _ => none

end Json

end SchemaTypes
