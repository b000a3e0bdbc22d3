import SchemaTypes.Number.Basic

namespace SchemaTypes

/-- A number as it is written: a sign, the digits before and behind the point, and
    an exponent. A number without point and exponent is an integer literal. -/
structure NumberLiteral where
  negative : Bool
  whole : List Char
  fraction : Option (List Char)
  exponent : Option (Bool × List Char)
deriving DecidableEq

namespace NumberLiteral

def digitValue (c : Char) : Nat := c.toNat - '0'.toNat

/-- The value of a text of decimal digits. -/
def digitsValue (digits : List Char) : Nat :=
  digits.foldl (fun n c => 10 * n + digitValue c) 0

/-- Appends digits to a number as long as it stays below `2 ^ 64`, and gives back
    those that are left. -/
def significand (value : Nat) : List Char → Nat × List Char
  | [] => (value, [])
  | c :: rest =>
    let next := 10 * value + digitValue c
    if next < 1 <<< 64 then significand next rest else (value, c :: rest)

/-- The greatest power of ten that is a finite double. -/
def greatestPower : Nat := 308

/-- The double nearest to a power of ten, as a fraction. -/
def powerOfTen (power : Nat) : Nat × Nat :=
  match Double.ofRatio? false (Nat.pow 10 power) 1 with
  | some x => x.magnitude
  | none => (Nat.pow 10 power, 1)

def multiply? (x : Double) (power : Nat) : Option Double :=
  let (num, den) := powerOfTen power
  x.scale? num den

def divide? (x : Double) (power : Nat) : Option Double :=
  let (num, den) := powerOfTen power
  x.scale? den num

/-- Divides by the greatest power of ten several times, or until nothing is left. -/
def shrink? : (times : Nat) → Double → Option Double
  | 0, x => some x
  | times + 1, x => if x.isZero then some x else (divide? x greatestPower).bind (shrink? times)

/-- Scales a double by a power of ten, rounding after each multiplication or
    division by a finite power. There is no result if it would not be finite. -/
def scaleByTen? (x : Double) (power : Int) : Option Double :=
  if power < 0 then
    let times := (power.natAbs - 1) / greatestPower
    (shrink? times x).bind fun x => divide? x (power.natAbs - times * greatestPower)
  else if power ≤ greatestPower then multiply? x power.natAbs
  else if x.isZero then some x
  else none

/-- The value as a double. As many digits as fit 64 bits are rounded to a double, which is
    then scaled by a power of ten; digits that do not fit count for their place only. -/
def toDouble? (literal : NumberLiteral) : Option Double :=
  let (value, skipped) := significand 0 literal.whole
  let fraction := literal.fraction.getD []
  let (value, rest) := significand value fraction
  let exponent : Int := match literal.exponent with
    | none => 0
    | some (negative, digits) =>
      if negative then -(digitsValue digits : Int) else digitsValue digits
  let power := exponent + skipped.length - (fraction.length - rest.length : Nat)
  match Double.ofRatio? literal.negative value 1 with
  | some x => scaleByTen? x power
  | none => none

/-- An integer literal is an integer if it fits 64 bits, unsigned or, with a sign,
    signed. Negative zero and every other literal is a double. -/
def toNumber? (literal : NumberLiteral) : Option Number :=
  let value := digitsValue literal.whole
  match literal.fraction, literal.exponent with
  | none, none =>
    if literal.negative = false ∧ value < 1 <<< 64 then some (.int value)
    else if literal.negative = true ∧ 0 < value ∧ value ≤ 1 <<< 63 then some (.int (-(value : Int)))
    else literal.toDouble?.map .float
  | _, _ => literal.toDouble?.map .float

end NumberLiteral

end SchemaTypes
