namespace SchemaTypes

/-- A finite binary64 number: a sign and the magnitude `mantissa * 2 ^ exponent`.
    The bounds make the representation unique, so equality of two doubles is
    equality of their bit patterns and the two zeros differ. -/
structure Double where
  negative : Bool
  mantissa : Nat
  exponent : Int
  mantissa_lt : mantissa < 1 <<< 53
  exponent_ge : -1074 ≤ exponent
  exponent_le : exponent ≤ 971
  normal : exponent = -1074 ∨ 1 <<< 52 ≤ mantissa
deriving DecidableEq

/-- The quotient of `num` by `den` rounded to the nearest integer, a half going to
    the even neighbour. -/
def roundDiv (num den : Nat) : Nat :=
  let quotient := num / den
  let twice := 2 * (num % den)
  if twice < den then quotient
  else if den < twice then quotient + 1
  else if quotient % 2 = 0 then quotient
  else quotient + 1

/-- The numerator and denominator of `num / den / base ^ power`. -/
def unscale (base num den : Nat) (power : Int) : Nat × Nat :=
  (num * base.pow (-power).toNat, den * base.pow power.toNat)

/-- The exponent of the greatest power of two that is at most `num / den`, for
    positive `num` and `den`. The bit lengths leave two candidates, and one
    comparison decides between them. -/
def ratioLog2 (num den : Nat) : Int :=
  let guess : Int := (num.log2 : Int) - (den.log2 : Int)
  let (scaled, unit) := unscale 2 num den guess
  if unit ≤ scaled then guess else guess - 1

namespace Double

/-- The zero with the given sign. -/
def zero (negative : Bool) : Double where
  negative := negative
  mantissa := 0
  exponent := -1074
  mantissa_lt := by decide
  exponent_ge := by decide
  exponent_le := by decide
  normal := .inl rfl

def isZero (x : Double) : Bool := x.mantissa == 0

/-- The double with the given parts, if they are in range. -/
def ofParts? (negative : Bool) (mantissa : Nat) (exponent : Int) : Option Double :=
  if h : mantissa < 1 <<< 53 ∧ -1074 ≤ exponent ∧ exponent ≤ 971 ∧
      (exponent = -1074 ∨ 1 <<< 52 ≤ mantissa) then
    some ⟨negative, mantissa, exponent, h.1, h.2.1, h.2.2.1, h.2.2.2⟩
  else none

/-- The double nearest to `num / den`, a tie going to the even mantissa. There is
    none when the quotient is too large to be finite. -/
def ofRatio? (negative : Bool) (num den : Nat) : Option Double :=
  if num = 0 then some (zero negative)
  else
    let exponent := max (-1074) (ratioLog2 num den - 52)
    let (scaled, unit) := unscale 2 num den exponent
    let mantissa := roundDiv scaled unit
    if mantissa = 1 <<< 53 then ofParts? negative (1 <<< 52) (exponent + 1)
    else ofParts? negative mantissa exponent

/-- The double nearest to `coefficient * 10 ^ power`. -/
def ofDecimal? (negative : Bool) (coefficient : Nat) (power : Int) : Option Double :=
  ofRatio? negative (coefficient * Nat.pow 10 power.toNat) (Nat.pow 10 (-power).toNat)

/-- The double nearest to an integer. -/
def ofInt? (n : Int) : Option Double :=
  ofRatio? (n < 0) n.natAbs 1

/-- Numeric equality, under which the two zeros are the same number. -/
def sameValue (x y : Double) : Bool :=
  x == y || (x.isZero && y.isZero)

/-- The magnitude as a fraction. -/
def magnitude (x : Double) : Nat × Nat :=
  unscale 2 x.mantissa 1 (-x.exponent)

def neg (x : Double) : Double := { x with negative := !x.negative }

def abs (x : Double) : Double := { x with negative := false }

/-- The signed value as an integer over a positive denominator. -/
def fraction (x : Double) : Int × Nat :=
  let (num, den) := x.magnitude
  (if x.negative then -(num : Int) else num, den)

/-- The double nearest to the sum. An exact zero sum is negative only if both terms are. -/
def add? (x y : Double) : Option Double :=
  let (a, b) := x.fraction
  let (c, d) := y.fraction
  let sum := a * d + c * b
  ofRatio? (if sum = 0 then x.negative && y.negative else sum < 0) sum.natAbs (b * d)

/-- The double nearest to the product with the fraction `num / den`. -/
def scale? (x : Double) (num den : Nat) : Option Double :=
  let (a, b) := x.magnitude
  ofRatio? x.negative (a * num) (b * den)

end Double

end SchemaTypes
