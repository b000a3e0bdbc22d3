import SchemaTypes.Number.Double

namespace SchemaTypes

/-- The decimal number `coefficient * 10 ^ power`. -/
structure Decimal where
  coefficient : Nat
  power : Int
deriving DecidableEq

namespace Decimal

def readsBack (d : Decimal) (x : Double) : Bool :=
  Double.ofDecimal? x.negative d.coefficient d.power == some x

/-- The multiple of `10 ^ power` that reads back as `x`, if one of the two
    neighbours of `x` on that grid does. Of two the nearer is taken, and of two
    equally near the even one. -/
def onGrid? (x : Double) (power : Int) : Option Decimal :=
  let (num, den) := x.magnitude
  let (scaled, unit) := unscale 10 num den power
  let below : Decimal := ⟨scaled / unit, power⟩
  let above : Decimal := ⟨scaled / unit + 1, power⟩
  match below.readsBack x, above.readsBack x with
  | true, true => some ⟨roundDiv scaled unit, power⟩
  | true, false => some below
  | false, true => some above
  | false, false => none

/-- A power of ten above the magnitude of `x`. The ratio stands for the decimal
    logarithm of two, and two more powers make up for its error. -/
def powerAbove (x : Double) : Int :=
  let (num, den) := x.magnitude
  (ratioLog2 num den * 1233) / 4096 + 2

/-- The exact value of `x`, whose denominator is a power of two. -/
def exact (x : Double) : Decimal :=
  if 0 ≤ x.exponent then ⟨x.mantissa * Nat.pow 2 x.exponent.toNat, 0⟩
  else ⟨x.mantissa * Nat.pow 5 (-x.exponent).toNat, x.exponent⟩

/-- The decimal with the fewest digits that reads back as `x`: the first one found
    from the coarsest grid to the finest. Seventeen digits are always enough, so
    the exact value is never needed for a number other than zero. -/
def shortest (x : Double) : Decimal :=
  if x.isZero then ⟨0, 0⟩
  else
    ((List.range 20).findSome? fun (step : Nat) => onGrid? x (powerAbove x - step)).getD (exact x)

end Decimal

end SchemaTypes
