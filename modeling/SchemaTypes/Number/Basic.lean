import SchemaTypes.Number.Shortest

namespace SchemaTypes

/-- A JSON number. Whether it was written as an integer is part of its value: `1`
    and `1.0` are printed differently. -/
inductive Number where
  | int (value : Int)
  | float (value : Double)
deriving DecidableEq

/-- How a decimal number is laid out. -/
structure Layout where
  /-- The least exponent of the leading digit that is written without an exponent. -/
  least : Int
  /-- The greatest exponent of the leading digit that is written without an exponent. -/
  greatest : Int

namespace Layout

def digits (n : Nat) : List Char := Nat.toDigits 10 n

/-- The digits with the point after the digit of the units, and at least one digit
    behind it. -/
def positional (digits : List Char) (leading : Int) : List Char :=
  if leading < 0 then
    '0' :: '.' :: (List.replicate (-leading - 1).toNat '0' ++ digits)
  else
    let whole := leading.toNat + 1
    if digits.length ≤ whole then
      digits ++ List.replicate (whole - digits.length) '0' ++ ['.', '0']
    else digits.take whole ++ '.' :: digits.drop whole

/-- One digit before the point, no point if no digit follows it, and a signed exponent. -/
def scientific (digits : List Char) (leading : Int) : List Char :=
  let sign := if leading < 0 then '-' else '+'
  let tail := match digits.drop 1 with
    | [] => []
    | rest => '.' :: rest
  digits.take 1 ++ tail ++ 'e' :: sign :: Layout.digits leading.natAbs

/-- The text of a decimal number without its sign. -/
def chars (layout : Layout) (d : Decimal) : List Char :=
  let digits := Layout.digits d.coefficient
  let leading := d.power + digits.length - 1
  if layout.least ≤ leading ∧ leading ≤ layout.greatest then positional digits leading
  else scientific digits leading

end Layout

namespace Number

/-- Numbers from `0.00001` to below `10 ^ 16` are written without an exponent. -/
def floatLayout : Layout where
  least := -5
  greatest := 15

def intChars (n : Int) : List Char :=
  if n < 0 then '-' :: Layout.digits n.natAbs else Layout.digits n.natAbs

def floatChars (x : Double) : List Char :=
  let text := floatLayout.chars (Decimal.shortest x)
  if x.negative then '-' :: text else text

/-- The text of a number. -/
def chars : Number → List Char
  | .int n => intChars n
  | .float x => floatChars x

/-- The nearest double, if it is finite. -/
def toDouble? : Number → Option Double
  | .int n => Double.ofInt? n
  | .float x => some x

/-- Two numbers are the same value if they are the same number or are nearest to
    the same double. -/
def sameValue (a b : Number) : Bool :=
  a == b ||
    match a.toDouble?, b.toDouble? with
    | some x, some y => x.sameValue y
    | _, _ => false

end Number

end SchemaTypes
