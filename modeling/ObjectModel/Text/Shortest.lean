/-!
# Shortest decimal digits

A rounded number `mantissa * 2 ^ exponent` stands for every real that rounds
to it. Among the decimals in that interval this module finds one with the
fewest digits, and of those the one nearest to the number itself. All
arithmetic is exact, on natural numbers.
-/
namespace ObjectModel.Shortest

/-- The decimal number `digits * 10 ^ exponent`. -/
structure Decimal where
  digits : Nat
  exponent : Int
  deriving DecidableEq, Repr

/-- The reals that round to one number, as fractions over `denominator`. The
two ends belong to the interval when `closed` holds. -/
structure Interval where
  low : Nat
  value : Nat
  high : Nat
  denominator : Nat
  closed : Bool
  deriving DecidableEq, Repr

namespace Interval

/-- The interval of `mantissa * 2 ^ exponent`: half a unit to each side, but a
quarter below when the number below is twice as near. An even mantissa wins
ties, so its ends round to it. -/
def ofBinary (mantissa : Nat) (exponent : Int) (narrow : Bool) : Interval :=
  let scale := Nat.pow 2 (exponent - 2).toNat
  { low := (4 * mantissa - if narrow then 1 else 2) * scale
    value := 4 * mantissa * scale
    high := (4 * mantissa + 2) * scale
    denominator := Nat.pow 2 (2 - exponent).toNat
    closed := mantissa % 2 == 0 }

/-- The number of decimal digits of a natural number. -/
def width (n : Nat) : Nat := (Nat.toDigits 10 n).length

/-- The power of ten of the number's leading digit. -/
def magnitude (i : Interval) : Int :=
  if i.denominator ≤ i.value then (width (i.value / i.denominator) : Int) - 1
  else -(width ((i.denominator - 1) / i.value) : Int)

/-- Whether `digits * 10 ^ exponent` rounds to the number. -/
def holds (i : Interval) (d : Decimal) : Bool :=
  let middle := d.digits * Nat.pow 10 d.exponent.toNat * i.denominator
  let scale := Nat.pow 10 (-d.exponent).toNat
  if i.closed then i.low * scale ≤ middle && middle ≤ i.high * scale
  else i.low * scale < middle && middle < i.high * scale

/-- The distance between the number and a decimal, over a denominator that
depends on the decimal's exponent only. -/
def distance (i : Interval) (d : Decimal) : Nat :=
  let middle := d.digits * Nat.pow 10 d.exponent.toNat * i.denominator
  let value := i.value * Nat.pow 10 (-d.exponent).toNat
  (middle - value) + (value - middle)

/-- The grid point at or below the number, among the multiples of
`10 ^ exponent`. -/
def below (i : Interval) (exponent : Int) : Decimal :=
  let grid := i.denominator * Nat.pow 10 exponent.toNat
  ⟨i.value * Nat.pow 10 (-exponent).toNat / grid, exponent⟩

/-- The grid point above the number. -/
def above (i : Interval) (exponent : Int) : Decimal :=
  ⟨(i.below exponent).digits + 1, exponent⟩

/-- The nearer of the number's two neighbours on a grid that rounds to the
number; of two equally near ones the upper. -/
def nearest? (i : Interval) (exponent : Int) : Option Decimal :=
  let lower := i.below exponent
  let upper := i.above exponent
  if i.holds upper && (!i.holds lower || i.distance upper ≤ i.distance lower) then some upper
  else if i.holds lower then some lower
  else none

/-- Coarser grids come first, so the first hit has the fewest digits. -/
def shortest (i : Interval) : Decimal :=
  let top := i.magnitude
  let grids := (List.range 17).map fun k : Nat => top - (k : Int)
  (grids.findSome? i.nearest?).getD (i.below (top - 16))

end Interval

/-- Drops zeros at the end of the digits, moving them into the exponent. -/
def Decimal.trimZeros (d : Decimal) : Nat → Decimal
  | 0 => d
  | n + 1 =>
    if d.digits % 10 == 0 && d.digits != 0 then
      (Decimal.mk (d.digits / 10) (d.exponent + 1)).trimZeros n
    else d

/-- The fewest digits that read back as `mantissa * 2 ^ exponent`. -/
def ofBinary (mantissa : Nat) (exponent : Int) (narrow : Bool) : Decimal :=
  (Interval.ofBinary mantissa exponent narrow).shortest.trimZeros 17

/-- How a decimal is laid out: positionally while the power of ten of the
leading digit lies within the bounds, and with a written power otherwise. -/
structure Layout where
  leastPower : Int
  greatestPower : Int
  mark : String

/-- The digits followed or interrupted by a point, with at least one digit on
each side of it. -/
def Layout.positional (digits : List Char) (point : Int) : List Char :=
  if point ≤ 0 then ['0', '.'] ++ List.replicate (-point).toNat '0' ++ digits
  else
    let whole := digits.take point.toNat
    let rest := digits.drop point.toNat
    whole ++ List.replicate (point.toNat - whole.length) '0' ++
      '.' :: (if rest.isEmpty then ['0'] else rest)

/-- One digit before the point, the others after it, then the power of ten. -/
def Layout.scientific (l : Layout) (digits : List Char) (power : Int) : List Char :=
  digits.take 1 ++ (if digits.length ≤ 1 then [] else '.' :: digits.drop 1) ++
    l.mark.toList ++ (toString power).toList

/-- The text of a decimal in a layout. -/
def Layout.text (l : Layout) (d : Decimal) : String :=
  let digits := Nat.toDigits 10 d.digits
  let point := (digits.length : Int) + d.exponent
  let power := point - 1
  String.ofList <|
    if l.leastPower ≤ power && power ≤ l.greatestPower then Layout.positional digits point
    else l.scientific digits power

end ObjectModel.Shortest
