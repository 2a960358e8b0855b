import ObjectModel.Text.Shortest

/-!
# Binary floating point numbers

A number is its 64 bits. Comparison follows IEEE 754: zeros of either sign are
equal and a NaN equals nothing. The text has the fewest digits that read back.
-/
namespace ObjectModel

/-- A double precision number, given by its bits. -/
structure Binary64 where
  bits : UInt64
  deriving DecidableEq, Repr, Inhabited

namespace Binary64

/-- The bits of a machine number. -/
def ofFloat (x : Float) : Binary64 := ⟨x.toBits⟩

def zero : Binary64 := ⟨0⟩

def negative (x : Binary64) : Bool := x.bits.toNat.testBit 63

/-- The weight of the digit before the point, which has no bit of its own. -/
def leadingDigit : Nat := Nat.pow 2 52

/-- The eleven bits of the exponent. -/
def exponentField (x : Binary64) : Nat := x.bits.toNat / leadingDigit % 2048

/-- The fifty-two bits after the point. -/
def fraction (x : Binary64) : Nat := x.bits.toNat % leadingDigit

/-- Whether the bits stand for no number. -/
def isNaN (x : Binary64) : Bool := x.exponentField == 2047 && x.fraction != 0

/-- Whether the bits stand for an infinity. -/
def isInfinite (x : Binary64) : Bool := x.exponentField == 2047 && x.fraction == 0

/-- Whether the bits stand for a zero of either sign. -/
def isZero (x : Binary64) : Bool := x.exponentField == 0 && x.fraction == 0

/-- Numeric equality: false on a NaN, true on the two zeros. -/
def numEq (x y : Binary64) : Bool :=
  !x.isNaN && !y.isNaN && (x.bits == y.bits || (x.isZero && y.isZero))

/-- The fewest digits of a finite nonzero number, its sign aside. The number
below a power of two is nearer than the one above, except at the bottom of the
range. -/
def decimal (x : Binary64) : Shortest.Decimal :=
  if x.exponentField == 0 then Shortest.ofBinary x.fraction (-1074) false
  else
    Shortest.ofBinary (leadingDigit + x.fraction) ((x.exponentField : Int) - 1075)
      (x.fraction == 0 && x.exponentField != 1)

/-- Numbers from `0.0001` up to `1e16` are written positionally. -/
def layout : Shortest.Layout := ⟨-4, 15, "e"⟩

def text (x : Binary64) : String :=
  if x.isNaN then "NaN"
  else
    let size :=
      if x.isInfinite then "inf"
      else if x.isZero then "0.0"
      else layout.text x.decimal
    if x.negative then "-" ++ size else size

end Binary64
end ObjectModel
