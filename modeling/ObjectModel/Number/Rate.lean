import ObjectModel.Number.Binary64

/-!
# Rates

The share of one count in the sum of two, in double precision. Counts are
words of 64 bits, each rounded to the nearest number before dividing.
-/
namespace ObjectModel.Rate

/-- The nearest double precision number to a count. -/
def ofCount (n : Nat) : Float := (UInt64.ofNat n).toFloat

/-- The share of `part` in `part + rest`, zero when both are zero. -/
def share (part rest : Nat) : Float :=
  if part + rest = 0 then 0 else ofCount part / ofCount (part + rest)

/-- A share between zero and one. -/
def fraction (part rest : Nat) : Binary64 := .ofFloat (share part rest)

/-- A share between zero and a hundred. -/
def percentage (part rest : Nat) : Binary64 := .ofFloat (share part rest * 100)

end ObjectModel.Rate
