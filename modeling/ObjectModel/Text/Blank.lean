/-!
# Blank characters

The characters with the Unicode property `White_Space`, and texts freed from
them at both ends.
-/
namespace ObjectModel.Text

/-- The code points with the property `White_Space`, as closed ranges. -/
def blankRanges : List (Nat × Nat) :=
  [(0x9, 0xD), (0x20, 0x20), (0x85, 0x85), (0xA0, 0xA0), (0x1680, 0x1680), (0x2000, 0x200A),
   (0x2028, 0x2029), (0x202F, 0x202F), (0x205F, 0x205F), (0x3000, 0x3000)]

def isBlank (c : Char) : Bool := blankRanges.any fun r => r.1 ≤ c.toNat && c.toNat ≤ r.2

/-- The text without the blanks at its two ends. -/
def trim (cs : List Char) : List Char :=
  ((cs.dropWhile isBlank).reverse.dropWhile isBlank).reverse

end ObjectModel.Text
