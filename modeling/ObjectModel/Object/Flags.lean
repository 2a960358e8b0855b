import ObjectModel.Text.Quoted

/-!
# Class flags

Three facts about a class that are asked before anything else is looked at.
Each has a bit in the word that stands for a set of flags; other bits mean
nothing.
-/
namespace ObjectModel

structure Flags where
  /-- Instances take their state from a pool. -/
  pooled : Bool := false
  /-- Lookups are not remembered. -/
  uncached : Bool := false
  /-- A handler for missing methods is installed. -/
  hasHandler : Bool := false
  deriving DecidableEq, Repr, Inhabited

namespace Flags

/-- The flags of the meaningful bits of a word. -/
def ofBits (bits : Nat) : Flags :=
  ⟨bits.testBit 0, bits.testBit 1, bits.testBit 2⟩

/-- The word of a set of flags. -/
def toBits (f : Flags) : Nat :=
  f.pooled.toNat + 2 * f.uncached.toNat + 4 * f.hasHandler.toNat

/-- The flags of a word, unless it has a bit that means nothing. -/
def ofBits? (bits : Nat) : Option Flags :=
  if (ofBits bits).toBits = bits then some (ofBits bits) else none

def union (f g : Flags) : Flags :=
  ⟨f.pooled || g.pooled, f.uncached || g.uncached, f.hasHandler || g.hasHandler⟩

def inter (f g : Flags) : Flags :=
  ⟨f.pooled && g.pooled, f.uncached && g.uncached, f.hasHandler && g.hasHandler⟩

def includes (f g : Flags) : Bool := f.inter g = g

def isEmpty (f : Flags) : Bool := f = {}

def names (f : Flags) : List String :=
  (if f.pooled then ["POOLED"] else []) ++ (if f.uncached then ["UNCACHED"] else []) ++
    if f.hasHandler then ["HAS_METHOD_MISSING"] else []

def debug (f : Flags) : String :=
  Text.applied "ClassFlags" (if f.isEmpty then "0x0" else String.intercalate " | " f.names)

@[simp] theorem union_empty (f : Flags) : f.union {} = f := by
  simp [union]

@[simp] theorem ofBits_toBits (f : Flags) : ofBits f.toBits = f := by
  obtain ⟨p, u, h⟩ := f
  cases p <;> cases u <;> cases h <;> decide

end Flags
end ObjectModel
