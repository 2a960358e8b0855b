/-!
# Stamps

One clock serves all objects. Each tick hands out a stamp greater than every
stamp before it, and an object that takes it as its version is later than
every other object. Stamp zero means that nothing has changed yet.
-/
namespace ObjectModel

/-- The greatest stamp handed out so far. It stands for a word of 64 bits, on the assumption
that there are fewer than `2 ^ 64` ticks, so that no stamp comes twice. -/
structure Clock where
  latest : Nat := 0
  deriving DecidableEq, Repr, Inhabited

namespace Clock

/-- The next stamp, and the clock that has handed it out. -/
def tick (c : Clock) : Nat × Clock := (c.latest + 1, ⟨c.latest + 1⟩)

/-- The version of an object that takes a stamp. Versions never go back. -/
def raise (version stamp : Nat) : Nat := max version stamp

/-- A version from before a tick becomes the stamp of that tick. -/
theorem raise_tick {c : Clock} {version : Nat} (h : version ≤ c.latest) :
    raise version c.tick.1 = c.tick.1 := by
  unfold raise tick
  exact Nat.max_eq_right (Nat.le_succ_of_le h)

end Clock
end ObjectModel
