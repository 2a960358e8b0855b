import ObjectModel.Lookup.Level
import ObjectModel.Number.Rate

/-!
# Lookup caches

A cache remembers findings, also that a method is missing, and the stamp under
which they are valid. They are recalled under that very stamp only. What is
found under a later stamp replaces all of them, and what was found under an
earlier one is not remembered.
-/
namespace ObjectModel

/-- What a cache has counted. The counters stand for words of 64 bits, on the assumption that
none of them is counted up `2 ^ 64` times. -/
structure CacheCounters where
  hits : Nat := 0
  misses : Nat := 0
  invalidations : Nat := 0
  deriving DecidableEq, Repr, Inhabited

namespace CacheCounters

/-- The percentage of lookups that were served. -/
def hitRate (s : CacheCounters) : Binary64 := Rate.percentage s.hits s.misses

def debug (s : CacheCounters) : String :=
  Text.record "CacheStats"
    [("hits", toString s.hits), ("misses", toString s.misses),
      ("invalidations", toString s.invalidations)]

end CacheCounters

/-- Remembered findings, valid under one stamp. -/
structure LookupCache (Code : Type) where
  validAt : Nat := 0
  entries : Table (Finding Code) := {}
  counters : CacheCounters := {}
  deriving Repr, Inhabited

namespace LookupCache
variable {Code : Type}

/-- The finding remembered for a name under a stamp. -/
def peek (c : LookupCache Code) (name : String) (stamp : Nat) : Option (Finding Code) :=
  if c.validAt = stamp then c.entries.find? name else none

def count (c : LookupCache Code) (hit : Bool) : LookupCache Code :=
  if hit then { c with counters := { c.counters with hits := c.counters.hits + 1 } }
  else { c with counters := { c.counters with misses := c.counters.misses + 1 } }

/-- Looks a name up, counting a hit or a miss. -/
def consult (c : LookupCache Code) (name : String) (stamp : Nat) :
    Option (Finding Code) × LookupCache Code :=
  (c.peek name stamp, c.count (c.peek name stamp).isSome)

/-- Drops every entry, counting an invalidation if there was one. The stamp
stays. -/
def forget (c : LookupCache Code) : LookupCache Code :=
  if c.entries.isEmpty then c
  else
    { c with
      entries := {}
      counters := { c.counters with invalidations := c.counters.invalidations + 1 } }

/-- Remembers a finding made under a stamp. -/
def remember (c : LookupCache Code) (name : String) (stamp : Nat) (r : Finding Code) :
    LookupCache Code :=
  if stamp < c.validAt then c
  else if c.validAt < stamp then
    { c.forget with validAt := stamp, entries := Table.insert {} name r }
  else { c with entries := c.entries.insert name r }

def reset (_ : LookupCache Code) : LookupCache Code := {}

def size (c : LookupCache Code) : Nat := c.entries.size

def isEmpty (c : LookupCache Code) : Bool := c.entries.isEmpty

end LookupCache
end ObjectModel
