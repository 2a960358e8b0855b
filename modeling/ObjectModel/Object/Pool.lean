import ObjectModel.Object.State
import ObjectModel.Configuration

/-!
# Pools

A pool keeps states of instances that were given up, the longest kept one
first, up to its capacity. Whatever enters or leaves a pool is reset.
-/
namespace ObjectModel

/-- What a pool has counted. The counters stand for words of 64 bits, on the assumption that
none of them is counted up `2 ^ 64` times. -/
structure PoolCounters where
  /-- Takings served from the pool. -/
  hits : Nat := 0
  /-- Takings of new states. -/
  misses : Nat := 0
  /-- States accepted back. -/
  releases : Nat := 0
  /-- States turned away. -/
  discarded : Nat := 0
  deriving DecidableEq, Repr, Inhabited

namespace PoolCounters

/-- The share of takings that were served from the pool. -/
def hitRate (s : PoolCounters) : Binary64 := Rate.fraction s.hits s.misses

def debug (s : PoolCounters) : String :=
  Text.record "PoolStats"
    [("hits", toString s.hits), ("misses", toString s.misses),
      ("releases", toString s.releases), ("discarded", toString s.discarded)]

end PoolCounters

/-- A bounded queue of states. -/
structure Pool (Code : Type) where
  free : List (ObjectState Code) := []
  capacity : Nat
  counters : PoolCounters := {}

namespace Pool
variable {Code : Type}

instance : Inhabited (Pool Code) := ⟨{ capacity := 0 }⟩

def ofCapacity (capacity : Nat) : Pool Code := { capacity }

def ofConfiguration (c : Configuration) : Pool Code := ofCapacity c.poolCapacity

/-- Takes the state that was kept longest, or a new one when there is none. -/
def acquire (p : Pool Code) : ObjectState Code × Pool Code :=
  match p.free with
  | [] => (.new, { p with counters := { p.counters with misses := p.counters.misses + 1 } })
  | s :: rest =>
    (s.reset, { p with free := rest, counters := { p.counters with hits := p.counters.hits + 1 } })

/-- Resets a state and keeps it if there is room; answers whether there was. -/
def release (p : Pool Code) (s : ObjectState Code) : Bool × Pool Code :=
  if p.free.length < p.capacity then
    (true,
      { p with
        free := p.free ++ [s.reset]
        counters := { p.counters with releases := p.counters.releases + 1 } })
  else (false, { p with counters := { p.counters with discarded := p.counters.discarded + 1 } })

/-- Drops every state; answers how many there were. -/
def clear (p : Pool Code) : Nat × Pool Code := (p.free.length, { p with free := [] })

def count (p : Pool Code) : Nat := p.free.length

def isEmpty (p : Pool Code) : Bool := p.count == 0

/-- Whether a released state would be turned away. -/
def isFull (p : Pool Code) : Bool := p.capacity ≤ p.count

def debug (p : Pool Code) : String :=
  Text.record "InstancePool"
    [("pooled", toString p.count), ("capacity", toString p.capacity), ("stats", p.counters.debug)]

structure Summary where
  counters : PoolCounters
  count : Nat
  capacity : Nat
  isEmpty : Bool
  isFull : Bool
  debug : String
  deriving DecidableEq, Repr

def summary (p : Pool Code) : Summary :=
  { counters := p.counters
    count := p.count
    capacity := p.capacity
    isEmpty := p.isEmpty
    isFull := p.isFull
    debug := p.debug }

end Pool
end ObjectModel
