import ObjectModel.World.Lineage

/-!
# Lifecycle

How classes, instances and pools come to be, and how the state of an instance
goes back to the pool it came from.
-/
namespace ObjectModel.World
variable {Code σ : Type}

/-- Makes a class with class variables of its own. -/
def newClass (w : World Code σ) (name : String) (c : Configuration) : ClassId × World Code σ :=
  let record : ClassRecord Code :=
    { name, classVars := ⟨w.stores.next⟩, flags := { uncached := !c.resolutionCache } }
  (⟨w.classes.next⟩,
    { w with classes := w.classes.add record, stores := w.stores.add {} })

def newPool (w : World Code σ) (capacity : Nat) : PoolId × World Code σ :=
  (⟨w.pools.next⟩, { w with pools := w.pools.add (.ofCapacity capacity) })

/-- Takes a state out of a pool. -/
def acquire (w : World Code σ) (p : PoolId) : ObjectState Code × World Code σ :=
  let (s, pool) := (w.poolAt p).acquire
  (s, w.modifyPool p fun _ => pool)

/-- Gives a state to a pool; answers whether it was kept. -/
def release (w : World Code σ) (p : PoolId) (s : ObjectState Code) : Bool × World Code σ :=
  let (kept, pool) := (w.poolAt p).release s
  (kept, w.modifyPool p fun _ => pool)

/-- Drops all states of a pool; answers how many there were. -/
def clearPool (w : World Code σ) (p : PoolId) : Nat × World Code σ :=
  let (dropped, pool) := (w.poolAt p).clear
  (dropped, w.modifyPool p fun _ => pool)

/-- The pool that instances of a class take their state from. -/
def poolFor? (w : World Code σ) (k : ClassId) : Option PoolId :=
  if (w.classAt k).flags.pooled then (w.classAt k).pool else none

/-- The state of the next instance of a class: one out of its pool, or a new
one. -/
def freshState (w : World Code σ) (k : ClassId) : ObjectState Code × World Code σ :=
  match w.poolFor? k with
  | some p => w.acquire p
  | none => (.new, w)

/-- Makes an instance. It takes the handler and the class variables that its
class has at this moment. -/
def instantiate (w : World Code σ) (k : ClassId) : InstanceId × World Code σ :=
  let pool := w.poolFor? k
  let (state, w) := w.freshState k
  let record : InstanceRecord Code :=
    { classId := k
      classVars := (w.classAt k).classVars
      state := { state with handler := w.lineageHandler? k }
      pool }
  (⟨w.instances.next⟩, { w with instances := w.instances.add record })

/-- Gives an instance up. Its state goes to the pool it came from; the answer
is whether it was kept. What is left is an empty instance that belongs to no
pool. -/
def retire (w : World Code σ) (i : InstanceId) : Bool × World Code σ :=
  let record := w.instanceAt i
  let w := w.modifyInstance i fun r => { r with state := .new, pool := none }
  match record.pool with
  | some p => w.release p record.state
  | none => (false, w)

end ObjectModel.World
