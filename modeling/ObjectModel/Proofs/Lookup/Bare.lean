import ObjectModel.Proofs.World.Veil

/-!
# Bare worlds

The world without what lookups have remembered: every cache is blank, and no
class is marked as one that does not remember. Two worlds with the same bare
world differ in caches only. Everything that is read along lineages and tables
is the same in a world and in its bare world.
-/
namespace ObjectModel

variable {Code σ : Type}

/-- A class that has remembered nothing. -/
def ClassRecord.bare (c : ClassRecord Code) : ClassRecord Code :=
  { c with cache := {}, classCache := {}, flags := { c.flags with uncached := false } }

/-- A state that has remembered nothing. -/
def ObjectState.bare (s : ObjectState Code) : ObjectState Code := { s with cache := {} }

/-- An instance that has remembered nothing. -/
def InstanceRecord.bare (r : InstanceRecord Code) : InstanceRecord Code :=
  { r with state := r.state.bare }

/-- The veil before what is remembered, and before which classes remember. -/
def Veil.caching : Veil := { caches := true, marks := true }

namespace World
variable {w v : World Code σ}

/-- The world as if no lookup had ever been remembered. -/
def bare (w : World Code σ) : World Code σ :=
  { w with classes := w.classes.map .bare, instances := w.instances.map .bare }

theorem bare_eq_behind (w : World Code σ) : w.bare = w.behind .caching := by
  have pools : w.pools.map Veil.caching.ofPool = w.pools := Registry.map_self fun _ => rfl
  have trace : w.trace.filterMap Veil.caching.ofEvent = w.trace := trace_behind rfl rfl w
  have notes : (w.notes.filter fun line => !Veil.caching.line line) = w.notes :=
    List.filter_eq_self.mpr fun _ _ => rfl
  rw [behind, trace, notes, pools]
  rfl

@[simp] theorem bare_bare (w : World Code σ) : w.bare.bare = w.bare := by
  simp only [bare_eq_behind, behind_behind]

@[simp] theorem classAt_bare (w : World Code σ) (k : ClassId) :
    w.bare.classAt k = (w.classAt k).bare := by
  rw [bare_eq_behind, classAt_behind]
  rfl

@[simp] theorem instanceAt_bare (w : World Code σ) (i : InstanceId) :
    w.bare.instanceAt i = (w.instanceAt i).bare := by
  rw [bare_eq_behind, instanceAt_behind]
  rfl

@[simp] theorem has_bare (w : World Code σ) (x : Receiver) : w.bare.Has x ↔ w.Has x := by
  rw [bare_eq_behind, has_behind]

@[simp] theorem table_bare (c : ClassRecord Code) (side : Side) :
    c.bare.table side = c.table side :=
  Veil.caching.table_ofClass c side

@[simp] theorem lineageStamp_bare (w : World Code σ) (k : ClassId) :
    w.bare.lineageStamp k = w.lineageStamp k := by
  rw [bare_eq_behind, lineageStamp_behind]

@[simp] theorem stampOf_bare (w : World Code σ) (x : Receiver) : w.bare.stampOf x = w.stampOf x := by
  rw [bare_eq_behind, stampOf_behind]

@[simp] theorem hookLevels_bare (w : World Code σ) (x : Receiver) :
    w.bare.hookLevels x = w.hookLevels x := by
  rw [bare_eq_behind, hookLevels_behind rfl]

@[simp] theorem handler?_bare (w : World Code σ) (x : Receiver) :
    w.bare.handler? x = w.handler? x := by
  rw [bare_eq_behind, handler?_behind]

@[simp] theorem receiverName_bare (w : World Code σ) (x : Receiver) :
    w.bare.receiverName x = w.receiverName x := by
  rw [bare_eq_behind, receiverName_behind]

@[simp] theorem definition?_bare (w : World Code σ) (side : Side) (k : ClassId) (name : String) :
    w.bare.definition? side k name = w.definition? side k name := by
  rw [bare_eq_behind, definition?_behind]

@[simp] theorem runningLevel?_bare (w : World Code σ) (x : Receiver) (name : String) :
    w.bare.runningLevel? x name = w.runningLevel? x name := rfl

@[simp] theorem bare_putClassCache (w : World Code σ) (side : Side) (k : ClassId)
    (cache : LookupCache Code) : (w.putClassCache side k cache).bare = w.bare := by
  rw [bare_eq_behind, bare_eq_behind, putClassCache_hidden rfl]

@[simp] theorem bare_putInstanceCache (w : World Code σ) (i : InstanceId)
    (cache : LookupCache Code) : (w.putInstanceCache i cache).bare = w.bare := by
  rw [bare_eq_behind, bare_eq_behind, putInstanceCache_hidden rfl]

end World
end ObjectModel
