import ObjectModel.Proofs.World.Records
import ObjectModel.Program.Query

/-!
# Worlds behind a veil

A veil hides some of what there is in a world: findings that are remembered,
hooks, pools, the running bodies, or some of the notes. Two worlds look the same
behind a veil when they differ in what it hides only. What is read along lineages
and tables is never hidden. A lookup behind a veil that shows caches is the lookup
itself, and one behind a veil that hides them changes nothing.
-/
namespace ObjectModel
variable {Code σ α : Type}

/-- What is hidden of a world. -/
structure Veil where
  /-- Remembered findings, and how often they have served. -/
  caches : Bool := false
  /-- Which classes do not remember. They are hidden together with caches only. -/
  marks : Bool := false
  /-- Hooks, and that they have run. -/
  hooks : Bool := false
  /-- Which classes and instances have a pool, and what pools hold and count. -/
  pools : Bool := false
  /-- The running bodies. -/
  frames : Bool := false
  /-- The lines that are hidden among the notes. -/
  line : String → Bool := fun _ => false

namespace Veil

/-- Something, or a blank in its place. -/
def cover (hidden : Bool) (blank a : α) : α := bif hidden then blank else a

@[simp] theorem cover_false (blank a : α) : cover false blank a = a := rfl

@[simp] theorem cover_true (blank a : α) : cover true blank a = blank := rfl

@[simp] theorem cover_self (hidden : Bool) (a : α) : cover hidden a a = a := by
  cases hidden <;> rfl

@[simp] theorem cover_cover (hidden : Bool) (blank a : α) :
    cover hidden blank (cover hidden blank a) = cover hidden blank a := by
  cases hidden <;> rfl

variable (veil : Veil)

def ofFlags (f : Flags) : Flags :=
  { f with
    pooled := cover veil.pools false f.pooled
    uncached := cover (veil.caches && veil.marks) false f.uncached }

def ofClass (c : ClassRecord Code) : ClassRecord Code :=
  { c with
    hooks := cover veil.hooks {} c.hooks
    cache := cover veil.caches {} c.cache
    classCache := cover veil.caches {} c.classCache
    pool := cover veil.pools none c.pool
    flags := veil.ofFlags c.flags }

def ofState (s : ObjectState Code) : ObjectState Code :=
  { s with hooks := cover veil.hooks {} s.hooks, cache := cover veil.caches {} s.cache }

def ofInstance (r : InstanceRecord Code) : InstanceRecord Code :=
  { r with state := veil.ofState r.state, pool := cover veil.pools none r.pool }

/-- Of a hidden pool only the capacity is seen. -/
def ofPool (p : Pool Code) : Pool Code := cover veil.pools (.ofCapacity p.capacity) p

def ofEvent : Event Code → Option (Event Code)
  | .body m on args frames => some (.body m on args (cover veil.frames [] frames))
  | .before code args => cover veil.hooks none (some (.before code args))
  | .after code result args => cover veil.hooks none (some (.after code result args))
  | .missing code name args => some (.missing code name args)

@[simp] theorem ofFlags_ofFlags (f : Flags) : veil.ofFlags (veil.ofFlags f) = veil.ofFlags f := by
  simp [ofFlags]

@[simp] theorem ofClass_ofClass (c : ClassRecord Code) :
    veil.ofClass (veil.ofClass c) = veil.ofClass c := by
  simp [ofClass]

@[simp] theorem ofState_ofState (s : ObjectState Code) :
    veil.ofState (veil.ofState s) = veil.ofState s := by
  simp [ofState]

@[simp] theorem ofInstance_ofInstance (r : InstanceRecord Code) :
    veil.ofInstance (veil.ofInstance r) = veil.ofInstance r := by
  simp [ofInstance]

@[simp] theorem ofPool_ofPool (p : Pool Code) : veil.ofPool (veil.ofPool p) = veil.ofPool p := by
  unfold ofPool
  cases veil.pools <;> rfl

theorem bind_ofEvent (e : Event Code) : (veil.ofEvent e).bind veil.ofEvent = veil.ofEvent e := by
  cases e with
  | body m on args frames => exact congrArg (some <| Event.body m on args ·) (cover_cover ..)
  | before code args => cases h : veil.hooks <;> simp [ofEvent, h]
  | after code result args => cases h : veil.hooks <;> simp [ofEvent, h]
  | missing code name args => rfl

@[simp] theorem ofClass_default : veil.ofClass (default : ClassRecord Code) = default := by
  change { (default : ClassRecord Code) with
    hooks := cover veil.hooks {} {}
    cache := cover veil.caches {} {}
    classCache := cover veil.caches {} {}
    pool := cover veil.pools none none
    flags := ⟨cover veil.pools false false, cover (veil.caches && veil.marks) false false, false⟩ } = _
  simp only [cover_self]
  rfl

@[simp] theorem ofState_new : veil.ofState (.new : ObjectState Code) = .new := by
  change { (ObjectState.new : ObjectState Code) with
    hooks := cover veil.hooks {} {}
    cache := cover veil.caches {} {} } = _
  simp only [cover_self]
  rfl

@[simp] theorem ofInstance_default : veil.ofInstance (default : InstanceRecord Code) = default := by
  change { (default : InstanceRecord Code) with
    state := veil.ofState .new
    pool := cover veil.pools none none } = _
  simp only [cover_self, ofState_new]
  rfl

@[simp] theorem ofPool_default : veil.ofPool (default : Pool Code) = default := cover_self ..

@[simp] theorem table_ofClass (c : ClassRecord Code) (side : Side) :
    (veil.ofClass c).table side = c.table side := by
  cases side <;> rfl

end Veil

namespace World
variable {veil : Veil} {w v : World Code σ}

/-- A world without what a veil hides. -/
def behind (w : World Code σ) (veil : Veil) : World Code σ :=
  { w with
    classes := w.classes.map veil.ofClass
    instances := w.instances.map veil.ofInstance
    pools := w.pools.map veil.ofPool
    frames := Veil.cover veil.frames [] w.frames
    trace := w.trace.filterMap veil.ofEvent
    notes := w.notes.filter fun line => !veil.line line }

@[simp] theorem behind_behind (w : World Code σ) : (w.behind veil).behind veil = w.behind veil := by
  simp [behind, Registry.map_map_self, List.filterMap_filterMap, List.filter_filter,
    Veil.bind_ofEvent]

@[simp] theorem classAt_behind (w : World Code σ) (k : ClassId) :
    (w.behind veil).classAt k = veil.ofClass (w.classAt k) := by
  simp only [classAt, behind, Registry.find?_map]
  cases w.classes.find? k.number with
  | some c => rfl
  | none => exact veil.ofClass_default.symm

@[simp] theorem instanceAt_behind (w : World Code σ) (i : InstanceId) :
    (w.behind veil).instanceAt i = veil.ofInstance (w.instanceAt i) := by
  simp only [instanceAt, behind, Registry.find?_map]
  cases w.instances.find? i.number with
  | some r => rfl
  | none => exact veil.ofInstance_default.symm

@[simp] theorem stateAt_behind (w : World Code σ) (i : InstanceId) :
    (w.behind veil).stateAt i = veil.ofState (w.stateAt i) := by
  rw [stateAt, instanceAt_behind]
  rfl

@[simp] theorem poolAt_behind (w : World Code σ) (p : PoolId) :
    (w.behind veil).poolAt p = veil.ofPool (w.poolAt p) := by
  simp only [poolAt, behind, Registry.find?_map]
  cases w.pools.find? p.number with
  | some r => rfl
  | none => exact veil.ofPool_default.symm

/-- A veil that shows hooks and frames shows the whole trace. -/
theorem trace_behind (hh : veil.hooks = false) (hf : veil.frames = false) (w : World Code σ) :
    (w.behind veil).trace = w.trace := by
  have shown : (veil.ofEvent : Event Code → Option (Event Code)) = some := by
    funext e
    cases e <;> simp [Veil.ofEvent, hh, hf]
  rw [behind, shown, List.filterMap_some]

theorem has_behind (w : World Code σ) (x : Receiver) : (w.behind veil).Has x ↔ w.Has x := by
  cases x <;> simp [Has, behind]

theorem climb_behind (w : World Code σ) (steps : Nat) (k : ClassId) :
    (w.behind veil).climb steps k = w.climb steps k := by
  induction steps generalizing k with
  | zero => rfl
  | succ steps ih =>
    simp only [climb, classAt_behind, ih]
    rfl

@[simp] theorem lineage_behind (w : World Code σ) (k : ClassId) :
    (w.behind veil).lineage k = w.lineage k := by
  rw [lineage, climb_behind]
  simp [behind, lineage]

@[simp] theorem classOf_behind (w : World Code σ) (x : Receiver) :
    (w.behind veil).classOf x = w.classOf x := by
  cases x with
  | ofInstance i => exact congrArg (·.classId) (instanceAt_behind w i)
  | ofClass k => rfl

@[simp] theorem descendsFrom_behind (w : World Code σ) (k other : ClassId) :
    (w.behind veil).descendsFrom k other = w.descendsFrom k other := by
  rw [descendsFrom, lineage_behind, descendsFrom]

@[simp] theorem lineageStamp_behind (w : World Code σ) (k : ClassId) :
    (w.behind veil).lineageStamp k = w.lineageStamp k := by
  simp only [lineageStamp, lineage_behind, classAt_behind]
  rfl

@[simp] theorem stampOf_behind (w : World Code σ) (x : Receiver) :
    (w.behind veil).stampOf x = w.stampOf x := by
  cases x with
  | ofInstance i =>
    simp only [stampOf, stateAt_behind, instanceAt_behind, lineageStamp_behind]
    rfl
  | ofClass k => exact lineageStamp_behind w k

@[simp] theorem target_behind (w : World Code σ) (x : Receiver) (name : String) :
    (w.behind veil).target x name = w.target x name := by
  cases x <;> simp only [target, alias?, lineageAlias?, lineage_behind, classAt_behind,
    stateAt_behind, instanceAt_behind] <;> rfl

@[simp] theorem lineageHandler?_behind (w : World Code σ) (k : ClassId) :
    (w.behind veil).lineageHandler? k = w.lineageHandler? k := by
  simp only [lineageHandler?, lineage_behind, classAt_behind]
  rfl

@[simp] theorem handler?_behind (w : World Code σ) (x : Receiver) :
    (w.behind veil).handler? x = w.handler? x := by
  cases x with
  | ofInstance i => exact congrArg (·.handler) (stateAt_behind w i)
  | ofClass k => exact lineageHandler?_behind w k

@[simp] theorem receiverName_behind (w : World Code σ) (x : Receiver) :
    (w.behind veil).receiverName x = w.receiverName x := by
  cases x <;> simp only [receiverName, classAt_behind, instanceAt_behind] <;> rfl

theorem hookLevels_behind (hv : veil.hooks = false) (w : World Code σ) (x : Receiver) :
    (w.behind veil).hookLevels x = w.hookLevels x := by
  cases x <;> simp only [hookLevels, lineage_behind, classAt_behind, stateAt_behind,
    instanceAt_behind, Veil.ofClass, Veil.ofState, Veil.ofInstance, hv, Veil.cover_false]

@[simp] theorem methodsAt_behind (w : World Code σ) (x : Receiver) :
    (w.behind veil).methodsAt x = w.methodsAt x := by
  cases x with
  | ofInstance i => exact congrArg (·.methods) (stateAt_behind w i)
  | ofClass k => exact congrArg (·.methods) (classAt_behind w k)

@[simp] theorem definition?_behind (w : World Code σ) (side : Side) (k : ClassId) (name : String) :
    (w.behind veil).definition? side k name = w.definition? side k name := by
  simp only [definition?, lineage_behind, classAt_behind, Veil.table_ofClass]

@[simp] theorem ownMethod?_behind (w : World Code σ) (i : InstanceId) (name : String) :
    (w.behind veil).ownMethod? i name = w.ownMethod? i name := by
  simp only [ownMethod?, stateAt_behind]
  rfl

@[simp] theorem classVarsOf_behind (w : World Code σ) (x : Receiver) :
    (w.behind veil).classVarsOf x = w.classVarsOf x := by
  cases x with
  | ofInstance i => exact congrArg (·.classVars) (instanceAt_behind w i)
  | ofClass k => exact congrArg (·.classVars) (classAt_behind w k)

@[simp] theorem variablesOf_behind (w : World Code σ) (ref : StoreRef) :
    (w.behind veil).variablesOf ref = w.variablesOf ref := by
  cases ref with
  | instanceVars i => exact congrArg (·.vars) (stateAt_behind w i)
  | classVars on => exact congrArg w.storeAt (classVarsOf_behind w on)

theorem behind_modifyClass {k : ClassId} {f g : ClassRecord Code → ClassRecord Code}
    (h : ∀ c, veil.ofClass (f c) = g (veil.ofClass c)) (w : World Code σ) :
    (w.modifyClass k f).behind veil = (w.behind veil).modifyClass k g := by
  simp only [behind, modifyClass, Registry.map_modify h]

theorem behind_modifyInstance {i : InstanceId} {f g : InstanceRecord Code → InstanceRecord Code}
    (h : ∀ r, veil.ofInstance (f r) = g (veil.ofInstance r)) (w : World Code σ) :
    (w.modifyInstance i f).behind veil = (w.behind veil).modifyInstance i g := by
  simp only [behind, modifyInstance, Registry.map_modify h]

theorem behind_modifyState {i : InstanceId} {f g : ObjectState Code → ObjectState Code}
    (h : ∀ s, veil.ofState (f s) = g (veil.ofState s)) (w : World Code σ) :
    (w.modifyState i f).behind veil = (w.behind veil).modifyState i g := by
  refine behind_modifyInstance (fun r => ?_) w
  simp only [Veil.ofInstance, h]

theorem behind_modifyClass_self {k : ClassId} {f : ClassRecord Code → ClassRecord Code}
    (h : ∀ c, veil.ofClass (f c) = veil.ofClass c) (w : World Code σ) :
    (w.modifyClass k f).behind veil = w.behind veil := by
  simp only [behind, modifyClass, Registry.map_modify_self h]

theorem behind_modifyState_self {i : InstanceId} {f : ObjectState Code → ObjectState Code}
    (h : ∀ s, veil.ofState (f s) = veil.ofState s) (w : World Code σ) :
    (w.modifyState i f).behind veil = w.behind veil := by
  have hr : ∀ r : InstanceRecord Code,
      veil.ofInstance { r with state := f r.state } = veil.ofInstance r := by
    intro r
    simp only [Veil.ofInstance, h]
  simp only [behind, modifyState, modifyInstance, Registry.map_modify_self hr]

section Hidden
variable (hv : veil.caches = true)
include hv

theorem putClassCache_hidden (w : World Code σ) (side : Side) (k : ClassId)
    (cache : LookupCache Code) : (w.putClassCache side k cache).behind veil = w.behind veil := by
  refine behind_modifyClass_self (fun c => ?_) w
  cases side <;> simp [ClassRecord.withCache, Veil.ofClass, hv]

theorem putInstanceCache_hidden (w : World Code σ) (i : InstanceId) (cache : LookupCache Code) :
    (w.putInstanceCache i cache).behind veil = w.behind veil := by
  refine behind_modifyState_self (f := fun s => { s with cache }) (fun s => ?_) w
  simp [Veil.ofState, hv]

theorem lookUpFrom_hidden (w : World Code σ) (side : Side) (k : ClassId) (name : String) :
    (w.lookUpFrom side k name).2.behind veil = w.behind veil := by
  unfold lookUpFrom
  split
  · simp only [LookupCache.consult]
    cases ((w.classAt k).cacheOf side).peek name (w.lineageStamp k) with
    | some r => exact putClassCache_hidden hv w side k _
    | none => exact putClassCache_hidden hv w side k _
  · rfl

theorem searchInstance_hidden (w : World Code σ) (i : InstanceId) (name : String) :
    (w.searchInstance i name).2.behind veil = w.behind veil := by
  unfold searchInstance
  split
  · rfl
  · exact lookUpFrom_hidden hv w _ _ _

theorem lookUpInstance_hidden (w : World Code σ) (i : InstanceId) (name : String) :
    (w.lookUpInstance i name).2.behind veil = w.behind veil := by
  unfold lookUpInstance
  split
  · simp only [LookupCache.consult]
    cases (w.stateAt i).cache.peek name (w.stampOf (.ofInstance i)) with
    | some r => exact putInstanceCache_hidden hv w i _
    | none => exact (putInstanceCache_hidden hv _ i _).trans (searchInstance_hidden hv w i name)
  · exact searchInstance_hidden hv w i name

theorem lookUp_hidden (w : World Code σ) (on : Receiver) (name : String) :
    (w.lookUp on name).2.behind veil = w.behind veil := by
  cases on with
  | ofInstance i => exact lookUpInstance_hidden hv w i name
  | ofClass k => exact lookUpFrom_hidden hv w _ k name

theorem lookUpAboveClass_hidden (w : World Code σ) (side : Side) (k above : ClassId)
    (name : String) : (w.lookUpAboveClass side k above name).2.behind veil = w.behind veil := by
  unfold lookUpAboveClass
  split
  · exact lookUpFrom_hidden hv w _ _ _
  · rfl

theorem lookUpAbove_hidden (w : World Code σ) (on : Receiver) (level : Level) (name : String) :
    (w.lookUpAbove on level name).2.behind veil = w.behind veil := by
  unfold lookUpAbove
  split
  · split
    · rfl
    · exact lookUpFrom_hidden hv w _ _ _
  · exact lookUpFrom_hidden hv w _ _ _
  · exact lookUpAboveClass_hidden hv w _ _ _ _
  · exact lookUpAboveClass_hidden hv w _ _ _ _
  · rfl

theorem superLevel_hidden (w : World Code σ) (on : Receiver) (name : String) :
    (w.superLevel on name).2.behind veil = w.behind veil := by
  unfold superLevel
  split
  · rfl
  · exact lookUp_hidden hv w on name

theorem lookUpSuper_hidden (w : World Code σ) (on : Receiver) (name : String) :
    (w.lookUpSuper on name).2.behind veil = w.behind veil := by
  have h := superLevel_hidden hv w on name
  unfold lookUpSuper
  generalize w.superLevel on name = r at h
  obtain ⟨_ | level, v⟩ := r
  · exact h
  · exact (lookUpAbove_hidden hv v on level name).trans h

end Hidden

section Shown
variable (hv : veil.caches = false)
include hv

theorem cacheOf_behind (w : World Code σ) (k : ClassId) (side : Side) :
    ((w.behind veil).classAt k).cacheOf side = (w.classAt k).cacheOf side := by
  rw [classAt_behind]
  cases side <;> simp [ClassRecord.cacheOf, Veil.ofClass, hv]

theorem caching_behind (w : World Code σ) (k : ClassId) :
    (w.behind veil).caching k = w.caching k := by
  simp [caching, Veil.ofClass, Veil.ofFlags, hv]

theorem putClassCache_behind (w : World Code σ) (side : Side) (k : ClassId)
    (cache : LookupCache Code) :
    (w.behind veil).putClassCache side k cache = (w.putClassCache side k cache).behind veil := by
  refine (behind_modifyClass (fun c => ?_) w).symm
  cases side <;> simp [ClassRecord.withCache, Veil.ofClass, hv]

theorem putInstanceCache_behind (w : World Code σ) (i : InstanceId) (cache : LookupCache Code) :
    (w.behind veil).putInstanceCache i cache = (w.putInstanceCache i cache).behind veil := by
  refine (behind_modifyState (f := fun s => { s with cache }) (fun s => ?_) w).symm
  simp [Veil.ofState, hv]

theorem lookUpFrom_behind (w : World Code σ) (side : Side) (k : ClassId) (name : String) :
    (w.behind veil).lookUpFrom side k name =
      (w.lookUpFrom side k name).map id (·.behind veil) := by
  simp only [lookUpFrom, caching_behind hv, cacheOf_behind hv, lineageStamp_behind,
    definition?_behind, LookupCache.consult]
  split
  · cases ((w.classAt k).cacheOf side).peek name (w.lineageStamp k) with
    | some r => exact congrArg (r, ·) (putClassCache_behind hv w side k _)
    | none => exact congrArg (_, ·) (putClassCache_behind hv w side k _)
  · rfl

theorem searchInstance_behind (w : World Code σ) (i : InstanceId) (name : String) :
    (w.behind veil).searchInstance i name = (w.searchInstance i name).map id (·.behind veil) := by
  simp only [searchInstance, ownMethod?_behind]
  cases w.ownMethod? i name with
  | some d => rfl
  | none =>
    rw [instanceAt_behind]
    exact lookUpFrom_behind hv w _ _ name

theorem lookUpInstance_behind (w : World Code σ) (i : InstanceId) (name : String) :
    (w.behind veil).lookUpInstance i name = (w.lookUpInstance i name).map id (·.behind veil) := by
  have hc : ((w.behind veil).stateAt i).cache = (w.stateAt i).cache := by
    simp [Veil.ofState, hv]
  have hk : ((w.behind veil).instanceAt i).classId = (w.instanceAt i).classId :=
    classOf_behind w (.ofInstance i)
  simp only [lookUpInstance, hc, hk, caching_behind hv, stampOf_behind, LookupCache.consult,
    searchInstance_behind hv]
  split
  · cases (w.stateAt i).cache.peek name (w.stampOf (.ofInstance i)) with
    | some r => exact congrArg (r, ·) (putInstanceCache_behind hv w i _)
    | none => exact congrArg (_, ·) (putInstanceCache_behind hv _ i _)
  · rfl

theorem lookUp_behind (w : World Code σ) (on : Receiver) (name : String) :
    (w.behind veil).lookUp on name = (w.lookUp on name).map id (·.behind veil) := by
  cases on with
  | ofInstance i => exact lookUpInstance_behind hv w i name
  | ofClass k => exact lookUpFrom_behind hv w _ k name

theorem lookUpAboveClass_behind (w : World Code σ) (side : Side) (k above : ClassId)
    (name : String) :
    (w.behind veil).lookUpAboveClass side k above name =
      (w.lookUpAboveClass side k above name).map id (·.behind veil) := by
  have hp : (w.behind veil).parentWithin? k above = w.parentWithin? k above := by
    rw [parentWithin?, descendsFrom_behind, classAt_behind]
    rfl
  simp only [lookUpAboveClass, hp]
  cases w.parentWithin? k above with
  | some p => exact lookUpFrom_behind hv w side p name
  | none => rfl

theorem lookUpAbove_behind (w : World Code σ) (on : Receiver) (level : Level) (name : String) :
    (w.behind veil).lookUpAbove on level name =
      (w.lookUpAbove on level name).map id (·.behind veil) := by
  cases on with
  | ofInstance i =>
    have hm : ((w.behind veil).stateAt i).methods = (w.stateAt i).methods :=
      methodsAt_behind w (.ofInstance i)
    have hk : ((w.behind veil).instanceAt i).classId = (w.instanceAt i).classId :=
      classOf_behind w (.ofInstance i)
    cases level with
    | singleton =>
      simp only [lookUpAbove, hm, hk]
      cases (w.stateAt i).methods.find? name with
      | some m => rfl
      | none => exact lookUpFrom_behind hv w _ _ name
    | own =>
      simp only [lookUpAbove, hk]
      exact lookUpFrom_behind hv w _ _ name
    | ofClass k =>
      simp only [lookUpAbove, hk]
      exact lookUpAboveClass_behind hv w _ _ k name
  | ofClass c =>
    cases level with
    | ofClass k => exact lookUpAboveClass_behind hv w _ c k name
    | _ => rfl

theorem superLevel_behind (hf : veil.frames = false) (w : World Code σ) (on : Receiver)
    (name : String) :
    (w.behind veil).superLevel on name = (w.superLevel on name).map id (·.behind veil) := by
  have hr : (w.behind veil).runningLevel? on name = w.runningLevel? on name := by
    simp only [runningLevel?, behind, hf, Veil.cover_false]
  simp only [superLevel, hr, lookUp_behind hv]
  cases w.runningLevel? on name <;> rfl

theorem lookUpSuper_behind (hf : veil.frames = false) (w : World Code σ) (on : Receiver)
    (name : String) :
    (w.behind veil).lookUpSuper on name = (w.lookUpSuper on name).map id (·.behind veil) := by
  rw [lookUpSuper, superLevel_behind hv hf, lookUpSuper]
  generalize w.superLevel on name = r
  obtain ⟨_ | level, v⟩ := r
  · rfl
  · exact lookUpAbove_behind hv v on level name

end Shown

end World
end ObjectModel
