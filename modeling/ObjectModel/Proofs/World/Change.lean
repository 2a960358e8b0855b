import ObjectModel.Proofs.Lookup.Validity
import ObjectModel.World.Definition

/-!
# What changes in a world

A change does one of four things to what lookups read: nothing, a new entry in
a cache, a redefinition of one receiver under a new stamp, or a blank state for
one instance. Each of them keeps worlds sound, and methods under their own
names.
-/
namespace ObjectModel
variable {Code σ : Type}

/-- The part of a class that lookups read. -/
def ClassRecord.lookupPart (c : ClassRecord Code) : ClassRecord Code :=
  { c with
    name := ""
    classVars := ⟨0⟩
    handler := none
    hooks := {}
    aliases := {}
    pool := none
    flags := {} }

/-- The part of a state that lookups read. -/
def ObjectState.lookupPart (s : ObjectState Code) : ObjectState Code :=
  { s with vars := {}, hooks := {}, aliases := {}, handler := none }

/-- The part of an instance that lookups read. -/
def InstanceRecord.lookupPart (r : InstanceRecord Code) : InstanceRecord Code :=
  { r with classVars := ⟨0⟩, state := r.state.lookupPart, pool := none }

/-- What is left of a cache that forgets, apart from the number of times that it
has done so. -/
def LookupCache.standing (c : LookupCache Code) : LookupCache Code :=
  { c with entries := {}, counters := { c.counters with invalidations := 0 } }

theorem ClassRecord.table_lookupPart (c : ClassRecord Code) (side : Side) :
    c.lookupPart.table side = c.table side := by
  cases side <;> rfl

theorem ClassRecord.cacheOf_lookupPart (c : ClassRecord Code) (side : Side) :
    c.lookupPart.cacheOf side = c.cacheOf side := by
  cases side <;> rfl

/-- Every method stands under its own name, on a given side. -/
def MethodDictionary.Named (t : MethodDictionary Code) (side : Side) : Prop :=
  ∀ name m, t.find? name = some m → m.name = name ∧ m.side = side

theorem MethodDictionary.named_empty (side : Side) : Named ({} : MethodDictionary Code) side := by
  intro name m h
  contradiction

theorem MethodDictionary.Named.define {t : MethodDictionary Code} {side : Side}
    (h : t.Named side) (m : Method Code) (name : String) :
    (t.define (m.named name side)).Named side := by
  intro other m' hm
  rw [MethodDictionary.define, Table.find?_insert] at hm
  split at hm
  · next he =>
    obtain rfl := Option.some.inj hm
    exact ⟨he.symm, rfl⟩
  · exact h other m' hm

theorem MethodDictionary.Named.erase {t : MethodDictionary Code} {side : Side}
    (h : t.Named side) (name : String) : Named (t.erase name) side := by
  intro other m hm
  rw [Table.find?_erase] at hm
  split at hm
  · contradiction
  · exact h other m hm

/-- Both tables of a class hold methods under their own names. -/
def ClassRecord.Named (c : ClassRecord Code) : Prop := ∀ side, (c.table side).Named side

/-- Both tables of a state hold methods under their own names. -/
def ObjectState.Named (s : ObjectState Code) : Prop :=
  s.methods.Named .instanceSide ∧ s.singletonMethods.Named .instanceSide

theorem ObjectState.named_new : (new : ObjectState Code).Named :=
  ⟨MethodDictionary.named_empty _, MethodDictionary.named_empty _⟩

namespace World
variable {w v u : World Code σ}

/-- Every table of methods holds them under their own names. -/
structure Named (w : World Code σ) : Prop where
  classes : ∀ k, (w.classAt k).Named
  states : ∀ i, (w.stateAt i).Named

/-- What lookups read of a class is the same. -/
theorem classAt_congr {k : ClassId} (h : (v.classAt k).lookupPart = (w.classAt k).lookupPart) :
    v.parentOf k = w.parentOf k ∧ (∀ side, (v.classAt k).table side = (w.classAt k).table side) ∧
      (∀ side, (v.classAt k).cacheOf side = (w.classAt k).cacheOf side) ∧
      (v.classAt k).version = (w.classAt k).version := by
  refine ⟨congrArg (·.parent) h, fun side => ?_, fun side => ?_, congrArg (·.version) h⟩
  · rw [← ClassRecord.table_lookupPart, h, ClassRecord.table_lookupPart]
  · rw [← ClassRecord.cacheOf_lookupPart, h, ClassRecord.cacheOf_lookupPart]

/-- Lookups for a receiver read the same in both worlds. -/
structure SameFor (x : Receiver) (w v : World Code σ) : Prop where
  classes : ∀ a ∈ w.lineage (w.classOf x), (v.classAt a).lookupPart = (w.classAt a).lookupPart
  own : ∀ i, x = .ofInstance i → (v.instanceAt i).lookupPart = (w.instanceAt i).lookupPart

namespace SameFor
variable {x : Receiver} {i : InstanceId} {k : ClassId}

theorem ofClass (h : SameFor (.ofInstance i) w v) : SameFor (.ofClass (w.instanceAt i).classId) w v :=
  ⟨h.classes, fun _ he => by contradiction⟩

theorem classId (h : SameFor (.ofInstance i) w v) :
    (v.instanceAt i).classId = (w.instanceAt i).classId :=
  congrArg (·.classId) (h.own i rfl)

theorem chain (h : SameFor (.ofClass k) w v) (hw : w.Rooted) : Chain v.parentOf k (w.lineage k) :=
  (hw.chain k).congr fun a ha => (classAt_congr (h.classes a ha)).1

theorem lineage (h : SameFor (.ofClass k) w v) (hw : w.Rooted) : v.lineage k = w.lineage k :=
  lineage_eq (h.chain hw)

theorem lineageStamp (h : SameFor (.ofClass k) w v) (hw : w.Rooted) :
    v.lineageStamp k = w.lineageStamp k := by
  rw [World.lineageStamp, World.lineageStamp, h.lineage hw]
  congr 1
  exact List.map_congr_left fun a ha => (classAt_congr (h.classes a ha)).2.2.2

theorem definition? (h : SameFor (.ofClass k) w v) (hw : w.Rooted) (side : Side) :
    v.definition? side k = w.definition? side k := by
  funext name
  rw [World.definition?, World.definition?, h.lineage hw, ← List.head?_filterMap,
    ← List.head?_filterMap]
  congr 1
  refine List.filterMap_congr fun a ha => ?_
  rw [(classAt_congr (h.classes a ha)).2.1]

theorem stampOf (h : SameFor x w v) (hw : w.Rooted) : v.stampOf x = w.stampOf x := by
  cases x with
  | ofInstance i =>
    have hv : (v.stateAt i).version = (w.stateAt i).version :=
      congrArg (·.state.version) (h.own i rfl)
    rw [World.stampOf, World.stampOf, hv, h.classId, h.ofClass.lineageStamp hw]
  | ofClass k => exact h.lineageStamp hw

theorem nearest? (h : SameFor x w v) (hw : w.Rooted) : v.nearest? x = w.nearest? x := by
  cases x with
  | ofInstance i =>
    funext name
    have hm : (v.stateAt i).methods = (w.stateAt i).methods := congrArg (·.state.methods) (h.own i rfl)
    have hs : (v.stateAt i).singletons = (w.stateAt i).singletons :=
      congrArg (·.state.singletons) (h.own i rfl)
    simp only [World.nearest?, ownMethod?, ObjectState.singletonMethods, hm, hs, h.classId,
      h.ofClass.definition? hw]
  | ofClass k =>
    funext name
    rw [World.nearest?, World.nearest?, h.definition? hw]

end SameFor

/-- Lookups read the same in both worlds. -/
structure Quiet (w v : World Code σ) : Prop where
  has : ∀ x, w.Has x → v.Has x
  clock : w.clock.latest ≤ v.clock.latest
  classes : ∀ k, (v.classAt k).lookupPart = (w.classAt k).lookupPart
  instances : ∀ i, (v.instanceAt i).lookupPart = (w.instanceAt i).lookupPart

theorem Quiet.refl (w : World Code σ) : Quiet w w :=
  ⟨fun _ => id, Nat.le_refl _, fun _ => rfl, fun _ => rfl⟩

theorem Quiet.trans (h : Quiet w v) (h' : Quiet v u) : Quiet w u :=
  ⟨fun x hx => h'.has x (h.has x hx), Nat.le_trans h.clock h'.clock,
    fun k => (h'.classes k).trans (h.classes k), fun i => (h'.instances i).trans (h.instances i)⟩

theorem quiet_of_records (hc : v.classes = w.classes) (hi : v.instances = w.instances)
    (hl : v.clock = w.clock) : Quiet w v := by
  refine ⟨fun x hx => ?_, Nat.le_of_eq (by rw [hl]), fun k => ?_, fun i => ?_⟩
  · cases x with
    | ofInstance i => rwa [Has, hi]
    | ofClass k => rwa [Has, hc]
  · rw [classAt, hc, classAt]
  · rw [instanceAt, hi, instanceAt]

theorem quiet_modifyClass {f : ClassRecord Code → ClassRecord Code}
    (hf : ∀ c, (f c).lookupPart = c.lookupPart) (w : World Code σ) (k : ClassId) :
    Quiet w (w.modifyClass k f) :=
  ⟨fun x => (has_modifyClass k f x).mpr, Nat.le_refl _,
    fun a => classAt_modifyClass_congr _ hf k a, fun _ => rfl⟩

theorem quiet_modifyState {f : ObjectState Code → ObjectState Code}
    (hf : ∀ s, (f s).lookupPart = s.lookupPart) (w : World Code σ) (i : InstanceId) :
    Quiet w (w.modifyState i f) := by
  refine ⟨fun x => (has_modifyInstance i _ x).mpr, Nat.le_refl _, fun _ => rfl, fun j => ?_⟩
  refine instanceAt_modifyInstance_congr InstanceRecord.lookupPart (fun r => ?_) i j
  simp only [InstanceRecord.lookupPart, hf]

theorem Quiet.sameFor (h : Quiet w v) (x : Receiver) : SameFor x w v :=
  ⟨fun a _ => h.classes a, fun i _ => h.instances i⟩

theorem Quiet.sound (h : Quiet w v) (hw : w.Sound) : v.Sound where
  rooted := hw.rooted.congr (funext fun k => (classAt_congr (h.classes k)).1)
  classVersion k := by
    rw [(classAt_congr (h.classes k)).2.2.2]
    exact Nat.le_trans (hw.classVersion k) h.clock
  stateVersion i := by
    have hv : (v.stateAt i).version = (w.stateAt i).version :=
      congrArg (·.state.version) (h.instances i)
    rw [hv]
    exact Nat.le_trans (hw.stateVersion i) h.clock
  classCache k side := by
    have hk := h.sameFor (.ofClass k)
    rw [(classAt_congr (h.classes k)).2.2.1, hk.lineageStamp hw.rooted, hk.definition? hw.rooted]
    exact (hw.classCache k side).mono h.clock
  stateCache i := by
    have hi := h.sameFor (.ofInstance i)
    have hc : (v.stateAt i).cache = (w.stateAt i).cache := congrArg (·.state.cache) (h.instances i)
    rw [hc, hi.stampOf hw.rooted, hi.nearest? hw.rooted]
    exact (hw.stateCache i).mono h.clock

theorem named_of_lookupPart {i : InstanceId}
    (h : (v.instanceAt i).lookupPart = (w.instanceAt i).lookupPart) (hw : (w.stateAt i).Named) :
    (v.stateAt i).Named := by
  have hm : (v.stateAt i).methods = (w.stateAt i).methods := congrArg (·.state.methods) h
  have hs : (v.stateAt i).singletons = (w.stateAt i).singletons :=
    congrArg (·.state.singletons) h
  unfold ObjectState.Named ObjectState.singletonMethods
  rw [hm, hs]
  exact hw

theorem Quiet.named (h : Quiet w v) (hw : w.Named) : v.Named where
  classes k side := by
    rw [(classAt_congr (h.classes k)).2.1]
    exact hw.classes k side
  states i := named_of_lookupPart (h.instances i) (hw.states i)

/-- The version of a receiver itself. -/
def versionOf (w : World Code σ) : Receiver → Nat
  | .ofInstance i => (w.stateAt i).version
  | .ofClass k => (w.classAt k).version

/-- Whether a receiver is another one, or follows its lineage. -/
def Inherits (w : World Code σ) (x on : Receiver) : Prop :=
  on = x ∨ ∃ k ∈ w.lineage (w.classOf x), on = .ofClass k

/-- One receiver has been redefined and has taken a new stamp. -/
structure Redefined (on : Receiver) (w v : World Code σ) : Prop where
  clock : v.clock.latest = w.clock.latest + 1
  version : v.versionOf on = v.clock.latest
  classes : ∀ k, .ofClass k ≠ on → (v.classAt k).lookupPart = (w.classAt k).lookupPart
  instances : ∀ i, .ofInstance i ≠ on → (v.instanceAt i).lookupPart = (w.instanceAt i).lookupPart
  classOf : v.classOf on = w.classOf on
  rooted : ∃ l, Chain v.parentOf (w.classOf on) l
  classCache : ∀ k side,
    ((v.classAt k).cacheOf side).standing = ((w.classAt k).cacheOf side).standing
  stateCache : ∀ i, (v.stateAt i).cache.standing = (w.stateAt i).cache.standing
  classBlank : ∀ k side, .ofClass k = on → ((v.classAt k).cacheOf side).entries = {}
  stateBlank : ∀ i, .ofInstance i = on → (v.stateAt i).cache.entries = {}
  classNamed : ∀ k, (w.classAt k).Named → (v.classAt k).Named
  stateNamed : ∀ i, (w.stateAt i).Named → (v.stateAt i).Named

namespace Redefined
variable {on x : Receiver}

theorem sameFor (h : Redefined on w v) (hx : ¬ w.Inherits x on) : SameFor x w v := by
  refine ⟨fun a ha => h.classes a ?_, fun i hi => h.instances i ?_⟩
  · rintro rfl
    exact hx (.inr ⟨a, ha, rfl⟩)
  · rintro rfl
    exact hx (.inl hi.symm)

theorem classOf_eq (h : Redefined on w v) (x : Receiver) : v.classOf x = w.classOf x := by
  by_cases hx : x = on
  · rw [hx, h.classOf]
  · cases x with
    | ofInstance i => exact congrArg (·.classId) (h.instances i hx)
    | ofClass k => rfl

/-- From the redefined class on a lineage may be another one. -/
theorem chain (h : Redefined on w v) (hw : w.Rooted) (k : ClassId) :
    ∃ l, Chain v.parentOf k l ∧ ∀ o, on = .ofClass o → (o ∈ l ↔ o ∈ w.lineage k) := by
  obtain ⟨m, hm⟩ := h.rooted
  have same : ∀ a, .ofClass a ≠ on → v.parentOf a = w.parentOf a :=
    fun a ha => (classAt_congr (h.classes a ha)).1
  cases on with
  | ofInstance i =>
    exact ⟨_, (hw.chain k).congr fun a _ => same a (by simp), fun o ho => by contradiction⟩
  | ofClass c =>
    refine ⟨_, (hw.chain k).redirect (fun a ha => same a (mt Receiver.ofClass.inj ha)) hm, ?_⟩
    rintro o ⟨⟩
    exact hm.redirect_mem

theorem rooted_of (h : Redefined on w v) (hw : w.Rooted) : v.Rooted := fun k =>
  (h.chain hw k).imp fun _ hl => hl.1

theorem mem_lineage_iff (h : Redefined on w v) (hw : w.Rooted) {k o : ClassId}
    (ho : on = .ofClass o) : o ∈ v.lineage k ↔ o ∈ w.lineage k := by
  obtain ⟨l, hl, hm⟩ := h.chain hw k
  rw [lineage_eq hl, hm o ho]

theorem inherits_iff (h : Redefined on w v) (hw : w.Rooted) : v.Inherits x on ↔ w.Inherits x on := by
  unfold Inherits
  rw [h.classOf_eq]
  refine or_congr_right (exists_congr fun k => and_congr_left fun hk => ?_)
  exact h.mem_lineage_iff hw hk

/-- Whoever inherits from what was redefined has a later stamp than any from
before. -/
theorem stampOf_later (h : Redefined on w v) (hw : w.Rooted) (hx : w.Inherits x on) :
    w.clock.latest < v.stampOf x := by
  have hv : w.clock.latest < v.versionOf on := by
    rw [h.version, h.clock]
    exact Nat.lt_succ_self _
  rcases (h.inherits_iff hw).mpr hx with rfl | ⟨k, hk, rfl⟩
  · cases on with
    | ofInstance i => exact Nat.lt_of_lt_of_le hv (Nat.le_max_left _ _)
    | ofClass k => exact Nat.lt_of_lt_of_le hv (version_le_lineageStamp ((h.rooted_of hw).chain k).head_mem)
  · have hs := Nat.lt_of_lt_of_le hv (version_le_lineageStamp hk)
    cases x with
    | ofInstance i => exact Nat.lt_of_lt_of_le hs (Nat.le_max_right _ _)
    | ofClass c => exact hs

theorem version_le (h : Redefined on w v) (x : Receiver) (hx : w.versionOf x ≤ w.clock.latest) :
    v.versionOf x ≤ v.clock.latest := by
  by_cases ho : x = on
  · exact Nat.le_of_eq (ho ▸ h.version)
  · have hv : v.versionOf x = w.versionOf x := by
      cases x with
      | ofInstance i => exact congrArg (·.state.version) (h.instances i ho)
      | ofClass k => exact (classAt_congr (h.classes k ho)).2.2.2
    rw [hv, h.clock]
    exact Nat.le_succ_of_le hx

theorem sound (h : Redefined on w v) (hw : w.Sound) : v.Sound where
  rooted := h.rooted_of hw.rooted
  classVersion k := h.version_le (.ofClass k) (hw.classVersion k)
  stateVersion i := h.version_le (.ofInstance i) (hw.stateVersion i)
  classCache k side := by
    have hl : w.clock.latest ≤ v.clock.latest := h.clock ▸ Nat.le_succ _
    by_cases hx : w.Inherits (.ofClass k) on
    · -- All that the cache holds is from before the redefinition.
      have same : ((v.classAt k).cacheOf side).validAt = ((w.classAt k).cacheOf side).validAt :=
        congrArg (·.validAt) (h.classCache k side)
      have ho := Nat.le_trans (Nat.le_of_eq same) (hw.classCache k side).observed
      exact .of_lt (Nat.lt_of_le_of_lt ho (h.stampOf_later hw.rooted hx)) (Nat.le_trans ho hl)
    · have hk := h.sameFor hx
      have hc := (classAt_congr (h.classes k fun he => hx (.inl he.symm))).2.2.1
      rw [hc, hk.lineageStamp hw.rooted, hk.definition? hw.rooted]
      exact (hw.classCache k side).mono hl
  stateCache i := by
    have hl : w.clock.latest ≤ v.clock.latest := h.clock ▸ Nat.le_succ _
    by_cases hx : w.Inherits (.ofInstance i) on
    · have same : (v.stateAt i).cache.validAt = (w.stateAt i).cache.validAt :=
        congrArg (·.validAt) (h.stateCache i)
      have ho := Nat.le_trans (Nat.le_of_eq same) (hw.stateCache i).observed
      exact .of_lt (Nat.lt_of_le_of_lt ho (h.stampOf_later hw.rooted hx)) (Nat.le_trans ho hl)
    · have hi := h.sameFor hx
      have hc : (v.stateAt i).cache = (w.stateAt i).cache :=
        congrArg (·.state.cache) (h.instances i fun he => hx (.inl he.symm))
      rw [hc, hi.stampOf hw.rooted, hi.nearest? hw.rooted]
      exact (hw.stateCache i).mono hl

theorem named (h : Redefined on w v) (hw : w.Named) : v.Named :=
  ⟨fun k => h.classNamed k (hw.classes k), fun i => h.stateNamed i (hw.states i)⟩

end Redefined

/-- One instance has a blank state, and perhaps another class. -/
structure Renewed (i : InstanceId) (w v : World Code σ) : Prop where
  has : ∀ x, w.Has x → v.Has x
  clock : v.clock = w.clock
  classes : ∀ k, (v.classAt k).lookupPart = (w.classAt k).lookupPart
  instances : ∀ j, j ≠ i → (v.instanceAt j).lookupPart = (w.instanceAt j).lookupPart
  state : (v.stateAt i).lookupPart = ObjectState.new

namespace Renewed
variable {i : InstanceId} {x : Receiver}

theorem sameFor (h : Renewed i w v) (hx : x ≠ .ofInstance i) : SameFor x w v := by
  refine ⟨fun a _ => h.classes a, fun j hj => h.instances j ?_⟩
  rintro rfl
  exact hx hj

theorem sound (h : Renewed i w v) (hw : w.Sound) : v.Sound where
  rooted := hw.rooted.congr (funext fun k => (classAt_congr (h.classes k)).1)
  classVersion k := by
    rw [(classAt_congr (h.classes k)).2.2.2, h.clock]
    exact hw.classVersion k
  stateVersion j := by
    by_cases hj : j = i
    · have hv : (v.stateAt j).version = 0 := by
        rw [hj]
        exact congrArg (·.version) h.state
      rw [hv]
      exact Nat.zero_le _
    · have hv : (v.stateAt j).version = (w.stateAt j).version :=
        congrArg (·.state.version) (h.instances j hj)
      rw [hv, h.clock]
      exact hw.stateVersion j
  classCache k side := by
    have hk : SameFor (.ofClass k) w v := h.sameFor (by simp)
    rw [(classAt_congr (h.classes k)).2.2.1, hk.lineageStamp hw.rooted, hk.definition? hw.rooted,
      h.clock]
    exact hw.classCache k side
  stateCache j := by
    by_cases hj : j = i
    · have hc : (v.stateAt j).cache = {} := by
        rw [hj]
        exact congrArg (·.cache) h.state
      rw [hc]
      exact .of_empty rfl (Nat.zero_le _)
    · have hk : SameFor (.ofInstance j) w v := h.sameFor (by simpa using hj)
      have hc : (v.stateAt j).cache = (w.stateAt j).cache :=
        congrArg (·.state.cache) (h.instances j hj)
      rw [hc, hk.stampOf hw.rooted, hk.nearest? hw.rooted, h.clock]
      exact hw.stateCache j

theorem named (h : Renewed i w v) (hw : w.Named) : v.Named where
  classes k side := by
    rw [(classAt_congr (h.classes k)).2.1]
    exact hw.classes k side
  states j := by
    by_cases hj : j = i
    · have hm : (v.stateAt j).methods = {} := by
        rw [hj]
        exact congrArg (·.methods) h.state
      have hs : (v.stateAt j).singletons = none := by
        rw [hj]
        exact congrArg (·.singletons) h.state
      unfold ObjectState.Named ObjectState.singletonMethods
      rw [hm, hs]
      exact ObjectState.named_new
    · exact named_of_lookupPart (h.instances j hj) (hw.states j)

end Renewed

theorem Recalled.has (h : Recalled w v) (x : Receiver) (hx : w.Has x) : v.Has x := by
  rwa [← has_bare, h.same, has_bare]

theorem Recalled.named (h : Recalled w v) (hw : w.Named) : v.Named where
  classes k side := by
    rw [← table_bare, bare_classAt h.same, table_bare]
    exact hw.classes k side
  states i := by
    have he := bare_instanceAt h.same i
    have hm : (v.stateAt i).methods = (w.stateAt i).methods := congrArg (·.state.methods) he
    have hs : (v.stateAt i).singletons = (w.stateAt i).singletons :=
      congrArg (·.state.singletons) he
    unfold ObjectState.Named ObjectState.singletonMethods
    rw [hm, hs]
    exact hw.states i

/-- A receiver has been redefined, if it is there. -/
structure Touched (on : Receiver) (w v : World Code σ) : Prop where
  has : ∀ x, v.Has x ↔ w.Has x
  redefined : w.Has on → Redefined on w v
  quiet : ¬ w.Has on → Quiet w v

theorem Touched.sound {on : Receiver} (h : Touched on w v) (hw : w.Sound) : v.Sound := by
  by_cases ho : w.Has on
  · exact (h.redefined ho).sound hw
  · exact (h.quiet ho).sound hw

theorem Touched.named {on : Receiver} (h : Touched on w v) (hw : w.Named) : v.Named := by
  by_cases ho : w.Has on
  · exact (h.redefined ho).named hw
  · exact (h.quiet ho).named hw

/-- No receiver has been redefined, and no instance but the given one has a
blank state. -/
inductive Idle (spared : Option InstanceId) (w v : World Code σ) : Prop
  | quiet (h : Quiet w v)
  | recalled (h : Recalled w v)
  | renewed (i : InstanceId) (hi : spared = some i) (h : Renewed i w v)

/-- Nothing has been looked up either. -/
inductive Calm (spared : Option InstanceId) (w v : World Code σ) : Prop
  | quiet (h : Quiet w v)
  | renewed (i : InstanceId) (hi : spared = some i) (h : Renewed i w v)

theorem Calm.idle {spared : Option InstanceId} (h : Calm spared w v) : Idle spared w v := by
  cases h with
  | quiet h => exact .quiet h
  | renewed i hi h => exact .renewed i hi h

theorem Idle.has {spared : Option InstanceId} (h : Idle spared w v) (x : Receiver) (hx : w.Has x) :
    v.Has x := by
  cases h with
  | quiet h => exact h.has x hx
  | recalled h => exact h.has x hx
  | renewed i _ h => exact h.has x hx

theorem Idle.sound {spared : Option InstanceId} (h : Idle spared w v) (hw : w.Sound) : v.Sound := by
  cases h with
  | quiet h => exact h.sound hw
  | recalled h => exact h.sound hw
  | renewed i _ h => exact h.sound hw

theorem Idle.named {spared : Option InstanceId} (h : Idle spared w v) (hw : w.Named) : v.Named := by
  cases h with
  | quiet h => exact h.named hw
  | recalled h => exact h.named hw
  | renewed i _ h => exact h.named hw

end World
end ObjectModel
