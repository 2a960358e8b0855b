import ObjectModel.Proofs.Lookup.Order
import ObjectModel.Proofs.Program.Effect
import ObjectModel.Proofs.World.Veil

/-!
# Operations behind a veil

What is hidden has no effect on what is seen: whatever an operation does to a world
it does, as far as a veil shows, to every world that looks the same.
-/
namespace ObjectModel
variable {Code σ α : Type}

namespace Veil

/-- What a function makes of a world does, as far as a veil shows, not depend on
what the veil hides. -/
def Independent (veil : Veil) (f : World Code σ → World Code σ) : Prop :=
  ∀ w, (f w).behind veil = (f (w.behind veil)).behind veil

namespace Independent
variable {veil : Veil} {f g : World Code σ → World Code σ} {w v : World Code σ}

theorem congr (hf : veil.Independent f) (h : v.behind veil = w.behind veil) :
    (f v).behind veil = (f w).behind veil := by
  rw [hf v, h, ← hf w]

theorem comp (hg : veil.Independent g) (hf : veil.Independent f) :
    veil.Independent fun w => g (f w) :=
  fun w => hg.congr (hf w)

theorem id : veil.Independent fun w : World Code σ => w := fun w => (w.behind_behind).symm

theorem of_commute (h : ∀ w, f (w.behind veil) = (f w).behind veil) : veil.Independent f := by
  intro w
  rw [h, World.behind_behind]

theorem of_unseen (h : ∀ w, (f w).behind veil = w.behind veil) : veil.Independent f := by
  intro w
  rw [h, h, World.behind_behind]

theorem foldl {f : World Code σ → α → World Code σ} (hf : ∀ a, veil.Independent fun w => f w a)
    (l : List α) : veil.Independent fun w => l.foldl f w := by
  induction l with
  | nil => exact .id
  | cons a l ih => exact ih.comp (hf a)

end Independent
end Veil

namespace World
variable {veil : Veil} {w v : World Code σ}

open Veil (Independent)

theorem independent_modifyClass (k : ClassId) {f : ClassRecord Code → ClassRecord Code}
    (hf : ∀ c, veil.ofClass (f c) = f (veil.ofClass c)) :
    veil.Independent fun w : World Code σ => w.modifyClass k f :=
  .of_commute fun w => (behind_modifyClass hf w).symm

theorem independent_modifyInstance (i : InstanceId) {f : InstanceRecord Code → InstanceRecord Code}
    (hf : ∀ r, veil.ofInstance (f r) = veil.ofInstance (f (veil.ofInstance r))) :
    veil.Independent fun w : World Code σ => w.modifyInstance i f := by
  have once : ∀ u : World Code σ, (u.modifyInstance i f).behind veil =
      (u.behind veil).modifyInstance i fun r => veil.ofInstance (f r) :=
    behind_modifyInstance hf
  intro w
  simp only [once, behind_behind]

theorem independent_modifyState (i : InstanceId) {f : ObjectState Code → ObjectState Code}
    (hf : ∀ s, veil.ofState (f s) = f (veil.ofState s)) :
    veil.Independent fun w : World Code σ => w.modifyState i f :=
  .of_commute fun w => (behind_modifyState hf w).symm

theorem independent_modifyMethods (on : Receiver)
    (f : MethodDictionary Code → MethodDictionary Code) :
    veil.Independent fun w : World Code σ => w.modifyMethods on f := by
  cases on with
  | ofInstance i => exact independent_modifyState i fun _ => rfl
  | ofClass k => exact independent_modifyClass k fun _ => rfl

theorem independent_modifyAliases (on : Receiver) (f : Aliases → Aliases) :
    veil.Independent fun w : World Code σ => w.modifyAliases on f := by
  cases on with
  | ofInstance i => exact independent_modifyState i fun _ => rfl
  | ofClass k => exact independent_modifyClass k fun _ => rfl

/-- Hidden hooks stay hidden when they change. -/
theorem modifyHooks_hidden (hv : veil.hooks = true) (on : Receiver) (f : Hooks Code → Hooks Code)
    (w : World Code σ) : (w.modifyHooks on f).behind veil = w.behind veil := by
  cases on with
  | ofInstance i =>
    refine behind_modifyState_self (f := fun s => { s with hooks := f s.hooks }) (fun s => ?_) w
    simp [Veil.ofState, hv]
  | ofClass k =>
    refine behind_modifyClass_self (f := fun c => { c with hooks := f c.hooks }) (fun c => ?_) w
    simp [Veil.ofClass, hv]

theorem independent_modifyHooks (on : Receiver) (f : Hooks Code → Hooks Code) :
    veil.Independent fun w : World Code σ => w.modifyHooks on f := by
  cases hv : veil.hooks with
  | true => exact .of_unseen (modifyHooks_hidden hv on f)
  | false =>
    cases on with
    | ofInstance i =>
      refine independent_modifyState i fun s => ?_
      simp [Veil.ofState, hv]
    | ofClass k =>
      refine independent_modifyClass k fun c => ?_
      simp [Veil.ofClass, hv]

theorem ofClass_stamped (stamp : Nat) (c : ClassRecord Code) :
    veil.ofClass (c.stamped stamp) = (veil.ofClass c).stamped stamp := by
  cases hv : veil.caches <;> simp only [Veil.ofClass, ClassRecord.stamped, hv] <;> rfl

theorem ofState_stamped (stamp : Nat) (s : ObjectState Code) :
    veil.ofState (s.stamped stamp) = (veil.ofState s).stamped stamp := by
  cases hv : veil.caches <;> simp only [Veil.ofState, ObjectState.stamped, hv] <;> rfl

theorem independent_stamp (on : Receiver) :
    veil.Independent fun w : World Code σ => w.stamp on := by
  intro w
  cases on with
  | ofInstance i =>
    exact independent_modifyState i (ofState_stamped (w.clock.latest + 1)) w.ticked
  | ofClass k =>
    exact independent_modifyClass k (ofClass_stamped (w.clock.latest + 1)) w.ticked

theorem independent_defineMethod (on : Receiver) (name : String) (m : Method Code) :
    veil.Independent fun w : World Code σ => w.defineMethod on name m :=
  (independent_stamp on).comp (independent_modifyMethods on _)

theorem independent_defineClassMethod (k : ClassId) (name : String) (m : Method Code) :
    veil.Independent fun w : World Code σ => w.defineClassMethod k name m := by
  refine (independent_stamp (.ofClass k)).comp (independent_modifyClass k ?_)
  exact fun _ => rfl

theorem independent_defineSingleton (i : InstanceId) (name : String) (m : Method Code) :
    veil.Independent fun w : World Code σ => w.defineSingleton i name m := by
  refine (independent_stamp (.ofInstance i)).comp (independent_modifyState i ?_)
  exact fun _ => rfl

theorem independent_inherit (child parent : ClassId) :
    veil.Independent fun w : World Code σ => (w.inherit child parent).2 := by
  intro w
  simp only [inherit, descendsFrom_behind]
  split
  · exact (behind_behind w).symm
  · have hv : ((w.behind veil).classAt parent).classVars = (w.classAt parent).classVars :=
      classVarsOf_behind w (.ofClass parent)
    rw [hv]
    refine (independent_stamp (.ofClass child)).comp (independent_modifyClass child ?_) w
    exact fun _ => rfl

theorem independent_removeMethod (on : Receiver) (name : String) :
    veil.Independent fun w : World Code σ => (w.removeMethod on name).2 := by
  intro w
  simp only [removeMethod, methodsAt_behind]
  split
  · exact (independent_stamp on).comp (independent_modifyMethods on _) w
  · exact (behind_behind w).symm

theorem independent_setHandler (on : Receiver) (code : Code) :
    veil.Independent fun w : World Code σ => w.setHandler on code := by
  cases on with
  | ofInstance i => exact independent_modifyState i fun _ => rfl
  | ofClass k => exact independent_modifyClass k fun _ => rfl

theorem independent_applyToStore (ref : StoreRef) (op : StoreOp Code) :
    veil.Independent fun w : World Code σ => (w.applyToStore ref op).2 := by
  intro w
  simp only [applyToStore, variablesOf_behind]
  cases ref with
  | instanceVars i =>
    have address : ∀ n, veil.Independent fun w : World Code σ => { w with nextAddress := n } :=
      fun n => .of_commute fun _ => rfl
    refine (address _).comp (independent_modifyState i ?_) w
    exact fun _ => rfl
  | classVars on =>
    simp only [putVariables, classVarsOf_behind]
    exact (behind_behind _).symm

theorem behind_addClass (w : World Code σ) (c : ClassRecord Code)
    (stores : Registry (Variables Code)) :
    { w with classes := w.classes.add c, stores }.behind veil =
      { w.behind veil with classes := (w.behind veil).classes.add (veil.ofClass c), stores } := by
  simp only [behind, Registry.map_add]

theorem behind_addInstance (w : World Code σ) (r : InstanceRecord Code) :
    { w with instances := w.instances.add r }.behind veil =
      { w.behind veil with instances := (w.behind veil).instances.add (veil.ofInstance r) } := by
  simp only [behind, Registry.map_add]

theorem independent_newClass (name : String) (c : Configuration) :
    veil.Independent fun w : World Code σ => (w.newClass name c).2 := by
  intro w
  simp only [newClass, behind_addClass, behind_behind]
  have next : (w.behind veil).stores = w.stores := rfl
  rw [next]

theorem independent_newPool (capacity : Nat) :
    veil.Independent fun w : World Code σ => (w.newPool capacity).2 := by
  refine .of_commute fun w => ?_
  have hp : veil.ofPool (.ofCapacity capacity : Pool Code) = .ofCapacity capacity := Veil.cover_self ..
  simp only [newPool, behind, Registry.map_add, hp]

theorem modifyPool_poolAt (w : World Code σ) (p : PoolId) (f : Pool Code → Pool Code) :
    (w.modifyPool p fun _ => f (w.poolAt p)) = w.modifyPool p f := by
  simp only [modifyPool, poolAt, Registry.modify_getD]

/-- Hidden pools stay hidden as long as their capacities are the same. -/
theorem modifyPool_hidden (hv : veil.pools = true) (p : PoolId) {f : Pool Code → Pool Code}
    (hf : ∀ q, (f q).capacity = q.capacity) (w : World Code σ) :
    (w.modifyPool p f).behind veil = w.behind veil := by
  have hq : ∀ q, veil.ofPool (f q) = veil.ofPool q := by
    intro q
    simp [Veil.ofPool, hv, hf]
  simp only [behind, modifyPool, Registry.map_modify_self hq]

theorem independent_modifyPool (p : PoolId) {f : Pool Code → Pool Code}
    (hf : ∀ q, (f q).capacity = q.capacity) :
    veil.Independent fun w : World Code σ => w.modifyPool p f := by
  cases hv : veil.pools with
  | true => exact .of_unseen (modifyPool_hidden hv p hf)
  | false =>
    have hq : ∀ q, veil.ofPool (f q) = f (veil.ofPool q) := by
      intro q
      simp [Veil.ofPool, hv]
    refine .of_commute fun w => ?_
    simp only [behind, modifyPool, Registry.map_modify hq]

/-- A state is reset when it enters a pool, so it does not matter which one it is. -/
theorem release_snd (w : World Code σ) (p : PoolId) (s : ObjectState Code) :
    (w.release p s).2 = w.modifyPool p fun q => (q.release .new).2 := by
  rw [← modifyPool_poolAt]
  rfl

theorem clearPool_snd (w : World Code σ) (p : PoolId) :
    (w.clearPool p).2 = w.modifyPool p fun q => q.clear.2 := by
  rw [← modifyPool_poolAt]
  rfl

theorem acquire_eq (w : World Code σ) (p : PoolId) :
    w.acquire p = (.new, w.modifyPool p fun q => q.acquire.2) := by
  rw [← modifyPool_poolAt]
  exact Prod.ext (w.poolAt p).acquire_fst rfl

theorem capacity_acquire (p : Pool Code) : p.acquire.2.capacity = p.capacity := by
  unfold Pool.acquire
  split <;> rfl

theorem capacity_release (p : Pool Code) : (p.release .new).2.capacity = p.capacity := by
  unfold Pool.release
  split <;> rfl

theorem independent_acquire (p : PoolId) :
    veil.Independent fun w : World Code σ => (w.acquire p).2 := by
  simp only [acquire_eq]
  exact independent_modifyPool p capacity_acquire

theorem independent_release (p : PoolId) (s : ObjectState Code) :
    veil.Independent fun w : World Code σ => (w.release p s).2 := by
  simp only [release_snd]
  exact independent_modifyPool p capacity_release

theorem independent_clearPool (p : PoolId) :
    veil.Independent fun w : World Code σ => (w.clearPool p).2 := by
  simp only [clearPool_snd]
  refine independent_modifyPool p ?_
  exact fun _ => rfl

theorem usePool_hidden (hv : veil.pools = true) (k : ClassId) (p : PoolId) (w : World Code σ) :
    (w.usePool k p).behind veil = w.behind veil := by
  refine behind_modifyClass_self (fun c => ?_) w
  simp [Veil.ofClass, Veil.ofFlags, hv]

theorem independent_usePool (k : ClassId) (p : PoolId) :
    veil.Independent fun w : World Code σ => w.usePool k p := by
  cases hv : veil.pools with
  | true => exact .of_unseen (usePool_hidden hv k p)
  | false =>
    refine independent_modifyClass k fun c => ?_
    simp [Veil.ofClass, Veil.ofFlags, hv]

theorem poolFor?_behind (hv : veil.pools = false) (w : World Code σ) (k : ClassId) :
    (w.behind veil).poolFor? k = w.poolFor? k := by
  simp [poolFor?, Veil.ofClass, Veil.ofFlags, hv]

theorem independent_freshState (k : ClassId) :
    veil.Independent fun w : World Code σ => (w.freshState k).2 := by
  cases hv : veil.pools with
  | true =>
    refine .of_unseen fun w => ?_
    unfold freshState
    cases w.poolFor? k with
    | some p =>
      simp only [acquire_eq]
      exact modifyPool_hidden hv p capacity_acquire w
    | none => rfl
  | false =>
    intro w
    simp only [freshState, poolFor?_behind hv]
    cases w.poolFor? k with
    | some p => exact independent_acquire p w
    | none => exact (behind_behind w).symm

theorem independent_instantiate (k : ClassId) :
    veil.Independent fun w : World Code σ => (w.instantiate k).2 := by
  intro w
  have pool : Veil.cover veil.pools none ((w.behind veil).poolFor? k) =
      Veil.cover veil.pools none (w.poolFor? k) := by
    cases hv : veil.pools with
    | true => rfl
    | false => rw [poolFor?_behind hv]
  simp only [instantiate_eq, behind_addInstance, independent_freshState k w, Veil.ofInstance,
    classVarsOf_behind, lineageHandler?_behind, pool]

/-- An instance that has lost its state and its pool. -/
def vacated (w : World Code σ) (i : InstanceId) : World Code σ :=
  w.modifyInstance i fun r => { r with state := .new, pool := none }

theorem retire_snd (w : World Code σ) (i : InstanceId) :
    (w.retire i).2 =
      match (w.instanceAt i).pool with
      | some p => (w.vacated i).modifyPool p fun q => (q.release .new).2
      | none => w.vacated i := by
  simp only [retire]
  cases (w.instanceAt i).pool with
  | some p => exact release_snd (w.vacated i) p _
  | none => rfl

theorem independent_vacated (i : InstanceId) :
    veil.Independent fun w : World Code σ => w.vacated i := by
  refine independent_modifyInstance i fun r => ?_
  simp [Veil.ofInstance]

/-- The state of a retired instance is kept if its pool has room for one. -/
theorem retire_fst (w : World Code σ) (i : InstanceId) :
    (w.retire i).1 = (w.instanceAt i).pool.any fun p => !(w.poolAt p).isFull := by
  simp only [retire]
  cases (w.instanceAt i).pool with
  | some p =>
    change ((w.poolAt p).release _).1 = !decide ((w.poolAt p).capacity ≤ (w.poolAt p).free.length)
    unfold Pool.release
    by_cases room : (w.poolAt p).free.length < (w.poolAt p).capacity
    · rw [if_pos room, decide_eq_false (Nat.not_le.mpr room)]
      rfl
    · rw [if_neg room, decide_eq_true (Nat.not_lt.mp room)]
      rfl
  | none => rfl

theorem retire_hidden (hv : veil.pools = true) (w : World Code σ) (i : InstanceId) :
    (w.retire i).2.behind veil = (w.vacated i).behind veil := by
  rw [retire_snd]
  cases (w.instanceAt i).pool with
  | some p => exact modifyPool_hidden hv p capacity_release _
  | none => rfl

theorem independent_retire (i : InstanceId) :
    veil.Independent fun w : World Code σ => (w.retire i).2 := by
  intro w
  cases hv : veil.pools with
  | true => rw [retire_hidden hv, retire_hidden hv, independent_vacated i w]
  | false =>
    have hp : ((w.behind veil).instanceAt i).pool = (w.instanceAt i).pool := by
      simp [Veil.ofInstance, hv]
    simp only [retire_snd, hp]
    cases (w.instanceAt i).pool with
    | some p => exact ((independent_modifyPool p capacity_release).comp (independent_vacated i)) w
    | none => exact independent_vacated i w

/-- Lookups leave what is seen alone, or do to it what they do to the world. -/
theorem independent_lookUpFrom (side : Side) (k : ClassId) (name : String) :
    veil.Independent fun w : World Code σ => (w.lookUpFrom side k name).2 := by
  cases hv : veil.caches with
  | true => exact .of_unseen fun w => lookUpFrom_hidden hv w side k name
  | false => exact .of_commute fun w => congrArg (·.2) (lookUpFrom_behind hv w side k name)

theorem independent_lookUpInstance (i : InstanceId) (name : String) :
    veil.Independent fun w : World Code σ => (w.lookUpInstance i name).2 := by
  cases hv : veil.caches with
  | true => exact .of_unseen fun w => lookUpInstance_hidden hv w i name
  | false => exact .of_commute fun w => congrArg (·.2) (lookUpInstance_behind hv w i name)

theorem independent_lookUp (on : Receiver) (name : String) :
    veil.Independent fun w : World Code σ => (w.lookUp on name).2 := by
  cases on with
  | ofInstance i => exact independent_lookUpInstance i name
  | ofClass k => exact independent_lookUpFrom _ k name

theorem independent_note (line : String) :
    veil.Independent fun w : World Code σ => w.note line := by
  intro w
  simp [note, behind, List.filter_filter, Registry.map_map_self, List.filterMap_filterMap,
    Veil.bind_ofEvent]

end World

namespace Operation
variable {veil : Veil}

open Veil (Independent)

theorem independent_of_definitions? {op : Operation Code σ} {k : ClassId}
    {methods : List (String × Method Code)} (h : op.definitions? = some (k, methods)) :
    veil.Independent fun w => (op.apply w).2 := by
  simp only [apply_of_definitions? h]
  exact .foldl (fun _ => World.independent_defineMethod _ _ _) methods

/-- As far as a veil shows, what an operation does to a world does not depend on what
the veil hides. -/
theorem independent_apply (op : Operation Code σ) :
    veil.Independent fun w => (op.apply w).2 := by
  cases op with
  | defineFromValue | defineReaders | defineWriters | defineAccessors =>
    exact independent_of_definitions? rfl
  | note line => exact World.independent_note line
  | newClass name c => exact World.independent_newClass name c
  | inherit child parent => exact World.independent_inherit child parent
  | instantiate k => exact World.independent_instantiate k
  | defineMethod on name m => exact World.independent_defineMethod on name m
  | defineClassMethod k name m => exact World.independent_defineClassMethod k name m
  | defineSingleton i name m => exact World.independent_defineSingleton i name m
  | removeMethod on name => exact World.independent_removeMethod on name
  | addAlias on new old =>
    exact (World.independent_stamp on).comp (World.independent_modifyAliases on _)
  | addBefore on name code => exact World.independent_modifyHooks on _
  | addAfter on name code => exact World.independent_modifyHooks on _
  | setHandler on code => exact World.independent_setHandler on code
  | usePool k p => exact World.independent_usePool k p
  | store ref op => exact World.independent_applyToStore ref op
  | responds on name =>
    cases on with
    | ofInstance i =>
      intro w
      simp only [apply, World.responds, World.target_behind]
      exact World.independent_lookUpInstance i _ w
    | ofClass k => exact World.independent_lookUpFrom _ k name
  | resolve i name =>
    intro w
    simp only [apply, World.resolve?, World.target_behind]
    exact World.independent_lookUpInstance i _ w
  | newPool capacity => exact World.independent_newPool capacity
  | acquire p => exact World.independent_acquire p
  | release p s => exact World.independent_release p s
  | clearPool p => exact World.independent_clearPool p
  | retire i => exact World.independent_retire i
  | query q => exact .id
  | readHost => exact .id
  | writeHost s => exact .of_commute fun _ => rfl
  | box r => exact .of_commute fun _ => rfl

end Operation
end ObjectModel
