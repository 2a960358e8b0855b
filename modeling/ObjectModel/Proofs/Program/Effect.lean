import ObjectModel.Proofs.Lookup.Order
import ObjectModel.Proofs.World.Stamping
import ObjectModel.Program.Operation
import Mathlib.Logic.Relation

/-!
# What operations do to lookups

An operation either redefines one receiver, once or several times in a row, or
leaves all receivers as they are but for an instance that it makes or retires.
-/
namespace ObjectModel
variable {Code σ : Type}

/-- A state out of a pool is a new one. -/
theorem Pool.acquire_fst (p : Pool Code) : p.acquire.1 = .new := by
  unfold acquire
  split <;> rfl

namespace World
variable {w v : World Code σ}

open Relation (ReflTransGen TransGen)

theorem touched_modifyMethods {f : MethodDictionary Code → MethodDictionary Code} (hw : w.Sound)
    (hf : ∀ t, MethodDictionary.Named t .instanceSide → MethodDictionary.Named (f t) .instanceSide)
    (on : Receiver) : Touched on w ((w.modifyMethods on f).stamp on) := by
  cases on with
  | ofInstance i =>
    refine touched_state hw ⟨fun _ => rfl, fun _ => rfl, fun s hs => ⟨hf _ hs.1, hs.2⟩⟩
  | ofClass k =>
    refine touched_class_of_parent hw ⟨fun _ => rfl, fun c side => ?_, fun c hc side => ?_⟩
      (fun _ => rfl)
    · cases side <;> rfl
    · cases side with
      | instanceSide => exact hf _ (hc .instanceSide)
      | classSide => exact hc .classSide

theorem touched_defineMethod (hw : w.Sound) (on : Receiver) (name : String) (m : Method Code) :
    Touched on w (w.defineMethod on name m) :=
  touched_modifyMethods hw (fun _ ht => ht.define m name) on

theorem touched_defineClassMethod (hw : w.Sound) (k : ClassId) (name : String) (m : Method Code) :
    Touched (.ofClass k) w (w.defineClassMethod k name m) := by
  refine touched_class_of_parent hw ⟨fun _ => rfl, fun c side => ?_, fun c hc side => ?_⟩
    (fun _ => rfl)
  · cases side <;> rfl
  · cases side with
    | instanceSide => exact hc .instanceSide
    | classSide => exact (hc .classSide).define m name

theorem touched_defineSingleton (hw : w.Sound) (i : InstanceId) (name : String) (m : Method Code) :
    Touched (.ofInstance i) w (w.defineSingleton i name m) :=
  touched_state hw ⟨fun _ => rfl, fun _ => rfl, fun _ hs => ⟨hs.1, hs.2.define m name⟩⟩

theorem touched_addAlias (hw : w.Sound) (on : Receiver) (new old : String) :
    Touched on w (w.addAlias on new old) := by
  cases on with
  | ofInstance i => exact touched_state hw ⟨fun _ => rfl, fun _ => rfl, fun _ hs => hs⟩
  | ofClass k =>
    refine touched_class_of_parent hw ⟨fun _ => rfl, fun c side => ?_, fun c hc side => ?_⟩
      (fun _ => rfl)
    · cases side <;> rfl
    · cases side with
      | instanceSide => exact hc .instanceSide
      | classSide => exact hc .classSide

/-- Below its new parent a class has the lineage of the parent. -/
theorem chain_reparent {child parent : ClassId} {f : ClassRecord Code → ClassRecord Code}
    (hw : w.Rooted) (hk : w.Has (.ofClass child)) (hf : ∀ c, (f c).parent = some parent)
    (hp : child ∉ w.lineage parent) :
    Chain (w.modifyClass child f).parentOf child (child :: w.lineage parent) := by
  refine .link (p := parent) ?_ ((hw.chain parent).congr fun a ha => ?_)
  · rw [parentOf, classAt_modifyClass_self hk, hf]
  · have hne : a ≠ child := by
      rintro rfl
      exact hp ha
    rw [parentOf, classAt_modifyClass_of_ne hne, parentOf]

theorem touched_inherit {child parent : ClassId} (hw : w.Sound)
    (hp : w.descendsFrom parent child = false) :
    Touched (.ofClass child) w (w.inherit child parent).2 := by
  rw [inherit, if_neg (by simp [hp])]
  have hm : child ∉ w.lineage parent := by
    rw [← descendsFrom_iff, hp]
    exact Bool.false_ne_true
  refine touched_class hw ⟨fun _ => rfl, fun c side => ?_, fun c hc side => ?_⟩ fun hk =>
    ⟨_, chain_reparent hw.rooted hk (fun _ => rfl) hm⟩
  · cases side <;> rfl
  · cases side with
    | instanceSide => exact hc .instanceSide
    | classSide => exact hc .classSide

/-- Methods are defined on a class one after the other. -/
def defineAll (w : World Code σ) (k : ClassId) (methods : List (String × Method Code)) :
    World Code σ :=
  methods.foldl (fun w d => w.defineMethod (.ofClass k) d.1 d.2) w

/-- Several redefinitions of one receiver in a row. -/
theorem touched_defineAll (k : ClassId) (methods : List (String × Method Code)) (hw : w.Sound) :
    ReflTransGen (Touched (.ofClass k)) w (w.defineAll k methods) := by
  induction methods generalizing w with
  | nil => exact .refl
  | cons d methods ih =>
    have h := touched_defineMethod hw (.ofClass k) d.1 d.2
    exact .head h (ih (h.sound hw))

/-- What holds of a world and itself, and across a definition, holds across several. -/
theorem defineAll_related {R : World Code σ → World Code σ → Prop} (refl : ∀ w, R w w)
    (trans : ∀ {w v u}, R w v → R v u → R w u)
    (define : ∀ w on name m, R w (defineMethod w on name m)) (w : World Code σ) (k : ClassId)
    (methods : List (String × Method Code)) : R w (w.defineAll k methods) :=
  List.foldlRecOn methods _ (refl w) fun v hv _ _ => trans hv (define v _ _ _)

theorem has_of_touched {on : Receiver} (h : ReflTransGen (Touched on) w v) (x : Receiver) :
    v.Has x ↔ w.Has x := by
  induction h with
  | refl => exact Iff.rfl
  | tail _ hstep ih => exact (hstep.has x).trans ih

theorem quiet_newClass (w : World Code σ) (name : String) (c : Configuration) :
    Quiet w (w.newClass name c).2 := by
  refine ⟨fun x => has_add_class, Nat.le_refl _, fun k => ?_, fun _ => rfl⟩
  rw [newClass, classAt_add]
  split
  · next hk =>
    obtain rfl : k = ⟨w.classes.next⟩ := congrArg ClassId.mk hk
    rw [classAt_of_not_has (not_has_next_class w)]
    rfl
  · rfl

theorem quiet_modifyHooks (w : World Code σ) (on : Receiver) (f : Hooks Code → Hooks Code) :
    Quiet w (w.modifyHooks on f) := by
  cases on with
  | ofInstance i => exact quiet_modifyState (f := fun s => { s with hooks := f s.hooks }) (fun _ => rfl) w i
  | ofClass k => exact quiet_modifyClass (f := fun c => { c with hooks := f c.hooks }) (fun _ => rfl) w k

theorem quiet_setHandler (w : World Code σ) (on : Receiver) (code : Code) :
    Quiet w (w.setHandler on code) := by
  cases on with
  | ofInstance i => exact quiet_modifyState (f := fun s => { s with handler := some code }) (fun _ => rfl) w i
  | ofClass k =>
    refine quiet_modifyClass (f := fun c =>
      { c with handler := some code, flags := { c.flags with hasHandler := true } }) ?_ w k
    exact fun _ => rfl

theorem quiet_usePool (w : World Code σ) (k : ClassId) (p : PoolId) : Quiet w (w.usePool k p) := by
  refine quiet_modifyClass (f := fun c =>
    { c with pool := some p, flags := { c.flags with pooled := true } }) ?_ w k
  exact fun _ => rfl

theorem quiet_applyToStore (w : World Code σ) (ref : StoreRef) (op : StoreOp Code) :
    Quiet w (w.applyToStore ref op).2 := by
  unfold applyToStore
  cases ref with
  | instanceVars i =>
    let store := (op.apply (w.variablesOf (.instanceVars i)) w.nextAddress).2.1
    have h : Quiet w (w.modifyState i fun s => { s with vars := store }) :=
      quiet_modifyState (f := fun s => { s with vars := store }) (fun _ => rfl) w i
    exact h.trans (quiet_of_records rfl rfl rfl)
  | classVars on => exact quiet_of_records rfl rfl rfl

theorem quiet_freshState (w : World Code σ) (k : ClassId) : Quiet w (w.freshState k).2 := by
  unfold freshState
  split
  · exact quiet_of_records rfl rfl rfl
  · exact .refl w

theorem instances_freshState (w : World Code σ) (k : ClassId) :
    (w.freshState k).2.instances = w.instances := by
  unfold freshState
  split <;> rfl

theorem freshState_fst (w : World Code σ) (k : ClassId) : (w.freshState k).1 = .new := by
  unfold freshState
  split
  · exact Pool.acquire_fst _
  · rfl

/-- A new instance is built on a new state, whatever there is in the pool of its
class. -/
theorem instantiate_eq (w : World Code σ) (k : ClassId) :
    w.instantiate k =
      (⟨w.instances.next⟩,
        { (w.freshState k).2 with
          instances := (w.freshState k).2.instances.add
            { classId := k
              classVars := w.classVarsOf (.ofClass k)
              state := { ObjectState.new with handler := w.lineageHandler? k }
              pool := w.poolFor? k } }) := by
  have fresh : (w.freshState k).2.classes = w.classes := by
    unfold freshState
    split <;> rfl
  have handler : (w.freshState k).2.lineageHandler? k = w.lineageHandler? k := by
    have at_eq : (w.freshState k).2.classAt = w.classAt := by
      funext a
      rw [classAt, fresh, classAt]
    rw [lineageHandler?, lineageHandler?, lineage_of_classes fresh, at_eq]
  have vars : ((w.freshState k).2.classAt k).classVars = w.classVarsOf (.ofClass k) := by
    rw [classAt, fresh]
    rfl
  simp only [instantiate, freshState_fst, instances_freshState, handler, vars]

theorem instantiate_fst (w : World Code σ) (k : ClassId) :
    (w.instantiate k).1 = ⟨w.instances.next⟩ := by
  rw [instantiate_eq]

theorem renewed_add (w : World Code σ) {r : InstanceRecord Code}
    (hr : r.state.lookupPart = ObjectState.new) :
    Renewed ⟨w.instances.next⟩ w { w with instances := w.instances.add r } where
  has _ := has_add_instance
  clock := rfl
  classes _ := rfl
  instances j hj := by
    rw [instanceAt_add, if_neg]
    intro he
    exact hj (congrArg InstanceId.mk he)
  state := by
    rw [stateAt, instanceAt_add, if_pos rfl, hr]

theorem renewed_modifyInstance (w : World Code σ) (i : InstanceId) :
    Renewed i w (w.modifyInstance i fun r => { r with state := .new, pool := none }) where
  has x := (has_modifyInstance i _ x).mpr
  clock := rfl
  classes _ := rfl
  instances j hj := by rw [instanceAt_modifyInstance_of_ne hj]
  state := by
    by_cases hi : w.Has (.ofInstance i)
    · rw [stateAt, instanceAt_modifyInstance_self hi]
      rfl
    · rw [modifyInstance_of_not_has hi, stateAt, instanceAt_of_not_has hi]
      rfl

theorem calm_instantiate (w : World Code σ) (k : ClassId) :
    ReflTransGen (Calm (some ⟨w.instances.next⟩)) w (w.instantiate k).2 := by
  have hn : w.instances.next = (w.freshState k).2.instances.next := by
    rw [instances_freshState]
  refine .tail (.single (.quiet (quiet_freshState w k))) (.renewed ⟨w.instances.next⟩ rfl ?_)
  rw [hn]
  refine renewed_add _ ?_
  change ({ (w.freshState k).1 with handler := _ } : ObjectState Code).lookupPart = _
  rw [freshState_fst]
  rfl

theorem calm_retire (w : World Code σ) (i : InstanceId) :
    ReflTransGen (Calm (some i)) w (w.retire i).2 := by
  have h : ReflTransGen (Calm (some i)) w
      (w.modifyInstance i fun r => { r with state := .new, pool := none }) :=
    .single (.renewed i rfl (renewed_modifyInstance w i))
  simp only [retire]
  split
  · exact h.tail (.quiet (quiet_of_records rfl rfl rfl))
  · exact h

theorem isOk_inherit (w : World Code σ) (child parent : ClassId) :
    (w.inherit child parent).1.isOk = !w.descendsFrom parent child := by
  unfold inherit
  cases w.descendsFrom parent child <;> rfl

theorem isOk_defineFromValue (w : World Code σ) (k : ClassId) (name : String) (v : Value Code) :
    (w.defineFromValue k name v).1.isOk = (v.method? .instanceSide).isSome := by
  unfold defineFromValue
  cases v.method? .instanceSide <;> rfl

theorem removeMethod_fst (w : World Code σ) (on : Receiver) (name : String) :
    (w.removeMethod on name).1 = (w.methodsAt on).contains name := by
  unfold removeMethod
  cases (w.methodsAt on).contains name <;> rfl

end World

namespace Operation
variable {w : World Code σ} {op : Operation Code σ} {on : Receiver}

open Relation (ReflTransGen TransGen)
open World (Touched Idle Calm)

/-- The receiver whose definitions an operation changes in a world. -/
def redefines? (w : World Code σ) : Operation Code σ → Option Receiver
  | inherit child parent =>
    if (w.inherit child parent).1.isOk then some (.ofClass child) else none
  | defineMethod on _ _ => some on
  | defineClassMethod k _ _ => some (.ofClass k)
  | defineSingleton i _ _ => some (.ofInstance i)
  | defineFromValue k name v =>
    if (w.defineFromValue k name v).1.isOk then some (.ofClass k) else none
  | removeMethod on name => if (w.removeMethod on name).1 then some on else none
  | defineReaders k names => if names = [] then none else some (.ofClass k)
  | defineWriters k names => if names = [] then none else some (.ofClass k)
  | defineAccessors k names => if names = [] then none else some (.ofClass k)
  | addAlias on _ _ => some on
  | _ => none

/-- The instance that an operation makes or retires. -/
def renews? (w : World Code σ) : Operation Code σ → Option InstanceId
  | instantiate _ => some ⟨w.instances.next⟩
  | retire i => some i
  | _ => none

/-- Whether an operation looks a method up. -/
def looksUp : Operation Code σ → Bool
  | responds _ _ | resolve _ _ => true
  | _ => false

/-- The methods that an operation defines on a class one after the other, if it does no more than
this. -/
def definitions? : Operation Code σ → Option (ClassId × List (String × Method Code))
  | defineFromValue k name v => some (k, (v.method? .instanceSide).toList.map (name, ·))
  | defineReaders k names => some (k, names.map fun x => (x, .reader x))
  | defineWriters k names => some (k, names.map fun x => (x ++ "=", .writer x))
  | defineAccessors k names =>
    some (k, names.map (fun x => (x, .reader x)) ++ names.map fun x => (x ++ "=", .writer x))
  | _ => none

section
variable {k : ClassId} {methods : List (String × Method Code)}

theorem apply_of_definitions? (h : op.definitions? = some (k, methods)) :
    (op.apply w).2 = w.defineAll k methods := by
  cases op with
  | defineFromValue a name v =>
    obtain ⟨rfl, rfl⟩ := Prod.mk.inj (Option.some.inj h)
    simp only [apply, World.defineFromValue]
    cases v.method? .instanceSide <;> rfl
  | defineReaders a names | defineWriters a names =>
    obtain ⟨rfl, rfl⟩ := Prod.mk.inj (Option.some.inj h)
    rw [World.defineAll, List.foldl_map]
    rfl
  | defineAccessors a names =>
    obtain ⟨rfl, rfl⟩ := Prod.mk.inj (Option.some.inj h)
    rw [World.defineAll, List.foldl_append, List.foldl_map, List.foldl_map]
    rfl
  | _ => contradiction

theorem redefines?_of_definitions? (h : op.definitions? = some (k, methods)) :
    op.redefines? w = if methods = [] then none else some (.ofClass k) := by
  cases op with
  | defineFromValue a name v =>
    obtain ⟨rfl, rfl⟩ := Prod.mk.inj (Option.some.inj h)
    rw [redefines?, World.isOk_defineFromValue]
    cases v.method? .instanceSide <;> rfl
  | defineReaders a names | defineWriters a names | defineAccessors a names =>
    obtain ⟨rfl, rfl⟩ := Prod.mk.inj (Option.some.inj h)
    cases names <;> rfl
  | _ => contradiction

end

/-- What becomes of a world by an operation that looks nothing up. -/
inductive Changes (op : Operation Code σ) (w v : World Code σ) : Prop
  | touched {on : Receiver} (redefines : op.redefines? w = some on)
      (run : w.Sound → TransGen (Touched on) w v)
  | calm (redefines : op.redefines? w = none) (run : ReflTransGen (Calm (op.renews? w)) w v)

theorem changes_of_definitions? {k : ClassId} {methods : List (String × Method Code)}
    (h : op.definitions? = some (k, methods)) : op.Changes w (op.apply w).2 := by
  have redefines := redefines?_of_definitions? (w := w) h
  rw [apply_of_definitions? h]
  cases methods with
  | nil => exact .calm redefines .refl
  | cons d methods =>
    refine .touched redefines fun hw => ?_
    have first := World.touched_defineMethod hw (.ofClass k) d.1 d.2
    exact .head' first (World.touched_defineAll k methods (first.sound hw))

/-- An operation redefines one receiver, or no receiver at all. -/
theorem changes_apply (hl : op.looksUp = false) : op.Changes w (op.apply w).2 := by
  cases op with
  | defineFromValue | defineReaders | defineWriters | defineAccessors =>
    exact changes_of_definitions? rfl
  | inherit child parent =>
    have redefines : (inherit child parent).redefines? w =
        if w.descendsFrom parent child then none else some (.ofClass child) := by
      rw [redefines?, World.isOk_inherit]
      cases w.descendsFrom parent child <;> rfl
    cases hp : w.descendsFrom parent child with
    | true =>
      rw [hp] at redefines
      refine .calm redefines ?_
      simp only [apply, World.inherit, hp, if_true]
      exact .refl
    | false =>
      rw [hp] at redefines
      exact .touched redefines fun hw => .single (World.touched_inherit hw hp)
  | removeMethod on name =>
    have redefines : (removeMethod on name : Operation Code σ).redefines? w =
        if (w.methodsAt on).contains name then some on else none := by
      rw [redefines?, World.removeMethod_fst]
    cases hm : (w.methodsAt on).contains name with
    | true =>
      rw [hm] at redefines
      refine .touched redefines fun hw => ?_
      simp only [apply, World.removeMethod, hm, if_true]
      exact .single (World.touched_modifyMethods hw (fun _ ht => ht.erase name) on)
    | false =>
      rw [hm] at redefines
      refine .calm redefines ?_
      simp only [apply, World.removeMethod, hm]
      exact .refl
  | defineMethod on name m =>
    exact .touched rfl fun hw => .single (World.touched_defineMethod hw on name m)
  | defineClassMethod k name m =>
    exact .touched rfl fun hw => .single (World.touched_defineClassMethod hw k name m)
  | defineSingleton i name m =>
    exact .touched rfl fun hw => .single (World.touched_defineSingleton hw i name m)
  | addAlias on new old => exact .touched rfl fun hw => .single (World.touched_addAlias hw on new old)
  | newClass name c => exact .calm rfl (.single (.quiet (World.quiet_newClass w name c)))
  | instantiate k => exact .calm rfl (World.calm_instantiate w k)
  | retire i => exact .calm rfl (World.calm_retire w i)
  | addBefore on name code =>
    exact .calm rfl (.single (.quiet (World.quiet_modifyHooks w on (·.addBefore name code))))
  | addAfter on name code =>
    exact .calm rfl (.single (.quiet (World.quiet_modifyHooks w on (·.addAfter name code))))
  | setHandler on code => exact .calm rfl (.single (.quiet (World.quiet_setHandler w on code)))
  | usePool k p => exact .calm rfl (.single (.quiet (World.quiet_usePool w k p)))
  | store ref op => exact .calm rfl (.single (.quiet (World.quiet_applyToStore w ref op)))
  | responds | resolve => contradiction
  | _ => exact .calm rfl (.single (.quiet (World.quiet_of_records rfl rfl rfl)))

theorem touched_apply (hw : w.Sound) (h : op.redefines? w = some on) :
    TransGen (Touched on) w (op.apply w).2 := by
  have hl : op.looksUp = false := by
    cases op with
    | responds | resolve => contradiction
    | _ => rfl
  cases changes_apply hl with
  | touched redefines run =>
    obtain rfl := Option.some.inj (redefines.symm.trans h)
    exact run hw
  | calm redefines run =>
    rw [redefines] at h
    contradiction

theorem calm_apply (h : op.redefines? w = none) (hl : op.looksUp = false) :
    ReflTransGen (Calm (op.renews? w)) w (op.apply w).2 := by
  cases changes_apply hl with
  | touched redefines run =>
    rw [redefines] at h
    contradiction
  | calm redefines run => exact run

theorem idle_apply (h : op.redefines? w = none) :
    ReflTransGen (Idle (op.renews? w)) w (op.apply w).2 := by
  cases hl : op.looksUp with
  | false => exact ReflTransGen.mono (fun _ _ => Calm.idle) _ _ (calm_apply h hl)
  | true =>
    cases op with
    | responds x name =>
      cases x with
      | ofInstance i => exact .single (.recalled (World.recalled_lookUpInstance w i _))
      | ofClass k => exact .single (.recalled (World.recalled_lookUpFrom w _ k name))
    | resolve i name => exact .single (.recalled (World.recalled_lookUpInstance w i _))
    | _ => contradiction

end Operation
end ObjectModel
