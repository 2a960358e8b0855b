import ObjectModel.Proofs.Program.Step

/-!
# Outlines

The outline of a class or of an instance is everything it has but its methods,
its findings and its version. What a step makes of the outlines that are there
is said here once, together with what it adds to them. Lookups, definitions and
removals of methods make nothing of them.
-/
namespace ObjectModel
variable {Code σ : Type}

/-- A class without its methods, its findings and its version. -/
def ClassRecord.outline (c : ClassRecord Code) : ClassRecord Code :=
  { c with methods := {}, classMethods := {}, cache := {}, classCache := {}, version := 0 }

/-- A state without its methods, its findings and its version. -/
def ObjectState.outline (s : ObjectState Code) : ObjectState Code :=
  { s with methods := {}, cache := {}, singletons := none, version := 0 }

/-- An instance with the outline of its state. -/
def InstanceRecord.outline (r : InstanceRecord Code) : InstanceRecord Code :=
  { r with state := r.state.outline }

namespace World
variable {w v u : World Code σ}

/-- One world comes from another by redrawing the outlines that are there, with
at most one new object. -/
structure Redrawn (w : World Code σ) (made : Option Receiver)
    (ofClass : ClassId → ClassRecord Code → ClassRecord Code)
    (ofInstance : InstanceId → InstanceRecord Code → InstanceRecord Code)
    (v : World Code σ) : Prop where
  has : ∀ x, v.Has x ↔ w.Has x ∨ made = some x
  classes : ∀ k, w.Has (.ofClass k) → (v.classAt k).outline = (ofClass k (w.classAt k)).outline
  instances : ∀ i, w.Has (.ofInstance i) →
    (v.instanceAt i).outline = (ofInstance i (w.instanceAt i)).outline
  stores : w.stores.size ≤ v.stores.size

/-- The outlines of both worlds are the same. -/
structure SameOutlines (w v : World Code σ) : Prop where
  has : ∀ x, v.Has x ↔ w.Has x
  classes : ∀ k, (v.classAt k).outline = (w.classAt k).outline
  instances : ∀ i, (v.instanceAt i).outline = (w.instanceAt i).outline
  stores : v.stores.size = w.stores.size

theorem SameOutlines.refl (w : World Code σ) : SameOutlines w w :=
  ⟨fun _ => Iff.rfl, fun _ => rfl, fun _ => rfl, rfl⟩

theorem SameOutlines.trans (h : SameOutlines w v) (h' : SameOutlines v u) : SameOutlines w u :=
  ⟨fun x => (h'.has x).trans (h.has x), fun k => (h'.classes k).trans (h.classes k),
    fun i => (h'.instances i).trans (h.instances i), h'.stores.trans h.stores⟩

theorem SameOutlines.redrawn (h : SameOutlines w v) :
    Redrawn w none (fun _ c => c) (fun _ r => r) v :=
  ⟨fun x => (h.has x).trans (by simp), fun k _ => h.classes k, fun i _ => h.instances i,
    Nat.le_of_eq h.stores.symm⟩

theorem Redrawn.trans_same {made : Option Receiver}
    {f : ClassId → ClassRecord Code → ClassRecord Code}
    {g : InstanceId → InstanceRecord Code → InstanceRecord Code} (h : Redrawn w made f g v)
    (h' : SameOutlines v u) : Redrawn w made f g u :=
  ⟨fun x => (h'.has x).trans (h.has x), fun k hk => (h'.classes k).trans (h.classes k hk),
    fun i hi => (h'.instances i).trans (h.instances i hi), h'.stores ▸ h.stores⟩

theorem sameOutlines_of_records (hc : v.classes = w.classes) (hi : v.instances = w.instances)
    (hs : v.stores.size = w.stores.size) : SameOutlines w v := by
  refine ⟨fun x => ?_, fun k => ?_, fun i => ?_, hs⟩
  · cases x with
    | ofInstance i => rw [Has, hi, Has]
    | ofClass k => rw [Has, hc, Has]
  · rw [classAt, hc, classAt]
  · rw [instanceAt, hi, instanceAt]

theorem Recalled.sameOutlines (h : Recalled w v) : SameOutlines w v := by
  refine ⟨fun x => ?_, fun k => ?_, fun i => ?_, congrArg (·.stores.size) h.same⟩
  · rw [← has_bare, h.same, has_bare]
  · -- The bare class hides whether it remembers, which lookups leave as it is.
    calc (v.classAt k).outline
        = { (v.classAt k).bare.outline with flags := (v.classAt k).flags } := rfl
      _ = { (w.classAt k).bare.outline with flags := (w.classAt k).flags } := by
        rw [bare_classAt h.same, h.flags]
      _ = (w.classAt k).outline := rfl
  · have hi : (v.instanceAt i).bare.outline = (w.instanceAt i).bare.outline := by
      rw [bare_instanceAt h.same]
    exact hi

theorem sameOutlines_modifyClass {f : ClassRecord Code → ClassRecord Code}
    (hf : ∀ c, (f c).outline = c.outline) (w : World Code σ) (k : ClassId) :
    SameOutlines w (w.modifyClass k f) :=
  ⟨has_modifyClass k f, fun a => classAt_modifyClass_congr _ hf k a, fun _ => rfl, rfl⟩

theorem sameOutlines_modifyState {f : ObjectState Code → ObjectState Code}
    (hf : ∀ s, (f s).outline = s.outline) (w : World Code σ) (i : InstanceId) :
    SameOutlines w (w.modifyState i f) := by
  refine ⟨has_modifyInstance i _, fun _ => rfl, fun j => ?_, rfl⟩
  refine instanceAt_modifyInstance_congr InstanceRecord.outline (fun r => ?_) i j
  simp only [InstanceRecord.outline, hf]

theorem redrawn_modifyClass (w : World Code σ) (a : ClassId)
    (f : ClassRecord Code → ClassRecord Code) :
    Redrawn w none (fun k c => if k = a then f c else c) (fun _ r => r) (w.modifyClass a f) := by
  refine ⟨fun x => (has_modifyClass a f x).trans (by simp), fun k hk => ?_, fun _ _ => rfl,
    Nat.le_refl _⟩
  by_cases ha : k = a
  · subst ha
    rw [if_pos rfl, classAt_modifyClass_self hk]
  · rw [if_neg ha, classAt_modifyClass_of_ne ha]

theorem redrawn_modifyInstance (w : World Code σ) (j : InstanceId)
    (f : InstanceRecord Code → InstanceRecord Code) :
    Redrawn w none (fun _ c => c) (fun i r => if i = j then f r else r) (w.modifyInstance j f) := by
  refine ⟨fun x => (has_modifyInstance j f x).trans (by simp), fun _ _ => rfl, fun i hi => ?_,
    Nat.le_refl _⟩
  by_cases hj : i = j
  · subst hj
    rw [if_pos rfl, instanceAt_modifyInstance_self hi]
  · rw [if_neg hj, instanceAt_modifyInstance_of_ne hj]

theorem sameOutlines_ticked (w : World Code σ) : SameOutlines w w.ticked :=
  sameOutlines_of_records rfl rfl rfl

theorem sameOutlines_stampClass (w : World Code σ) (k : ClassId) : SameOutlines w (w.stampClass k) :=
  (sameOutlines_ticked w).trans
    (sameOutlines_modifyClass (f := .stamped (w.clock.latest + 1)) (fun _ => rfl) w.ticked k)

theorem sameOutlines_stampInstance (w : World Code σ) (i : InstanceId) :
    SameOutlines w (w.stampInstance i) :=
  (sameOutlines_ticked w).trans
    (sameOutlines_modifyState (f := .stamped (w.clock.latest + 1)) (fun _ => rfl) w.ticked i)

theorem sameOutlines_stamp (w : World Code σ) (on : Receiver) : SameOutlines w (w.stamp on) := by
  cases on with
  | ofInstance i => exact sameOutlines_stampInstance w i
  | ofClass k => exact sameOutlines_stampClass w k

theorem sameOutlines_modifyMethods (w : World Code σ) (on : Receiver)
    (f : MethodDictionary Code → MethodDictionary Code) : SameOutlines w (w.modifyMethods on f) := by
  cases on with
  | ofInstance i =>
    exact sameOutlines_modifyState (f := fun s => { s with methods := f s.methods }) (fun _ => rfl) w i
  | ofClass k =>
    exact sameOutlines_modifyClass (f := fun c => { c with methods := f c.methods }) (fun _ => rfl) w k

theorem sameOutlines_defineMethod (w : World Code σ) (on : Receiver) (name : String)
    (m : Method Code) : SameOutlines w (w.defineMethod on name m) :=
  (sameOutlines_modifyMethods w on _).trans (sameOutlines_stamp _ on)

theorem has_add_class_iff (c : ClassRecord Code) (stores : Registry (Variables Code))
    (x : Receiver) :
    ({ w with classes := w.classes.add c, stores } : World Code σ).Has x ↔
      w.Has x ∨ some (.ofClass ⟨w.classes.next⟩) = some x := by
  cases x with
  | ofInstance i => simp [Has]
  | ofClass k =>
    obtain ⟨n⟩ := k
    simp only [has_ofClass_iff, Registry.size_add, Registry.next, Option.some.injEq,
      Receiver.ofClass.injEq, ClassId.mk.injEq]
    omega

theorem has_add_instance_iff (r : InstanceRecord Code) (x : Receiver) :
    ({ w with instances := w.instances.add r } : World Code σ).Has x ↔
      w.Has x ∨ some (.ofInstance ⟨w.instances.next⟩) = some x := by
  cases x with
  | ofClass k => simp [Has]
  | ofInstance i =>
    obtain ⟨n⟩ := i
    simp only [Has, Registry.find?_isSome, Registry.size_add, Registry.next, Option.some.injEq,
      Receiver.ofInstance.injEq, InstanceId.mk.injEq]
    omega

theorem redrawn_newClass (w : World Code σ) (name : String) (c : Configuration) :
    Redrawn w (some (.ofClass ⟨w.classes.next⟩)) (fun _ c => c) (fun _ r => r)
      (w.newClass name c).2 := by
  refine ⟨has_add_class_iff _ _, fun k hk => ?_, fun _ _ => rfl, ?_⟩
  · rw [newClass, classAt_add, if_neg]
    rintro he
    obtain rfl : k = ⟨w.classes.next⟩ := congrArg ClassId.mk he
    exact not_has_next_class w hk
  · simp [newClass]

theorem redrawn_instantiate (w : World Code σ) (k : ClassId) :
    Redrawn w (some (.ofInstance ⟨w.instances.next⟩)) (fun _ c => c) (fun _ r => r)
      (w.instantiate k).2 := by
  have fresh : SameOutlines w (w.freshState k).2 := by
    unfold freshState
    split
    · exact sameOutlines_of_records rfl rfl rfl
    · exact .refl w
  have hn : w.instances.next = (w.freshState k).2.instances.next := by rw [instances_freshState]
  refine ⟨fun x => ?_, fun a _ => fresh.classes a, fun i hi => ?_, Nat.le_of_eq fresh.stores.symm⟩
  · rw [instantiate, has_add_instance_iff, fresh.has, hn]
  · rw [instantiate, instanceAt_add, if_neg, fresh.instances]
    rintro he
    obtain rfl : i = ⟨w.instances.next⟩ := congrArg InstanceId.mk (he.trans hn.symm)
    exact not_has_next_instance w hi

theorem classAt_newClass (w : World Code σ) (name : String) (c : Configuration) :
    (w.newClass name c).2.classAt ⟨w.classes.next⟩ =
      { name, classVars := ⟨w.stores.next⟩, flags := { uncached := !c.resolutionCache } } := by
  rw [newClass, classAt_add, if_pos rfl]

/-- A new instance has nothing of its own but a handler, and the class variables of its
class. -/
theorem instanceAt_instantiate (w : World Code σ) (k : ClassId) :
    (w.instantiate k).2.instanceAt (w.instantiate k).1 =
      { classId := k
        classVars := (w.classAt k).classVars
        state := { ObjectState.new with handler := w.lineageHandler? k }
        pool := w.poolFor? k } := by
  have hn : w.instances.next = (w.freshState k).2.instances.next := by rw [instances_freshState]
  rw [instantiate_eq, instanceAt_add, if_pos hn]
  rfl

theorem stateAt_instantiate (w : World Code σ) (k : ClassId) :
    (w.instantiate k).2.stateAt (w.instantiate k).1 =
      { ObjectState.new with handler := w.lineageHandler? k } := by
  rw [stateAt, instanceAt_instantiate]

theorem has_instantiate (w : World Code σ) (k : ClassId) :
    (w.instantiate k).2.Has (.ofInstance (w.instantiate k).1) :=
  ((redrawn_instantiate w k).has _).mpr (.inr (by rw [instantiate_fst]))

end World

namespace Operation
variable {w : World Code σ}

open World (Redrawn SameOutlines)

/-- The object that an operation makes. -/
def makes? (w : World Code σ) : Operation Code σ → Option Receiver
  | newClass _ _ => some (.ofClass ⟨w.classes.next⟩)
  | instantiate _ => some (.ofInstance ⟨w.instances.next⟩)
  | _ => none

/-- What an operation makes of a class that is there, but for what outlines do not
show. -/
def redrawClass (w : World Code σ) (k : ClassId) (c : ClassRecord Code) :
    Operation Code σ → ClassRecord Code
  | inherit child parent =>
    if k = child ∧ w.descendsFrom parent child = false then
      { c with parent := some parent, classVars := (w.classAt parent).classVars }
    else c
  | addAlias (.ofClass a) new old =>
    if k = a then { c with aliases := c.aliases.insert new old } else c
  | addBefore (.ofClass a) name code =>
    if k = a then { c with hooks := c.hooks.addBefore name code } else c
  | addAfter (.ofClass a) name code =>
    if k = a then { c with hooks := c.hooks.addAfter name code } else c
  | setHandler (.ofClass a) code =>
    if k = a then { c with handler := some code, flags := { c.flags with hasHandler := true } }
    else c
  | usePool a p =>
    if k = a then { c with pool := some p, flags := { c.flags with pooled := true } } else c
  | _ => c

/-- What an operation makes of an instance that is there, but for what outlines do
not show. -/
def redrawInstance (w : World Code σ) (i : InstanceId) (r : InstanceRecord Code) :
    Operation Code σ → InstanceRecord Code
  | addAlias (.ofInstance j) new old =>
    if i = j then { r with state := { r.state with aliases := r.state.aliases.insert new old } }
    else r
  | addBefore (.ofInstance j) name code =>
    if i = j then { r with state := { r.state with hooks := r.state.hooks.addBefore name code } }
    else r
  | addAfter (.ofInstance j) name code =>
    if i = j then { r with state := { r.state with hooks := r.state.hooks.addAfter name code } }
    else r
  | setHandler (.ofInstance j) code =>
    if i = j then { r with state := { r.state with handler := some code } } else r
  | store (.instanceVars j) op =>
    if i = j then
      let vars := (op.apply (w.stateAt j).vars w.nextAddress).2.1
      { r with state := { r.state with vars } }
    else r
  | retire j => if i = j then { r with state := .new, pool := none } else r
  | _ => r

theorem sameOutlines_of_definitions? {op : Operation Code σ} {k : ClassId}
    {methods : List (String × Method Code)} (h : op.definitions? = some (k, methods)) :
    SameOutlines w (op.apply w).2 := by
  rw [apply_of_definitions? h]
  exact World.defineAll_related .refl .trans World.sameOutlines_defineMethod w k methods

/-- What an operation does to outlines. -/
theorem redrawn_apply (w : World Code σ) (op : Operation Code σ) :
    Redrawn w (op.makes? w) (fun k c => op.redrawClass w k c) (fun i r => op.redrawInstance w i r)
      (op.apply w).2 := by
  cases op with
  | defineFromValue | defineReaders | defineWriters | defineAccessors =>
    exact (sameOutlines_of_definitions? rfl).redrawn
  | newClass name c => exact World.redrawn_newClass w name c
  | instantiate k => exact World.redrawn_instantiate w k
  | inherit child parent =>
    cases hp : w.descendsFrom parent child with
    | true =>
      simp only [makes?, redrawClass, redrawInstance, apply, World.inherit, hp, if_true]
      simpa using (SameOutlines.refl w).redrawn
    | false =>
      simp only [makes?, redrawClass, redrawInstance, apply, World.inherit, hp]
      have moved := (World.redrawn_modifyClass w child fun c =>
        { c with parent := some parent, classVars := (w.classAt parent).classVars }).trans_same
          (World.sameOutlines_stampClass _ child)
      simpa using moved
  | addAlias on new old =>
    cases on with
    | ofInstance i =>
      exact (World.redrawn_modifyInstance w i _).trans_same (World.sameOutlines_stampInstance _ i)
    | ofClass k =>
      exact (World.redrawn_modifyClass w k _).trans_same (World.sameOutlines_stampClass _ k)
  | addBefore on | addAfter on | setHandler on =>
    cases on with
    | ofInstance i => exact World.redrawn_modifyInstance w i _
    | ofClass k => exact World.redrawn_modifyClass w k _
  | usePool k p => exact World.redrawn_modifyClass w k _
  | store ref op =>
    cases ref with
    | instanceVars i =>
      exact (World.redrawn_modifyInstance w i _).trans_same
        (World.sameOutlines_of_records rfl rfl rfl)
    | classVars on =>
      refine SameOutlines.redrawn ?_
      exact World.sameOutlines_of_records rfl rfl (Registry.size_modify _ _ _)
  | retire i =>
    refine (World.redrawn_modifyInstance w i _).trans_same ?_
    simp only [apply, World.retire]
    split
    · exact World.sameOutlines_of_records rfl rfl rfl
    · exact .refl _
  | defineMethod on name m => exact (World.sameOutlines_defineMethod w on name m).redrawn
  | defineClassMethod k name m =>
    refine SameOutlines.redrawn (.trans ?_ (World.sameOutlines_stampClass _ k))
    refine World.sameOutlines_modifyClass (fun c => ?_) w k
    rfl
  | defineSingleton i name m =>
    refine SameOutlines.redrawn (.trans ?_ (World.sameOutlines_stampInstance _ i))
    refine World.sameOutlines_modifyState (fun s => ?_) w i
    rfl
  | removeMethod on name =>
    refine SameOutlines.redrawn ?_
    simp only [apply, World.removeMethod]
    split
    · exact (World.sameOutlines_modifyMethods w on _).trans (World.sameOutlines_stamp _ on)
    · exact .refl w
  | responds on name =>
    cases on with
    | ofInstance i => exact (World.recalled_lookUpInstance w i _).sameOutlines.redrawn
    | ofClass k => exact (World.recalled_lookUpFrom w _ k name).sameOutlines.redrawn
  | resolve i name => exact (World.recalled_lookUpInstance w i _).sameOutlines.redrawn
  | _ =>
    refine SameOutlines.redrawn ?_
    exact World.sameOutlines_of_records rfl rfl rfl

end Operation

namespace Step

/-- The object that a step makes. -/
def makes? (w : World Code σ) : Step Code σ → Option Receiver
  | perform op => op.makes? w
  | _ => none

/-- What a step makes of a class that is there, but for what outlines do not show. -/
def redrawClass (w : World Code σ) (k : ClassId) (c : ClassRecord Code) :
    Step Code σ → ClassRecord Code
  | perform op => op.redrawClass w k c
  | _ => c

/-- What a step makes of an instance that is there, but for what outlines do not
show. -/
def redrawInstance (w : World Code σ) (i : InstanceId) (r : InstanceRecord Code) :
    Step Code σ → InstanceRecord Code
  | perform op => op.redrawInstance w i r
  | assign j name v =>
    if i = j then { r with state := { r.state with vars := r.state.vars.insert name v } } else r
  | _ => r

/-- What a step does to outlines. -/
theorem redrawn_next (w : World Code σ) (s : Step Code σ) :
    World.Redrawn w (s.makes? w) (fun k c => s.redrawClass w k c)
      (fun i r => s.redrawInstance w i r) (s.next w) := by
  cases s with
  | perform op => exact op.redrawn_apply w
  | lookUp on name => exact (World.recalled_lookUp w on name).sameOutlines.redrawn
  | lookUpSuper on name => exact (World.recalled_lookUpSuper w on name).sameOutlines.redrawn
  | assign i name v => exact World.redrawn_modifyInstance w i _
  | _ =>
    refine World.SameOutlines.redrawn ?_
    exact World.sameOutlines_of_records rfl rfl rfl

/-- What a step makes of the hooks of a receiver that lives on. -/
def rehook (on : Receiver) (h : Hooks Code) : Step Code σ → Hooks Code
  | perform (.addBefore x name code) => if x = on then h.addBefore name code else h
  | perform (.addAfter x name code) => if x = on then h.addAfter name code else h
  | _ => h

/-- The handler that a step gives to a receiver. -/
def handler? (on : Receiver) : Step Code σ → Option Code
  | perform (.setHandler x code) => if x = on then some code else none
  | _ => none

/-- The pool that a step gives to a class. -/
def pool? (k : ClassId) : Step Code σ → Option PoolId
  | perform (.usePool a p) => if a = k then some p else none
  | _ => none

/-- The flags that a step raises on a class. -/
def raises (k : ClassId) : Step Code σ → Flags
  | perform (.setHandler (.ofClass a) _) => if a = k then { hasHandler := true } else {}
  | perform (.usePool a _) => if a = k then { pooled := true } else {}
  | _ => {}

/-- What a step gives to a class goes into the slots for it, and raises their flags. -/
theorem redrawClass_eq (w : World Code σ) (s : Step Code σ) (k : ClassId) (c : ClassRecord Code) :
    ∃ parent classVars aliases, s.redrawClass w k c =
      { c with
        parent, classVars, aliases
        hooks := s.rehook (.ofClass k) c.hooks
        handler := (s.handler? (.ofClass k)).or c.handler
        pool := (s.pool? k).or c.pool
        flags := c.flags.union (s.raises k) } := by
  cases s with
  | perform op =>
    cases op with
    | inherit child parent =>
      simp only [redrawClass, Operation.redrawClass, rehook, handler?, pool?, raises,
        Flags.union_empty]
      split <;> exact ⟨_, _, _, rfl⟩
    | addAlias on new old =>
      cases on with
      | ofInstance i =>
        simp only [rehook, handler?, pool?, raises, Flags.union_empty]
        exact ⟨_, _, _, rfl⟩
      | ofClass a =>
        simp only [redrawClass, Operation.redrawClass, rehook, handler?, pool?, raises,
          Flags.union_empty]
        split <;> exact ⟨_, _, _, rfl⟩
    | addBefore on | addAfter on | setHandler on =>
      refine ⟨c.parent, c.classVars, c.aliases, ?_⟩
      cases on with
      | ofInstance i =>
        simp [redrawClass, Operation.redrawClass, rehook, handler?, pool?, raises]
      | ofClass a =>
        by_cases ha : k = a
        · simp [redrawClass, Operation.redrawClass, rehook, handler?, pool?, raises, ha, Flags.union]
        · simp [redrawClass, Operation.redrawClass, rehook, handler?, pool?, raises, ha, Ne.symm ha]
    | usePool a p =>
      refine ⟨c.parent, c.classVars, c.aliases, ?_⟩
      by_cases ha : k = a
      · simp [redrawClass, Operation.redrawClass, rehook, handler?, pool?, raises, ha, Flags.union]
      · simp [redrawClass, Operation.redrawClass, rehook, handler?, pool?, raises, ha, Ne.symm ha]
    | _ =>
      simp only [rehook, handler?, pool?, raises, Flags.union_empty]
      exact ⟨_, _, _, rfl⟩
  | _ =>
    simp only [rehook, handler?, pool?, raises, Flags.union_empty]
    exact ⟨_, _, _, rfl⟩

/-- What a step gives to an instance that it does not give up goes into the slots for it. -/
theorem redrawInstance_eq (w : World Code σ) (s : Step Code σ) (i : InstanceId)
    (r : InstanceRecord Code) (hs : s ≠ .perform (.retire i)) :
    ∃ aliases vars, s.redrawInstance w i r =
      { r with
        state := { r.state with
          aliases, vars
          hooks := s.rehook (.ofInstance i) r.state.hooks
          handler := (s.handler? (.ofInstance i)).or r.state.handler } } := by
  cases s with
  | perform op =>
    cases op with
    | addAlias on new old =>
      cases on with
      | ofClass k => exact ⟨_, _, rfl⟩
      | ofInstance j =>
        simp only [redrawInstance, Operation.redrawInstance]
        split <;> exact ⟨_, _, rfl⟩
    | addBefore on | addAfter on | setHandler on =>
      refine ⟨r.state.aliases, r.state.vars, ?_⟩
      cases on with
      | ofClass k => simp [redrawInstance, Operation.redrawInstance, rehook, handler?]
      | ofInstance j =>
        by_cases hj : i = j
        · simp [redrawInstance, Operation.redrawInstance, rehook, handler?, hj]
        · simp [redrawInstance, Operation.redrawInstance, rehook, handler?, hj, Ne.symm hj]
    | store ref op =>
      cases ref with
      | classVars on => exact ⟨_, _, rfl⟩
      | instanceVars j =>
        simp only [redrawInstance, Operation.redrawInstance]
        split <;> exact ⟨_, _, rfl⟩
    | retire j =>
      have hj : i ≠ j := by
        rintro rfl
        exact hs rfl
      simp only [redrawInstance, Operation.redrawInstance, if_neg hj]
      exact ⟨_, _, rfl⟩
    | _ => exact ⟨_, _, rfl⟩
  | assign j name v =>
    simp only [redrawInstance]
    split <;> exact ⟨_, _, rfl⟩
  | _ => exact ⟨_, _, rfl⟩

/-- Nothing moves an instance to another class or to other class variables. -/
theorem origin_redrawInstance (w : World Code σ) (s : Step Code σ) (i : InstanceId)
    (r : InstanceRecord Code) :
    (s.redrawInstance w i r).classId = r.classId ∧
      (s.redrawInstance w i r).classVars = r.classVars := by
  by_cases hs : s = .perform (.retire i)
  · subst hs
    simp [redrawInstance, Operation.redrawInstance]
  · obtain ⟨_, _, drawn⟩ := s.redrawInstance_eq w i r hs
    rw [drawn]
    exact ⟨rfl, rfl⟩

/-- An instance stays with its class. -/
theorem classOf_next {w : World Code σ} {x : Receiver} (hx : w.Has x) (s : Step Code σ) :
    (s.next w).classOf x = w.classOf x := by
  cases x with
  | ofClass k => rfl
  | ofInstance i =>
    have drawn : ((s.next w).instanceAt i).classId =
        (s.redrawInstance w i (w.instanceAt i)).classId :=
      congrArg (·.classId) ((redrawn_next w s).instances i hx)
    exact drawn.trans (origin_redrawInstance w s i _).1

/-- An instance keeps the store of its class variables. -/
theorem classVars_next {w : World Code σ} {i : InstanceId} (hi : w.Has (.ofInstance i))
    (s : Step Code σ) : ((s.next w).instanceAt i).classVars = (w.instanceAt i).classVars := by
  have drawn : ((s.next w).instanceAt i).classVars =
      (s.redrawInstance w i (w.instanceAt i)).classVars :=
    congrArg (·.classVars) ((redrawn_next w s).instances i hi)
  exact drawn.trans (origin_redrawInstance w s i _).2

end Step

/-- A property of outlines that classes are made with, and that redrawing keeps, is kept by
a step. -/
theorem World.classes_next {w : World Code σ} {P : ClassRecord Code → Prop}
    (hw : ∀ k, P (w.classAt k)) (s : Step Code σ)
    (congr : ∀ c d : ClassRecord Code, d.outline = c.outline → P c → P d)
    (drawn : ∀ k c, P c → P (s.redrawClass w k c))
    (made : ∀ name store uncached, P { name, classVars := store, flags := { uncached } })
    (k : ClassId) : P ((s.next w).classAt k) := by
  by_cases hk : w.Has (.ofClass k)
  · exact congr _ _ ((s.redrawn_next w).classes k hk) (drawn k _ (hw k))
  · by_cases hv : (s.next w).Has (.ofClass k)
    · have hm := (((s.redrawn_next w).has _).mp hv).resolve_left hk
      cases s with
      | perform op =>
        cases op with
        | newClass name c =>
          obtain rfl := Receiver.ofClass.inj (Option.some.inj hm)
          rw [Step.next, Operation.apply, classAt_newClass]
          exact made _ _ _
        | instantiate a => simp [Step.makes?, Operation.makes?] at hm
        | _ => contradiction
      | _ => contradiction
    · rw [classAt_of_not_has hv, ← classAt_of_not_has hk]
      exact hw k

end ObjectModel
