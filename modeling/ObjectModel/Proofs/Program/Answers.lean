import ObjectModel.Proofs.Program.Behind

/-!
# Answers behind a veil

In worlds that look the same behind a veil an operation answers the same, except
where the answer itself tells about something hidden. Lookups find the same too; if
what is remembered is hidden, it takes that nothing false is remembered.
-/
namespace ObjectModel
variable {Code σ α : Type}

/-- Debug texts of an instance that are the same but for the order of the variables. -/
def SameSketch (a b : String) : Prop :=
  ∃ shown vars vars', List.Perm vars vars' ∧
    a = Text.record "Instance" (shown ++ [("vars", Text.map vars)]) ∧
    b = Text.record "Instance" (shown ++ [("vars", Text.map vars')])

/-- Answers to a question that are the same as far as a veil shows. In which order a map has
its entries tells what it held before, so that it tells about pools. -/
def Query.SameBehind (veil : Veil) : (q : Query) → q.Answer Code → q.Answer Code → Prop
  | .cacheCounters _, a, b => veil.caches = false → a = b
  | .depth, a, b => veil.frames = false → a = b
  | .pool _, a, b => veil.pools = false → a = b
  | .poolSummary _, a, b => a.capacity = b.capacity ∧ (veil.pools = false → a = b)
  | .flags _, a, b => veil.ofFlags a = veil.ofFlags b
  | .classDebug _, a, b =>
    ∃ shown f g, veil.ofFlags f = veil.ofFlags g ∧
      a = Text.record "Class" (shown ++ [("flags", f.debug)]) ∧
      b = Text.record "Class" (shown ++ [("flags", g.debug)])
  | .instanceDebug _ _, a, b => SameSketch a b ∧ (veil.pools = false → a = b)
  | _, a, b => a = b

/-- Answers of an operation that are the same as far as a veil shows. Whether a pool
has kept a state, or how many it had, tells about the pool. -/
def Operation.SameBehind (veil : Veil) : (op : Operation Code σ) → op.Answer → op.Answer → Prop
  | .retire _, a, b => veil.pools = false → a = b
  | .release _ _, a, b => veil.pools = false → a = b
  | .clearPool _, a, b => veil.pools = false → a = b
  | .query q, a, b => q.SameBehind veil a b
  | _, a, b => a = b

namespace World
variable {veil : Veil} {w v : World Code σ}

theorem same_of_behind {f : World Code σ → α} (hf : ∀ u, f (u.behind veil) = f u)
    (h : v.behind veil = w.behind veil) : f w = f v := by
  rw [← hf w, ← h, hf v]

theorem same_of_class {f : ClassRecord Code → α} (hf : ∀ c, f (veil.ofClass c) = f c)
    (h : v.behind veil = w.behind veil) (k : ClassId) : f (w.classAt k) = f (v.classAt k) := by
  refine same_of_behind (f := fun u => f (u.classAt k)) (fun u => ?_) h
  rw [classAt_behind, hf]

theorem same_of_instance {f : InstanceRecord Code → α} (hf : ∀ r, f (veil.ofInstance r) = f r)
    (h : v.behind veil = w.behind veil) (i : InstanceId) :
    f (w.instanceAt i) = f (v.instanceAt i) := by
  refine same_of_behind (f := fun u => f (u.instanceAt i)) (fun u => ?_) h
  rw [instanceAt_behind, hf]

theorem methodNames_behind (w : World Code σ) (side : Side) (k : ClassId) :
    (w.behind veil).methodNames side k = w.methodNames side k := by
  simp only [methodNames, lineage_behind, classAt_behind, Veil.table_ofClass]

theorem flags_same (h : v.behind veil = w.behind veil) (k : ClassId) :
    veil.ofFlags (w.classAt k).flags = veil.ofFlags (v.classAt k).flags :=
  same_of_class (f := fun c => veil.ofFlags c.flags) (fun _ => veil.ofFlags_ofFlags _) h k

/-- What the debug text of a class shows before its flags. -/
def debugFields (w : World Code σ) (k : ClassId) : List (String × String) :=
  [("id", toString k.number), ("name", Text.quote (w.classAt k).name),
    ("parent", (w.classAt k).parent.elim "None" fun p =>
      Text.applied "Some" (Text.quote (w.classAt p).name))]

theorem classDebug_eq (w : World Code σ) (k : ClassId) :
    w.classDebug k =
      Text.record "Class" (w.debugFields k ++ [("flags", (w.classAt k).flags.debug)]) := by
  simp only [classDebug, debugFields]
  cases (w.classAt k).parent <;> rfl

theorem debugFields_behind (w : World Code σ) (k : ClassId) :
    (w.behind veil).debugFields k = w.debugFields k := by
  simp only [debugFields, classAt_behind]
  rfl

/-- What the debug text of an instance shows before its variables. -/
def sketchFields (w : World Code σ) (i : InstanceId) : List (String × String) :=
  [("id", toString i.number),
    ("class", Text.quote (w.classAt (w.instanceAt i).classId).name)]

theorem instanceDebug_eq (w : World Code σ) (i : InstanceId) (order : List String) :
    w.instanceDebug i order = Text.record "Instance" (w.sketchFields i ++
      [("vars", Text.map (((w.stateAt i).vars.listed order).map fun e =>
        (Text.quote e.1, e.2.debug)))]) := rfl

/-- In whatever orders two maps have the same variables, the texts of an instance differ in
nothing else. -/
theorem sameSketch_instanceDebug (h : v.behind veil = w.behind veil) (i : InstanceId)
    (order order' : List String) :
    SameSketch (w.instanceDebug i order) (v.instanceDebug i order') := by
  have fields : w.sketchFields i = v.sketchFields i := by
    refine same_of_behind (f := (·.sketchFields i)) (fun u => ?_) h
    simp only [sketchFields, classAt_behind, instanceAt_behind]
    rfl
  have vars : (w.stateAt i).vars = (v.stateAt i).vars :=
    same_of_instance (f := (·.state.vars)) (fun _ => rfl) h i
  have perm : ((w.stateAt i).vars.listed order).Perm ((v.stateAt i).vars.listed order') := by
    rw [vars]
    exact (Variables.listed_perm _ order).trans (Variables.listed_perm _ order').symm
  refine ⟨w.sketchFields i, _, _, perm.map _, w.instanceDebug_eq i order, ?_⟩
  rw [fields]
  exact v.instanceDebug_eq i order'

theorem sameBehind_answer (h : v.behind veil = w.behind veil) (q : Query) :
    q.SameBehind veil (w.answer q) (v.answer q) := by
  cases q with
  | className k => exact same_of_class (f := (·.name)) (fun _ => rfl) h k
  | parent k => exact same_of_class (f := (·.parent)) (fun _ => rfl) h k
  | ownMethods k => exact same_of_class (f := (·.methods.names)) (fun _ => rfl) h k
  | aliases k => exact same_of_class (f := (·.aliases.toList)) (fun _ => rfl) h k
  | version k => exact same_of_class (f := (·.version)) (fun _ => rfl) h k
  | singletonMethods i =>
    exact same_of_instance (f := (·.state.singletonMethods.names)) (fun _ => rfl) h i
  | hasSingletons i => exact same_of_instance (f := (·.state.singletons.isSome)) (fun _ => rfl) h i
  | lineage k => exact same_of_behind (f := (·.lineage k)) (fun u => u.lineage_behind k) h
  | descendsFrom k other =>
    exact same_of_behind (f := (·.descendsFrom k other)) (fun u => u.descendsFrom_behind k other) h
  | methodNames side k =>
    exact same_of_behind (f := (·.methodNames side k)) (fun u => u.methodNames_behind side k) h
  | classOf on => exact same_of_behind (f := (·.classOf on)) (fun u => u.classOf_behind on) h
  | variablesOf ref =>
    exact same_of_behind (f := (·.variablesOf ref)) (fun u => u.variablesOf_behind ref) h
  | classVarsOf on =>
    exact same_of_behind (f := (·.classVarsOf on)) (fun u => u.classVarsOf_behind on) h
  | descendsFromNamed k name =>
    refine same_of_behind (f := (·.descendsFromNamed k name)) (fun u => ?_) h
    simp only [descendsFromNamed, lineage_behind, classAt_behind]
    rfl
  | understands k name =>
    refine same_of_behind (f := (·.understands k name)) (fun u => ?_) h
    simp only [understands, definition?_behind]
  | instanceMethodNames i =>
    refine same_of_behind (f := (·.instanceMethodNames i)) (fun u => ?_) h
    simp only [instanceMethodNames, methodNames_behind, stateAt_behind, instanceAt_behind]
    rfl
  | instanceDebug i order =>
    refine ⟨sameSketch_instanceDebug h i order order, fun _ => ?_⟩
    refine same_of_behind (f := (·.instanceDebug i order)) (fun u => ?_) h
    simp only [instanceDebug, classAt_behind, instanceAt_behind]
    rfl
  | flags k => exact flags_same h k
  | classDebug k =>
    have fields : w.debugFields k = v.debugFields k :=
      same_of_behind (f := (·.debugFields k)) (fun u => u.debugFields_behind k) h
    refine ⟨w.debugFields k, _, _, flags_same h k, w.classDebug_eq k, ?_⟩
    rw [fields]
    exact v.classDebug_eq k
  | cacheCounters on =>
    intro hv
    refine same_of_behind (f := (·.cacheCounters on)) (fun u => ?_) h
    cases on <;> simp [cacheCounters, Veil.ofState, Veil.ofClass, hv]
  | depth =>
    intro hv
    refine same_of_behind (f := (·.frames.length)) (fun u => ?_) h
    simp [behind, hv]
  | pool k =>
    intro hv
    refine same_of_class (f := (·.pool)) (fun c => ?_) h k
    simp [Veil.ofClass, hv]
  | poolSummary p =>
    refine ⟨same_of_behind (f := fun u => (u.poolAt p).capacity) (fun u => ?_) h, fun hv =>
      same_of_behind (f := fun u => (u.poolAt p).summary) (fun u => ?_) h⟩
    · rw [poolAt_behind, Veil.ofPool]
      cases veil.pools <;> rfl
    · simp [Veil.ofPool, hv]

theorem nearest?_same (h : v.behind veil = w.behind veil) (on : Receiver) (name : String) :
    w.nearest? on name = v.nearest? on name :=
  same_of_behind (f := (·.nearest? on name)) (fun u => nearest?_behind u on name) h

/-- Lookups find the same in worlds that look the same. If caches are hidden, it takes
that nothing false is remembered. -/
theorem lookUp_fst_same (h : v.behind veil = w.behind veil)
    (hs : veil.caches = true → w.Sound ∧ v.Sound) (on : Receiver) (name : String) :
    (w.lookUp on name).1 = (v.lookUp on name).1 := by
  cases hv : veil.caches with
  | true =>
    obtain ⟨hw, hv⟩ := hs hv
    rw [hw.lookUp_fst, hv.lookUp_fst, nearest?_same h]
  | false =>
    refine same_of_behind (f := fun u => (u.lookUp on name).1) (fun u => ?_) h
    rw [lookUp_behind hv]
    rfl

/-- Above the same level super calls find the same in worlds that look the same. -/
theorem superDefinition?_same (h : v.behind veil = w.behind veil) {on : Receiver} {name : String}
    (hs : w.startLevel? on name = v.startLevel? on name) :
    w.superDefinition? on name = v.superDefinition? on name := by
  have levels : w.levels on = v.levels on :=
    same_of_behind (f := (·.levels on)) (fun u => u.levels_behind on) h
  have defined : w.definitionOn? on name = v.definitionOn? on name :=
    same_of_behind (f := (·.definitionOn? on name)) (fun u => funext (u.definitionOn?_behind on name)) h
  simp only [superDefinition?, levelsAfter, hs, levels, defined]

theorem target_same (h : v.behind veil = w.behind veil) (on : Receiver) (name : String) :
    w.target on name = v.target on name :=
  same_of_behind (f := (·.target on name)) (fun u => u.target_behind on name) h

theorem lookUp_target_same (h : v.behind veil = w.behind veil)
    (hs : veil.caches = true → w.Sound ∧ v.Sound) (i : InstanceId) (name : String) :
    (w.lookUpInstance i (w.target (.ofInstance i) name)).1 =
      (v.lookUpInstance i (v.target (.ofInstance i) name)).1 := by
  rw [← target_same h]
  exact lookUp_fst_same h hs (.ofInstance i) _

theorem poolAt_same (hv : veil.pools = false) (h : v.behind veil = w.behind veil) (p : PoolId) :
    w.poolAt p = v.poolAt p := by
  refine same_of_behind (f := (·.poolAt p)) (fun u => ?_) h
  simp [Veil.ofPool, hv]

/-- An operation answers the same in worlds that look the same. -/
theorem sameBehind_apply (h : v.behind veil = w.behind veil)
    (hs : veil.caches = true → w.Sound ∧ v.Sound) (op : Operation Code σ) :
    op.SameBehind veil (op.apply w).1 (op.apply v).1 := by
  cases op with
  | query q => exact sameBehind_answer h q
  | inherit child parent =>
    refine same_of_behind (f := fun u => (u.inherit child parent).1) (fun u => ?_) h
    simp only [inherit, descendsFrom_behind, classAt_behind]
    split <;> rfl
  | removeMethod on name =>
    refine same_of_behind (f := fun u => (u.removeMethod on name).1) (fun u => ?_) h
    simp only [removeMethod, methodsAt_behind]
    split <;> rfl
  | defineFromValue k name v =>
    simp only [Operation.SameBehind, Operation.apply, defineFromValue]
    split <;> rfl
  | store ref op =>
    refine same_of_behind (f := fun u => (u.applyToStore ref op).1) (fun u => ?_) h
    simp only [applyToStore, variablesOf_behind]
    rfl
  | responds on name =>
    cases on with
    | ofInstance i => exact congrArg (·.isSome) (lookUp_target_same h hs i name)
    | ofClass k => exact congrArg (·.isSome) (lookUp_fst_same h hs (.ofClass k) name)
  | resolve i name => exact congrArg (·.map (·.method)) (lookUp_target_same h hs i name)
  | newClass name c =>
    refine same_of_behind (f := fun u => (u.newClass name c).1) (fun u => ?_) h
    exact congrArg (fun n => ClassId.mk (n + 1)) (Registry.size_map ..)
  | instantiate k =>
    refine same_of_behind (f := fun u => (u.instantiate k).1) (fun u => ?_) h
    simp only [instantiate_eq]
    exact congrArg (fun n => InstanceId.mk (n + 1)) (Registry.size_map ..)
  | newPool capacity =>
    refine same_of_behind (f := fun u => (u.newPool capacity).1) (fun u => ?_) h
    exact congrArg (fun n => PoolId.mk (n + 1)) (Registry.size_map ..)
  | acquire p => simp only [Operation.SameBehind, Operation.apply, acquire_eq]
  | release p s =>
    intro hv
    simp only [Operation.apply, release, poolAt_same hv h p]
  | clearPool p =>
    intro hv
    simp only [Operation.apply, clearPool, poolAt_same hv h p]
  | retire i =>
    intro hv
    have hp : (w.instanceAt i).pool = (v.instanceAt i).pool := by
      refine same_of_instance (f := (·.pool)) (fun r => ?_) h i
      simp [Veil.ofInstance, hv]
    simp only [Operation.apply, retire_fst, hp, poolAt_same hv h]
  | readHost => exact same_of_behind (f := (·.host)) (fun u => rfl) h
  | box r => exact same_of_behind (f := fun u => (u.box r).1) (fun u => rfl) h
  | _ => rfl

end World

/-- Answers that tell about nothing hidden are the same. -/
theorem Operation.eq_of_sameBehind {veil : Veil} {op : Operation Code σ} {a b : op.Answer}
    (h : op.SameBehind veil a b) (hp : veil.pools = false) (hm : veil.marks = false)
    (hd : veil.frames = true → op ≠ .query .depth)
    (hc : veil.caches = true → ∀ on, op ≠ .query (.cacheCounters on)) : a = b := by
  have shown : ∀ f, veil.ofFlags f = f := by
    intro f
    simp [Veil.ofFlags, hp, hm]
  cases op with
  | query q =>
    cases q with
    | cacheCounters on => exact h (by simpa using fun hv => hc hv on rfl)
    | depth => exact h (by simpa using fun hv => hd hv rfl)
    | pool k => exact h hp
    | poolSummary p => exact h.2 hp
    | instanceDebug i order => exact h.2 hp
    | flags k => exact (shown a).symm.trans (Eq.trans h (shown b))
    | classDebug k =>
      obtain ⟨fields, f, g, hfg, rfl, rfl⟩ := h
      rw [shown, shown] at hfg
      rw [hfg]
    | _ => exact h
  | retire i => exact h hp
  | release p s => exact h hp
  | clearPool p => exact h hp
  | _ => exact h

end ObjectModel
