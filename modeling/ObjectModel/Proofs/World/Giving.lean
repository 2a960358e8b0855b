import ObjectModel.Proofs.Program.Direct
import ObjectModel.Proofs.Program.Protocol

/-!
# What instance variables are given

A change that gives values to instance variables, and does nothing else that a call could
notice: methods, aliases, hooks, parents and class variables stay. Several such changes come
to one, in which the last gift to a variable counts.
-/
namespace ObjectModel
variable {Code σ : Type}

/-- What each variable is given: a value, or none if it is removed. -/
abbrev Gifts (Code : Type) := InstanceId → String → Option (Option (Value Code))

namespace Gifts

def nothing : Gifts Code := fun _ _ => none

/-- A gift to a single variable. -/
def single (i : InstanceId) (x : String) (value : Option (Value Code)) : Gifts Code :=
  fun j y => if j = i ∧ y = x then some value else none

end Gifts

namespace World
variable {w v u : World Code σ} {g g' : Gifts Code} {i : InstanceId} {x : String}

/-- Methods, aliases, hooks, parents and class variables are the same. -/
structure Steady (w v : World Code σ) : Prop extends Settled w v where
  has : ∀ x, v.Has x ↔ w.Has x
  classOf : ∀ x, v.classOf x = w.classOf x
  aliases : ∀ x, v.aliasesOf x = w.aliasesOf x
  hooks : ∀ x, v.hooksOf x = w.hooksOf x
  classVars : ∀ x, v.variablesOf (.classVars x) = w.variablesOf (.classVars x)

theorem Steady.refl (w : World Code σ) : Steady w w :=
  ⟨.refl w, fun _ => Iff.rfl, fun _ => rfl, fun _ => rfl, fun _ => rfl, fun _ => rfl⟩

theorem Steady.trans (h : Steady w v) (h' : Steady v u) : Steady w u where
  methods p := (h'.methods p).trans (h.methods p)
  parents := h'.parents.trans h.parents
  has x := (h'.has x).trans (h.has x)
  classOf x := (h'.classOf x).trans (h.classOf x)
  aliases x := (h'.aliases x).trans (h.aliases x)
  hooks x := (h'.hooks x).trans (h.hooks x)
  classVars x := (h'.classVars x).trans (h.classVars x)

section
variable (h : Steady w v) (hw : w.Sound)
include h hw

theorem Steady.order : v.order = w.order :=
  order_congr hw.rooted h.parents fun i => h.classOf (.ofInstance i)

theorem Steady.holders (on : Receiver) : v.holders on = w.holders on := by
  have lineage : v.lineage = w.lineage := lineage_of_parentOf hw.rooted h.parents
  cases on with
  | ofInstance i =>
    have ofClass : (v.instanceAt i).classId = (w.instanceAt i).classId := h.classOf (.ofInstance i)
    rw [World.holders, World.holders, lineage, ofClass]
  | ofClass k => rw [World.holders, World.holders, lineage]

theorem Steady.meaning (on : Receiver) (name : String) : v.meaning on name = w.meaning on name := by
  have aliases : v.aliasesOf = w.aliasesOf := funext h.aliases
  rw [World.meaning, World.meaning, h.holders hw, aliases]

theorem Steady.flatMap_holders (on : Receiver) (read : Hooks Code → List Code) :
    ((v.holders on).flatMap fun x => read (v.hooksOf x)) =
      (w.holders on).flatMap fun x => read (w.hooksOf x) := by
  rw [h.holders hw, funext h.hooks]

end

/-- Worlds with the same outlines and methods differ in nothing that matters. -/
theorem SameOutlines.steady (h : SameOutlines w v) (settled : Settled w v)
    (stores : v.stores = w.stores) : Steady w v where
  toSettled := settled
  has := h.has
  classOf on := by
    cases on with
    | ofInstance i => exact congrArg (·.classId) (h.instances i)
    | ofClass k => rfl
  aliases on := by
    cases on with
    | ofInstance i => exact congrArg (·.state.aliases) (h.instances i)
    | ofClass k => exact congrArg (·.aliases) (h.classes k)
  hooks on := by
    cases on with
    | ofInstance i => exact congrArg (·.state.hooks) (h.instances i)
    | ofClass k => exact congrArg (·.hooks) (h.classes k)
  classVars on := by
    have store : v.classVarsOf on = w.classVarsOf on := by
      cases on with
      | ofInstance i => exact congrArg (·.classVars) (h.instances i)
      | ofClass k => exact congrArg (·.classVars) (h.classes k)
    rw [variablesOf, storeAt, store, stores]
    rfl

/-- The variables of instances are given what the gifts say, and nothing else has changed. -/
structure Gives (g : Gifts Code) (w v : World Code σ) : Prop extends Steady w v where
  vars : ∀ i x, (v.variablesOf (.instanceVars i)).find? x =
    (g i x).getD ((w.variablesOf (.instanceVars i)).find? x)

theorem Gives.refl (w : World Code σ) : Gives .nothing w w := ⟨.refl w, fun _ _ => rfl⟩

/-- The later gift counts. -/
theorem Gives.trans (h : Gives g w v) (h' : Gives g' v u) :
    Gives (fun i x => (g' i x).or (g i x)) w u := by
  refine ⟨h.toSteady.trans h'.toSteady, fun i x => ?_⟩
  rw [h'.vars, h.vars, Option.getD_or]

theorem Gives.after_nothing (h : Gives .nothing w v) (h' : Gives g v u) : Gives g w u := by
  have all := h.trans h'
  simpa only [Gifts.nothing, Option.or_none] using all

theorem Gives.then_nothing (h : Gives g w v) (h' : Gives .nothing v u) : Gives g w u := by
  have all := h.trans h'
  simpa only [Gifts.nothing, Option.none_or] using all

theorem SameOutlines.gives (h : SameOutlines w v) (settled : Settled w v)
    (stores : v.stores = w.stores) : Gives .nothing w v := by
  refine ⟨h.steady settled stores, fun i x => ?_⟩
  have vars : v.variablesOf (.instanceVars i) = w.variablesOf (.instanceVars i) :=
    congrArg (·.state.vars) (h.instances i)
  rw [vars]
  rfl

theorem Recalled.gives (h : Recalled w v) : Gives .nothing w v :=
  h.sameOutlines.gives h.settled (congrArg (·.stores) h.same)

theorem gives_of_records (hc : v.classes = w.classes) (hi : v.instances = w.instances)
    (hs : v.stores = w.stores) : Gives .nothing w v := by
  refine (sameOutlines_of_records hc hi (by rw [hs])).gives ⟨fun p => ?_, funext fun k => ?_⟩ hs
  · cases p with
    | singleton i | own i => rw [methodsIn, stateAt, instanceAt, hi]; rfl
    | ofClass side k => rw [methodsIn, classAt, hc]; rfl
  · rw [parentOf, classAt, hc]
    rfl

theorem gives_record (w : World Code σ) (e : Event Code) : Gives .nothing w (w.record e) :=
  gives_of_records rfl rfl rfl

theorem gives_note (w : World Code σ) (line : String) : Gives .nothing w (w.note line) :=
  gives_of_records rfl rfl rfl

theorem gives_pushFrame (w : World Code σ) (f : Frame) : Gives .nothing w (w.pushFrame f) :=
  gives_of_records rfl rfl rfl

theorem gives_popFrame (w : World Code σ) : Gives .nothing w w.popFrame :=
  gives_of_records rfl rfl rfl

/-- What does not depend on variables reads the same after a change of variables. -/
theorem instanceAt_vars_congr {β : Type} (read : InstanceRecord Code → β)
    (hr : ∀ r vars, read { r with state := { r.state with vars } } = read r)
    (f : Variables Code → Variables Code) (w : World Code σ) (i j : InstanceId) :
    read ((w.modifyState i fun s => { s with vars := f s.vars }).instanceAt j) =
      read (w.instanceAt j) :=
  instanceAt_modifyInstance_congr read (fun r => hr r _) i j

theorem steady_vars (f : Variables Code → Variables Code) (w : World Code σ) (i : InstanceId) :
    Steady w (w.modifyState i fun s => { s with vars := f s.vars }) where
  toSettled := by
    have idle : Idle none w (w.modifyState i fun s => { s with vars := f s.vars }) :=
      .quiet (quiet_modifyState (f := fun s => { s with vars := f s.vars }) (fun _ => rfl) w i)
    exact (Settled.refl w).idle idle nofun
  has := has_modifyInstance i _
  classOf on := by
    cases on with
    | ofInstance j => exact instanceAt_vars_congr (·.classId) (fun _ _ => rfl) f w i j
    | ofClass k => rfl
  aliases on := by
    cases on with
    | ofInstance j => exact instanceAt_vars_congr (·.state.aliases) (fun _ _ => rfl) f w i j
    | ofClass k => rfl
  hooks on := by
    cases on with
    | ofInstance j => exact instanceAt_vars_congr (·.state.hooks) (fun _ _ => rfl) f w i j
    | ofClass k => rfl
  classVars on := by
    cases on with
    | ofInstance j =>
      exact congrArg w.storeAt (instanceAt_vars_congr (·.classVars) (fun _ _ => rfl) f w i j)
    | ofClass k => rfl

/-- A gift to one variable of an instance that is there. -/
theorem gives_modifyState {f : Variables Code → Variables Code} {value : Option (Value Code)}
    (hi : w.Has (.ofInstance i))
    (hf : ∀ y, (f (w.stateAt i).vars).find? y =
      if y = x then value else (w.stateAt i).vars.find? y) :
    Gives (.single i x value) w (w.modifyState i fun s => { s with vars := f s.vars }) := by
  refine ⟨steady_vars f w i, fun j y => ?_⟩
  rw [variablesOf, stateAt, Gifts.single]
  by_cases hj : j = i
  · subst hj
    rw [modifyState, instanceAt_modifyInstance_self hi]
    refine (hf y).trans ?_
    by_cases hy : y = x <;> simp [hy, variablesOf, stateAt]
  · rw [modifyState, instanceAt_modifyInstance_of_ne hj]
    simp [hj, variablesOf, stateAt]

theorem gives_set (hi : w.Has (.ofInstance i)) (x : String) (value : Value Code) :
    Gives (.single i x (some value)) w (w.applyToStore (.instanceVars i) (.set x value)).2 :=
  (gives_modifyState (f := fun _ => (w.stateAt i).vars.insert x value) hi
    fun y => Table.find?_insert _ x y value).then_nothing (gives_of_records rfl rfl rfl)

theorem gives_remove (hi : w.Has (.ofInstance i)) (x : String) :
    Gives (.single i x none) w (w.applyToStore (.instanceVars i) (.remove x)).2 :=
  (gives_modifyState (f := fun _ => (w.stateAt i).vars.erase x) hi
    fun y => Table.find?_erase _ x y).then_nothing (gives_of_records rfl rfl rfl)

end World
end ObjectModel
