import ObjectModel.Proofs.Program.Protocol
import ObjectModel.Proofs.World.Handlers

/-!
# What an instance keeps and what it follows

An instance is made with the class variables of its class and with the handler that its
class has at that moment. It keeps the class variables for good, and the handler until it
gets one of its own. Methods, aliases, hooks and ancestry it does not keep: they are those
of the classes on the path of parent links from its class, as the path is now.
-/
namespace ObjectModel
variable {Code σ : Type}

namespace World
variable {w u : World Code σ} {i : InstanceId} {k : ClassId} {path : List ClassId}

/-- All that an instance shares with the classes on a path, after what is its own. -/
structure Follows (u : World Code σ) (i : InstanceId) (path : List ClassId) : Prop where
  methods : ∀ name, (u.lookUp (.ofInstance i) name).1 =
    (.singleton :: .own :: path.map Level.ofClass).findSome? (u.definitionOn? (.ofInstance i) name)
  aliases : ∀ name, u.target (.ofInstance i) name =
    ((.ofInstance i :: path.map Receiver.ofClass).findSome? fun x =>
      (u.aliasesOf x).find? name).getD name
  befores : ∀ name, u.beforeHooks (.ofInstance i) name =
    (.ofInstance i :: path.map Receiver.ofClass).flatMap fun x => (u.hooksOf x).beforeOf name
  afters : ∀ name, u.afterHooks (.ofInstance i) name =
    (.ofInstance i :: path.map Receiver.ofClass).flatMap fun x => (u.hooksOf x).afterOf name
  ancestry : ∀ c, u.descendsFrom (u.classOf (.ofInstance i)) c = true ↔ c ∈ path

/-- An instance follows the path from its class. -/
theorem Sound.follows (hu : u.Sound) (i : InstanceId)
    (hp : Chain u.parentOf (u.classOf (.ofInstance i)) path) : u.Follows i path := by
  have lineage : u.lineage (u.instanceAt i).classId = path := lineage_eq hp
  have holders : u.holders (.ofInstance i) = .ofInstance i :: path.map .ofClass := by
    rw [World.holders, lineage]
  refine ⟨fun name => ?_, fun name => ?_, fun name => ?_, fun name => ?_, fun c => ?_⟩
  · rw [hu.lookUp_fst, ← findSome?_levels, levels, lineage]
  · rw [target_eq_meaning, meaning, holders]
  · rw [(u.hooks_eq _ name).1, World.befores, holders]
  · rw [(u.hooks_eq _ name).2, World.afters, holders]
  · rw [descendsFrom_iff, classOf, lineage]

/-- An instance keeps its class and the store of its class variables. -/
theorem origin_after (hw : w.Sound) (hi : w.Has (.ofInstance i)) (steps : List (Step Code σ)) :
    (w.after steps).classOf (.ofInstance i) = w.classOf (.ofInstance i) ∧
      (w.after steps).classVarsOf (.ofInstance i) = w.classVarsOf (.ofInstance i) := by
  refine hw.after_induction_of_has (P := fun v =>
    v.classOf (.ofInstance i) = w.classOf (.ofInstance i) ∧
      v.classVarsOf (.ofInstance i) = w.classVarsOf (.ofInstance i)) hi ⟨rfl, rfl⟩ ?_
  rintro v s - - there ⟨sameClass, sameVars⟩
  exact ⟨(s.classOf_next there).trans sameClass, (s.classVars_next there).trans sameVars⟩

/-- Whatever happens after an instance was made, to its class, to other classes or to other
instances: it has the store of class variables that its class had at that moment, and it
has the handler that it was given last, or else the one of the nearest class on the path of
that moment that had one. It has no part in later handlers of classes. Everything else
that comes from classes comes from the path from its class as it is now. -/
theorem instance_keeps_and_follows (h : σ) (past : List (Step Code σ)) (k : ClassId)
    (late : List (Step Code σ)) :
    let w := (initial h).after past
    let i : InstanceId := (w.instantiate k).1
    let u := (w.instantiate k).2.after late
    (∀ s ∈ late, ¬ s.Retires (.ofInstance i)) →
      ∃ old new, Chain w.parentOf k old ∧ Chain u.parentOf k new ∧
        u.classVarsOf (.ofInstance i) = w.classVarsOf (.ofClass k) ∧
        u.handler? (.ofInstance i) = (late.reverse.findSome? (Step.handler? (.ofInstance i))).or
          (old.findSome? fun a => (w.classAt a).handler) ∧
        u.classOf (.ofInstance i) = k ∧ u.Follows i new := by
  intro w i u hs
  have hw : w.Sound := sound_after h past
  have hv : (w.instantiate k).2.Sound := hw.next (.perform (.instantiate k))
  have hu : u.Sound := hv.after late
  have record := instanceAt_instantiate w k
  have made : (w.instantiate k).2.Has (.ofInstance i) := has_instantiate w k
  obtain ⟨sameClass, sameVars⟩ := origin_after hv made late
  have ofClass : u.classOf (.ofInstance i) = k := sameClass.trans (congrArg (·.classId) record)
  have handler := handler?_after hv made hs
  have given : (w.instantiate k).2.handler? (.ofInstance i) = w.lineageHandler? k :=
    congrArg (·.state.handler) record
  rw [given, (marked_after h past).lineageHandler?_eq k] at handler
  refine ⟨w.lineage k, u.lineage k, hw.rooted.chain k, hu.rooted.chain k, ?_, handler, ofClass, ?_⟩
  · exact sameVars.trans (congrArg (·.classVars) record)
  · refine hu.follows i ?_
    rw [ofClass]
    exact hu.rooted.chain k

/-- A class gets another parent and another handler after an instance was made. -/
theorem instance_keeps_handler_of_former_parent :
    let past : List (Step Nat Unit) :=
      [.perform (.newClass "A" {}), .perform (.setHandler (.ofClass ⟨1⟩) 1),
        .perform (.newClass "B" {}), .perform (.inherit ⟨2⟩ ⟨1⟩)]
    let late : List (Step Nat Unit) :=
      [.perform (.newClass "C" {}), .perform (.setHandler (.ofClass ⟨3⟩) 3),
        .perform (.inherit ⟨2⟩ ⟨3⟩), .perform (.setHandler (.ofClass ⟨1⟩) 2)]
    let w := (initial ()).after past
    let u := (w.instantiate ⟨2⟩).2.after late
    let i : Receiver := .ofInstance ⟨1⟩
    (∀ s ∈ late, ¬ s.Retires i) ∧ u.handler? i = some 1 ∧ u.handler? (.ofClass ⟨2⟩) = some 3 ∧
      u.classVarsOf i = ⟨1⟩ ∧ u.classVarsOf (.ofClass ⟨2⟩) = ⟨3⟩ ∧ u.Follows ⟨1⟩ [⟨2⟩, ⟨3⟩] := by
  intro past late w u i
  have kept : ∀ s ∈ late, ¬ s.Retires i := by
    rintro s hs ⟨j, rfl, -⟩
    simp [late] at hs
  obtain ⟨old, new, hold, hnew, vars, handler, -, follows⟩ :=
    instance_keeps_and_follows () past ⟨2⟩ late kept
  have former : w.lineage ⟨2⟩ = [⟨2⟩, ⟨1⟩] := by decide +kernel
  have latter : u.lineage ⟨2⟩ = [⟨2⟩, ⟨3⟩] := by decide +kernel
  obtain rfl : [⟨2⟩, ⟨1⟩] = old := former.symm.trans (lineage_eq hold)
  obtain rfl : [⟨2⟩, ⟨3⟩] = new := latter.symm.trans (lineage_eq hnew)
  refine ⟨kept, handler.trans ?_, by decide +kernel, vars.trans ?_, by decide +kernel, follows⟩
  · decide +kernel
  · decide +kernel

end World
end ObjectModel
