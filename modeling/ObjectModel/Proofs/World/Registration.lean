import ObjectModel.Proofs.Lineage.Stamps
import ObjectModel.Proofs.World.Outline

/-!
# Registration of hooks

A new object has no hooks. From then on it has those that are registered on it,
in the order of their registration, until it is given up. Nothing takes a hook
away.
-/
namespace ObjectModel
variable {Code σ : Type}

namespace World

/-- The hooks that are registered on a receiver itself. -/
def hooksOf (w : World Code σ) : Receiver → Hooks Code
  | .ofInstance i => (w.stateAt i).hooks
  | .ofClass k => (w.classAt k).hooks

end World

namespace Step

/-- The code that a step registers on a receiver, to run before calls of a name. -/
def before? (on : Receiver) (name : String) : Step Code σ → Option Code
  | perform (.addBefore x called code) => if x = on ∧ called = name then some code else none
  | _ => none

/-- The code that a step registers on a receiver, to run after calls of a name. -/
def after? (on : Receiver) (name : String) : Step Code σ → Option Code
  | perform (.addAfter x called code) => if x = on ∧ called = name then some code else none
  | _ => none

/-- A code that is added stands behind the others of its name. -/
theorem listOf_append_eq (t : Table (List Code)) (called name : String) (code : Code) :
    Hooks.listOf (Hooks.append t called code) name =
      Hooks.listOf t name ++ (if called = name then some code else none).toList := by
  rw [Hooks.listOf_append]
  by_cases hn : name = called
  · subst hn
    simp
  · simp [hn, Ne.symm hn]

/-- A step puts the code that it registers behind the others. -/
theorem hooks_rehook (s : Step Code σ) (on : Receiver) (h : Hooks Code) (name : String) :
    (s.rehook on h).beforeOf name = h.beforeOf name ++ (s.before? on name).toList ∧
      (s.rehook on h).afterOf name = h.afterOf name ++ (s.after? on name).toList := by
  cases s with
  | perform op =>
    cases op with
    | addBefore x called code =>
      by_cases hx : x = on
      · simp only [rehook, before?, after?, hx, true_and, if_true]
        exact ⟨listOf_append_eq h.before called name code, (List.append_nil _).symm⟩
      · simp [rehook, before?, after?, hx]
    | addAfter x called code =>
      by_cases hx : x = on
      · simp only [rehook, before?, after?, hx, true_and, if_true]
        exact ⟨(List.append_nil _).symm, listOf_append_eq h.after called name code⟩
      · simp [rehook, before?, after?, hx]
    | _ => exact ⟨(List.append_nil _).symm, (List.append_nil _).symm⟩
  | _ => exact ⟨(List.append_nil _).symm, (List.append_nil _).symm⟩

end Step

namespace World
variable {w : World Code σ} {x : Receiver} {s : Step Code σ}

theorem hooksOf_next (hx : w.Has x) (hs : ¬ s.Retires x) :
    (s.next w).hooksOf x = s.rehook x (w.hooksOf x) := by
  cases x with
  | ofClass k =>
    have drawn := (s.redrawn_next w).classes k hx
    obtain ⟨_, _, _, given⟩ := s.redrawClass_eq w k (w.classAt k)
    exact congrArg (·.hooks) (drawn.trans (congrArg _ given))
  | ofInstance i =>
    have drawn := (s.redrawn_next w).instances i hx
    obtain ⟨_, _, given⟩ := s.redrawInstance_eq w i (w.instanceAt i) fun he => hs ⟨i, he, rfl⟩
    exact congrArg (·.state.hooks) (drawn.trans (congrArg _ given))

/-- A new object has no hooks. -/
theorem hooksOf_new (hx : ¬ w.Has x) (hv : (s.next w).Has x) : (s.next w).hooksOf x = {} := by
  have hm := (((s.redrawn_next w).has x).mp hv).resolve_left hx
  cases s with
  | perform op =>
    cases op with
    | newClass name c =>
      obtain rfl := Option.some.inj hm
      exact congrArg (·.hooks) (classAt_newClass w name c)
    | instantiate k =>
      obtain rfl := Option.some.inj hm
      rw [← instantiate_fst w k]
      exact congrArg (·.hooks) (stateAt_instantiate w k)
    | _ => contradiction
  | _ => contradiction

/-- Hooks stand in the order in which they were registered. -/
theorem hooksOf_after (hw : w.Sound) {steps : List (Step Code σ)} (hx : w.Has x)
    (hs : ∀ s ∈ steps, ¬ s.Retires x) (name : String) :
    ((w.after steps).hooksOf x).beforeOf name =
        (w.hooksOf x).beforeOf name ++ steps.filterMap (Step.before? x name) ∧
      ((w.after steps).hooksOf x).afterOf name =
        (w.hooksOf x).afterOf name ++ steps.filterMap (Step.after? x name) := by
  induction steps generalizing w with
  | nil => simp
  | cons s steps ih =>
    have rest := ih (hw.next s) (hw.has_next hx s) fun t ht => hs t (List.mem_cons_of_mem _ ht)
    rw [hooksOf_next hx (hs s List.mem_cons_self), (s.hooks_rehook x _ name).1,
      (s.hooks_rehook x _ name).2, List.append_assoc, List.append_assoc] at rest
    rw [after_cons, rest.1, rest.2]
    constructor
    · cases h : s.before? x name <;> simp [h]
    · cases h : s.after? x name <;> simp [h]

end World
end ObjectModel
