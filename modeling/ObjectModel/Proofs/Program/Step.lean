import ObjectModel.Proofs.Lookup.Order
import ObjectModel.Proofs.Program.Effect
import ObjectModel.Proofs.Program.Keeping

/-!
# Steps of a run

A run is a sequence of steps: operations, lookups, and what delivery itself
changes in the world. Whatever holds in the initial world and is kept by every
step holds whenever a run has got anywhere. Worlds stay sound, and methods
stay under their own names.
-/
namespace ObjectModel
variable {Code σ α : Type}

/-- What a run does to the world at once. -/
inductive Step (Code σ : Type) where
  | perform (op : Operation Code σ)
  | lookUp (on : Receiver) (name : String)
  | lookUpSuper (on : Receiver) (name : String)
  | assign (i : InstanceId) (name : String) (v : Value Code)
  | record (e : Event Code)
  | push (f : Frame)
  | pop

namespace Step
variable {w : World Code σ} {s : Step Code σ} {on : Receiver}

open Relation (ReflTransGen TransGen)
open World (Touched Idle)

/-- The world after a step. -/
def next (w : World Code σ) : Step Code σ → World Code σ
  | perform op => (op.apply w).2
  | lookUp on name => (w.lookUp on name).2
  | lookUpSuper on name => (w.lookUpSuper on name).2
  | assign i name v => w.modifyState i fun s => { s with vars := s.vars.insert name v }
  | record e => w.record e
  | push f => w.pushFrame f
  | pop => w.popFrame

/-- The receiver whose definitions a step changes in a world. -/
def redefines? (w : World Code σ) : Step Code σ → Option Receiver
  | perform op => op.redefines? w
  | _ => none

/-- The instance that a step makes or retires. -/
def renews? (w : World Code σ) : Step Code σ → Option InstanceId
  | perform op => op.renews? w
  | _ => none

theorem touched_next (hw : w.Sound) (h : s.redefines? w = some on) :
    TransGen (Touched on) w (s.next w) := by
  cases s with
  | perform op => exact Operation.touched_apply hw h
  | _ => contradiction

theorem idle_next (h : s.redefines? w = none) : ReflTransGen (Idle (s.renews? w)) w (s.next w) := by
  cases s with
  | perform op => exact Operation.idle_apply h
  | lookUp on name => exact .single (.recalled (World.recalled_lookUp w on name))
  | lookUpSuper on name => exact .single (.recalled (World.recalled_lookUpSuper w on name))
  | assign i name v =>
    let f : ObjectState Code → ObjectState Code := fun s => { s with vars := s.vars.insert name v }
    have hf : ∀ s, (f s).lookupPart = s.lookupPart := fun _ => rfl
    exact .single (.quiet (World.quiet_modifyState hf w i))
  | record e => exact .single (.quiet (World.quiet_of_records rfl rfl rfl))
  | push f => exact .single (.quiet (World.quiet_of_records rfl rfl rfl))
  | pop => exact .single (.quiet (World.quiet_of_records rfl rfl rfl))

end Step

namespace World
variable {w v : World Code σ}

/-- The world after steps. -/
def after (w : World Code σ) (steps : List (Step Code σ)) : World Code σ :=
  steps.foldl Step.next w

@[simp] theorem after_nil (w : World Code σ) : w.after [] = w := rfl

@[simp] theorem after_cons (w : World Code σ) (s : Step Code σ) (steps : List (Step Code σ)) :
    w.after (s :: steps) = (s.next w).after steps := rfl

theorem after_append (w : World Code σ) (a b : List (Step Code σ)) :
    w.after (a ++ b) = (w.after a).after b :=
  List.foldl_append

/-- What changes of both kinds keep is kept by a step. -/
theorem next_induction {P : World Code σ → Prop} (hw : w.Sound) (h : P w)
    (touched : ∀ on v u, Touched on v u → P v → P u)
    (idle : ∀ i v u, Idle i v u → P v → P u) (s : Step Code σ) : P (s.next w) := by
  cases hs : s.redefines? w with
  | some on =>
    have run := (Step.touched_next hw hs).to_reflTransGen
    generalize s.next w = u at run
    induction run with
    | refl => exact h
    | tail _ hstep ih => exact touched on _ _ hstep ih
  | none =>
    have run := Step.idle_next hs
    generalize s.next w = u at run
    induction run with
    | refl => exact h
    | tail _ hstep ih => exact idle _ _ _ hstep ih

theorem Sound.next (hw : w.Sound) (s : Step Code σ) : (s.next w).Sound :=
  next_induction hw hw (fun _ _ _ h => h.sound) (fun _ _ _ h => h.sound) s

theorem Named.next (hw : w.Sound) (hn : w.Named) (s : Step Code σ) : (s.next w).Named :=
  next_induction hw hn (fun _ _ _ h => h.named) (fun _ _ _ h => h.named) s

theorem Sound.has_next (hw : w.Sound) {x : Receiver} (hx : w.Has x) (s : Step Code σ) :
    (s.next w).Has x :=
  next_induction (P := fun v => v.Has x) hw hx (fun _ _ _ h => (h.has x).mpr)
    (fun _ _ _ h => h.has x) s

theorem Sound.after (hw : w.Sound) (steps : List (Step Code σ)) : (w.after steps).Sound := by
  induction steps generalizing w with
  | nil => exact hw
  | cons s steps ih => exact ih (hw.next s)

/-- What every step keeps is kept by a run. -/
theorem Sound.after_induction {P : World Code σ → Prop} {steps : List (Step Code σ)} (hw : w.Sound)
    (h : P w) (step : ∀ v, ∀ s ∈ steps, v.Sound → P v → P (s.next v)) : P (w.after steps) := by
  induction steps generalizing w with
  | nil => exact h
  | cons s steps ih =>
    refine ih (hw.next s) (step w s List.mem_cons_self hw h) fun v t ht => ?_
    exact step v t (List.mem_cons_of_mem s ht)

/-- What every step keeps while a receiver is there is kept by a run, since nothing takes the
receiver away. -/
theorem Sound.after_induction_of_has {P : World Code σ → Prop} {steps : List (Step Code σ)}
    {x : Receiver} (hw : w.Sound) (hx : w.Has x) (h : P w)
    (step : ∀ v, ∀ s ∈ steps, v.Sound → v.Has x → P v → P (s.next v)) : P (w.after steps) := by
  refine (hw.after_induction (P := fun v => v.Has x ∧ P v) ⟨hx, h⟩ ?_).2
  rintro v s hs hv ⟨there, kept⟩
  exact ⟨hv.has_next there s, step v s hs hv there kept⟩

theorem Named.after (hw : w.Sound) (hn : w.Named) (steps : List (Step Code σ)) :
    (w.after steps).Named :=
  hw.after_induction hn fun _ s _ hv named => named.next hv s

theorem classAt_initial (h : σ) (k : ClassId) : (initial h : World Code σ).classAt k = default := by
  apply classAt_of_not_has
  intro hk
  have hn := has_ofClass_iff.mp hk
  simp [initial, Registry.size] at hn
  omega

theorem stateAt_initial (h : σ) (i : InstanceId) :
    (initial h : World Code σ).stateAt i = .new := by
  rw [stateAt, instanceAt_of_not_has]
  · rfl
  · simp [Has, initial, Registry.find?]

theorem sound_initial (h : σ) : (initial h : World Code σ).Sound where
  rooted k := ⟨[k], .root (by rw [parentOf, classAt_initial]; rfl)⟩
  classVersion k := by
    rw [classAt_initial]
    exact Nat.zero_le _
  stateVersion i := by
    rw [stateAt_initial]
    exact Nat.zero_le _
  classCache k side := by
    rw [classAt_initial]
    cases side <;> exact .of_empty rfl (Nat.zero_le _)
  stateCache i := by
    rw [stateAt_initial]
    exact .of_empty rfl (Nat.zero_le _)

theorem named_initial (h : σ) : (initial h : World Code σ).Named where
  classes k side := by
    rw [classAt_initial]
    cases side <;> exact MethodDictionary.named_empty _
  states i := by
    rw [stateAt_initial]
    exact ObjectState.named_new

/-- Wherever a run has got from the initial world, the world is sound. -/
theorem sound_after (h : σ) (steps : List (Step Code σ)) : ((initial h).after steps).Sound :=
  (sound_initial h).after steps

theorem named_after (h : σ) (steps : List (Step Code σ)) : ((initial h).after steps).Named :=
  (named_initial h).after (sound_initial h) steps

end World

/-- A run that ends has taken steps. -/
def Run.Stepwise (r : Run Code σ α) : Prop :=
  ∀ w a v, r w = .ok (a, v) → ∃ steps, v = w.after steps

namespace Run

theorem kept_steps : Kept fun w v : World Code σ => ∃ steps, v = w.after steps where
  refl _ := ⟨[], rfl⟩
  trans := by
    rintro w _ _ ⟨steps, rfl⟩ ⟨more, rfl⟩
    exact ⟨steps ++ more, (World.after_append w steps more).symm⟩
  perform _ op := ⟨[.perform op], rfl⟩
  lookUp _ on name := ⟨[.lookUp on name], rfl⟩
  lookUpSuper _ on name := ⟨[.lookUpSuper on name], rfl⟩
  assign _ i name v := ⟨[.assign i name v], rfl⟩
  record _ e := ⟨[.record e], rfl⟩
  framed := by
    rintro w f _ ⟨steps, rfl⟩
    refine ⟨.push f :: (steps ++ [.pop]), ?_⟩
    rw [World.after_cons, World.after_append]
    rfl

variable {host : Host Code σ} {performer : Performer Code σ}

theorem stepwise_script (hp : ∀ m, (performer m).Stepwise) (s : Script Code σ α) :
    (s.run performer).Stepwise :=
  keeps_script kept_steps hp s

/-- A body is recorded, and then does its work by steps. -/
theorem runBody_eq (host : Host Code σ) (hp : ∀ m, (performer m).Stepwise) (m : Method Code)
    (on : Receiver) (args : List (Value Code)) :
    ∃ work : Run Code σ (Outcome Code), work.Stepwise ∧
      ∀ w, runBody host performer m on args w = work (w.record (.body m on args w.frames)) :=
  runBody_recorded kept_steps host hp m on args

end Run

namespace Host

theorem stepwise_performer (host : Host Code σ) (fuel : Nat) (m : Message Code) :
    (host.performer fuel m).Stepwise :=
  Run.keeps_performer Run.kept_steps host fuel m

end Host
end ObjectModel
