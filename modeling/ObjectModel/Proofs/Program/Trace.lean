import ObjectModel.Proofs.Program.Step

/-!
# Traces of runs

Operations and lookups start and end nothing: they leave the trace and the
frames alone. So the trace of a run only grows, and codes that are run one after
the other stand in it in this order, each followed by what it has started in
turn.
-/
namespace ObjectModel
variable {Code σ α : Type}

namespace World
variable {w v u : World Code σ}

/-- Nothing has started and nothing has ended. -/
structure Silent (w v : World Code σ) : Prop where
  frames : v.frames = w.frames
  trace : v.trace = w.trace

theorem Silent.refl (w : World Code σ) : Silent w w := ⟨rfl, rfl⟩

theorem Silent.trans (h : Silent w v) (h' : Silent v u) : Silent w u :=
  ⟨h'.frames.trans h.frames, h'.trace.trans h.trace⟩

/-- Pools have been left alone, too. -/
structure Still (w v : World Code σ) : Prop extends Silent w v where
  pools : v.pools = w.pools

theorem Still.refl (w : World Code σ) : Still w w := ⟨.refl w, rfl⟩

theorem Still.trans (h : Still w v) (h' : Still v u) : Still w u :=
  ⟨h.toSilent.trans h'.toSilent, h'.pools.trans h.pools⟩

theorem Recalled.still (h : Recalled w v) : Still w v :=
  ⟨⟨congrArg (·.frames) h.same, congrArg (·.trace) h.same⟩, congrArg (·.pools) h.same⟩

theorem Recalled.silent (h : Recalled w v) : Silent w v := h.still.toSilent

theorem still_stamp (w : World Code σ) (on : Receiver) : Still w (w.stamp on) := by
  cases on <;> exact ⟨⟨rfl, rfl⟩, rfl⟩

theorem still_modifyMethods (w : World Code σ) (on : Receiver)
    (f : MethodDictionary Code → MethodDictionary Code) : Still w (w.modifyMethods on f) := by
  cases on <;> exact ⟨⟨rfl, rfl⟩, rfl⟩

theorem still_modifyAliases (w : World Code σ) (on : Receiver) (f : Aliases → Aliases) :
    Still w (w.modifyAliases on f) := by
  cases on <;> exact ⟨⟨rfl, rfl⟩, rfl⟩

theorem still_modifyHooks (w : World Code σ) (on : Receiver) (f : Hooks Code → Hooks Code) :
    Still w (w.modifyHooks on f) := by
  cases on <;> exact ⟨⟨rfl, rfl⟩, rfl⟩

theorem still_defineMethod (w : World Code σ) (on : Receiver) (name : String) (m : Method Code) :
    Still w (w.defineMethod on name m) :=
  (still_modifyMethods w on _).trans (still_stamp _ on)

end World

namespace Operation
variable {w : World Code σ} {op : Operation Code σ}

open World (Silent Still)

/-- Whether an operation makes a pool, or takes from one or puts into one. -/
def usesPools : Operation Code σ → Bool
  | newPool _ | acquire _ | release _ _ | clearPool _ | instantiate _ | retire _ => true
  | _ => false

theorem still_apply (h : op.usesPools = false) : Still w (op.apply w).2 := by
  cases op with
  | newPool | acquire | release | clearPool | instantiate | retire => contradiction
  | defineFromValue | defineReaders | defineWriters | defineAccessors =>
    rw [apply_of_definitions? rfl]
    exact World.defineAll_related .refl .trans World.still_defineMethod w _ _
  | inherit child parent =>
    simp only [apply, World.inherit]
    split
    · exact .refl w
    · exact ⟨⟨rfl, rfl⟩, rfl⟩
  | defineMethod on name m => exact World.still_defineMethod w on name m
  | removeMethod on name =>
    simp only [apply, World.removeMethod]
    split
    · exact (World.still_modifyMethods w on _).trans (World.still_stamp _ on)
    · exact .refl w
  | addAlias on new old => exact (World.still_modifyAliases w on _).trans (World.still_stamp _ on)
  | addBefore on name code => exact World.still_modifyHooks w on fun h => h.addBefore name code
  | addAfter on name code => exact World.still_modifyHooks w on fun h => h.addAfter name code
  | setHandler on code => cases on <;> exact ⟨⟨rfl, rfl⟩, rfl⟩
  | store ref op => cases ref <;> exact ⟨⟨rfl, rfl⟩, rfl⟩
  | responds on name =>
    cases on with
    | ofInstance i => exact (World.recalled_lookUpInstance w i _).still
    | ofClass k => exact (World.recalled_lookUpFrom w _ k name).still
  | resolve i name => exact (World.recalled_lookUpInstance w i _).still
  | _ => exact ⟨⟨rfl, rfl⟩, rfl⟩

theorem silent_apply (w : World Code σ) (op : Operation Code σ) : Silent w (op.apply w).2 := by
  cases h : op.usesPools with
  | false => exact (still_apply h).toSilent
  | true =>
    cases op with
    | newPool | acquire | release | clearPool => exact ⟨rfl, rfl⟩
    | instantiate k =>
      simp only [apply, World.instantiate, World.freshState]
      split <;> exact ⟨rfl, rfl⟩
    | retire i =>
      simp only [apply, World.retire]
      split <;> exact ⟨rfl, rfl⟩
    | _ => contradiction

end Operation

/-- A step leaves the trace as it is, or records one event. -/
theorem Step.trace_next (w : World Code σ) (s : Step Code σ) :
    ∃ t, (s.next w).trace = w.trace ++ t := by
  cases s with
  | record e => exact ⟨[e], rfl⟩
  | perform op => exact ⟨[], by rw [List.append_nil]; exact (op.silent_apply w).trace⟩
  | lookUp on name =>
    exact ⟨[], by rw [List.append_nil]; exact (World.recalled_lookUp w on name).silent.trace⟩
  | lookUpSuper on name =>
    exact ⟨[], by rw [List.append_nil]; exact (World.recalled_lookUpSuper w on name).silent.trace⟩
  | _ => exact ⟨[], (List.append_nil _).symm⟩

theorem World.trace_after (w : World Code σ) (steps : List (Step Code σ)) :
    ∃ t, (w.after steps).trace = w.trace ++ t := by
  induction steps generalizing w with
  | nil => exact ⟨[], (List.append_nil _).symm⟩
  | cons s steps ih =>
    obtain ⟨first, hfirst⟩ := s.trace_next w
    obtain ⟨rest, hrest⟩ := ih (s.next w)
    exact ⟨first ++ rest, by rw [World.after_cons, hrest, hfirst, List.append_assoc]⟩

theorem Run.Stepwise.trace {r : Run Code σ α} (hr : r.Stepwise) {w v : World Code σ} {a : α}
    (h : r w = .ok (a, v)) : ∃ t, v.trace = w.trace ++ t := by
  obtain ⟨steps, rfl⟩ := hr w a v h
  exact w.trace_after steps

/-- A stretch of a trace in which some events follow each other, each with what it
has started in turn behind it. -/
inductive InTrace : List (Event Code) → List (Event Code) → Prop
  | nil : InTrace [] []
  | cons {e : Event Code} {events trace : List (Event Code)} (inner : List (Event Code))
      (rest : InTrace events trace) : InTrace (e :: events) (e :: inner ++ trace)

namespace InTrace
variable {a b s t : List (Event Code)}

theorem append (h : InTrace a s) (h' : InTrace b t) : InTrace (a ++ b) (s ++ t) := by
  induction h with
  | nil => exact h'
  | cons inner _ ih =>
    rw [List.append_assoc]
    exact .cons inner ih

theorem one (e : Event Code) (inner : List (Event Code)) : InTrace [e] (e :: inner) := by
  have h := InTrace.cons (e := e) inner .nil
  rwa [List.append_nil] at h

end InTrace
end ObjectModel
