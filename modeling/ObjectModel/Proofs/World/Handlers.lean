import ObjectModel.Proofs.Lineage.Stamps
import ObjectModel.Proofs.World.Outline

/-!
# Marks of classes and handlers for missing methods

A class is marked as having a handler or a pool exactly when it has one, so the mark, which is
asked first, never stands in the way of what it stands for. An instance has the handler that was
given to it last, or else the one that it was made with.
-/
namespace ObjectModel
variable {Code σ : Type}

/-- The marks of a class say whether it has a handler, and whether it has a pool. -/
structure ClassRecord.Marked (c : ClassRecord Code) : Prop where
  handler : c.flags.hasHandler = c.handler.isSome
  pool : c.flags.pooled = c.pool.isSome

theorem ClassRecord.Marked.congr {c d : ClassRecord Code} (hc : c.Marked)
    (flags : d.flags = c.flags) (handler : d.handler = c.handler) (pool : d.pool = c.pool) :
    d.Marked :=
  ⟨by rw [flags, handler, hc.handler], by rw [flags, pool, hc.pool]⟩

namespace Step

/-- A step raises the flags of the slots that it fills, and no others of them. -/
theorem raises_slots (s : Step Code σ) (k : ClassId) :
    (s.raises k).hasHandler = (s.handler? (.ofClass k)).isSome ∧
      (s.raises k).pooled = (s.pool? k).isSome := by
  cases s with
  | perform op =>
    cases op with
    | setHandler on code =>
      cases on with
      | ofInstance i => simp [raises, handler?, pool?]
      | ofClass a => by_cases ha : a = k <;> simp [raises, handler?, pool?, ha]
    | usePool a p => by_cases ha : a = k <;> simp [raises, handler?, pool?, ha]
    | _ => exact ⟨rfl, rfl⟩
  | _ => exact ⟨rfl, rfl⟩

theorem marked_redrawClass {c : ClassRecord Code} (hc : c.Marked) (w : World Code σ)
    (s : Step Code σ) (k : ClassId) : (s.redrawClass w k c).Marked := by
  obtain ⟨handler, pool⟩ := s.raises_slots k
  obtain ⟨_, _, _, given⟩ := s.redrawClass_eq w k c
  rw [given]
  constructor
  · simp only [Flags.union, hc.handler, handler, Option.isSome_or, Bool.or_comm]
  · simp only [Flags.union, hc.pool, pool, Option.isSome_or, Bool.or_comm]

end Step

namespace World
variable {w : World Code σ} {i : InstanceId}

/-- Every class is marked as it should be. -/
def Marked (w : World Code σ) : Prop := ∀ k, (w.classAt k).Marked

theorem marked_initial (h : σ) : (initial h : World Code σ).Marked := fun k => by
  rw [classAt_initial]
  exact ⟨rfl, rfl⟩

theorem Marked.next (hw : w.Marked) (s : Step Code σ) : (s.next w).Marked :=
  classes_next hw s
    (fun _ _ same hc =>
      hc.congr (congrArg (·.flags) same) (congrArg (·.handler) same) (congrArg (·.pool) same))
    (fun k _ hc => s.marked_redrawClass hc w k) fun _ _ _ => ⟨rfl, rfl⟩

theorem Marked.after (hw : w.Marked) (steps : List (Step Code σ)) : (w.after steps).Marked := by
  induction steps generalizing w with
  | nil => exact hw
  | cons s steps ih => exact ih (hw.next s)

theorem marked_after (h : σ) (steps : List (Step Code σ)) :
    ((initial h : World Code σ).after steps).Marked :=
  (marked_initial h).after steps

/-- The handler of a lineage is that of the nearest class with one. -/
theorem Marked.lineageHandler?_eq (hw : w.Marked) (k : ClassId) :
    w.lineageHandler? k = (w.lineage k).findSome? fun a => (w.classAt a).handler := by
  rw [lineageHandler?]
  congr 1
  funext a
  rw [(hw a).handler]
  cases (w.classAt a).handler <;> rfl

/-- Instances take their state from whatever pool their class has. -/
theorem Marked.poolFor?_eq (hw : w.Marked) (k : ClassId) : w.poolFor? k = (w.classAt k).pool := by
  rw [poolFor?, (hw k).pool]
  cases (w.classAt k).pool <;> rfl

/-- An instance has the handler that it was given last. -/
theorem handler?_after (hw : w.Sound) {steps : List (Step Code σ)} (hi : w.Has (.ofInstance i))
    (hs : ∀ s ∈ steps, ¬ s.Retires (.ofInstance i)) :
    (w.after steps).handler? (.ofInstance i) =
      (steps.reverse.findSome? (Step.handler? (.ofInstance i))).or (w.handler? (.ofInstance i)) := by
  induction steps generalizing w with
  | nil => rfl
  | cons s steps ih =>
    obtain ⟨_, _, given⟩ := s.redrawInstance_eq w i (w.instanceAt i) fun he =>
      hs s List.mem_cons_self ⟨i, he, rfl⟩
    have drawn : (s.next w).handler? (.ofInstance i) =
        (s.handler? (.ofInstance i)).or (w.handler? (.ofInstance i)) :=
      congrArg (·.state.handler) (((s.redrawn_next w).instances i hi).trans (congrArg _ given))
    have rest := ih (hw.next s) (hw.has_next hi s) fun t ht => hs t (List.mem_cons_of_mem _ ht)
    have last : [s].findSome? (Step.handler? (.ofInstance i)) = s.handler? (.ofInstance i) := by
      rw [List.findSome?_cons]
      cases s.handler? (.ofInstance i) <;> rfl
    rw [after_cons, rest, drawn, List.reverse_cons, List.findSome?_append, last, Option.or_assoc]

end World
end ObjectModel
