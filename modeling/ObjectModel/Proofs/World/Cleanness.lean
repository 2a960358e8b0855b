import ObjectModel.Proofs.Lookup.Recollection
import ObjectModel.Proofs.Program.Serving
import ObjectModel.Proofs.World.Handlers

/-!
# Clean states

Whether a state is clean is told without a look at its handler and at the counters and the
stamp of its cache. A cache that is empty while its owner has never been mutated has never
been asked, so the counters and the stamp are those of a new state anyway. The handler need
not be: an instance gets the one of its class as it is made.
-/
namespace ObjectModel
variable {Code σ : Type}

open Relation (ReflTransGen)

/-- A cache that has been asked is not empty. -/
theorem LookupCache.isEmpty_ask {c : LookupCache Code} {stamp : Nat} (h : c.validAt ≤ stamp)
    (name : String) (r : Finding Code) : (c.ask name stamp r).isEmpty = false := by
  have answered : ((c.ask name stamp r).peek name stamp).isSome := (peek_ask h).mpr (.inl rfl)
  rw [← Bool.not_eq_true, isEmpty, Table.isEmpty_iff]
  intro empty
  rw [peek, empty] at answered
  split at answered <;> contradiction

namespace ObjectState
variable {s t : ObjectState Code}

/-- Unless it has been mutated, a state whose cache is empty has a new cache. -/
def Tidy (s : ObjectState Code) : Prop :=
  s.version = 0 → s.cache.isEmpty = true → s.cache = {}

theorem Tidy.of_blank (h : s.cache = {}) : s.Tidy := fun _ _ => h

theorem Tidy.congr (hs : s.Tidy) (h : t.lookupPart = s.lookupPart) : t.Tidy := by
  have version : t.version = s.version := congrArg (·.version) h
  have cache : t.cache = s.cache := congrArg (·.cache) h
  rwa [Tidy, version, cache]

/-- What looks clean is new but for its handler. -/
theorem Tidy.isClean_iff (hs : s.Tidy) :
    s.isClean = true ↔ s = { new with handler := s.handler } := by
  constructor
  · intro clean
    simp only [isClean, Hooks.isEmpty, Bool.and_eq_true, Table.isEmpty_iff, Option.isNone_iff_eq_none,
      beq_iff_eq] at clean
    obtain ⟨⟨⟨⟨⟨⟨methods, vars⟩, before, after⟩, aliases⟩, empty⟩, singletons⟩, version⟩ := clean
    have cache := hs version empty
    obtain ⟨_, _, ⟨_, _⟩, _, _, _, _, _⟩ := s
    subst methods vars before after aliases cache singletons version
    rfl
  · intro same
    rw [same]
    rfl

end ObjectState

namespace World
variable {w v : World Code σ} {on : Receiver} {spared : Option InstanceId}

/-- Every state is tidy. -/
def Tidy (w : World Code σ) : Prop := ∀ i, (w.stateAt i).Tidy

theorem tidy_initial (h : σ) : (initial h : World Code σ).Tidy := fun i => by
  rw [stateAt_initial]
  exact .of_blank rfl

theorem Quiet.tidy (h : Quiet w v) (hw : w.Tidy) : v.Tidy := fun i =>
  (hw i).congr (congrArg (·.state) (h.instances i))

/-- What has been redefined is at a version of its own. -/
theorem Redefined.tidy (h : Redefined on w v) (hw : w.Tidy) : v.Tidy := by
  intro i
  by_cases hi : .ofInstance i = on
  · intro unversioned
    have version : (v.stateAt i).version = w.clock.latest + 1 := by
      subst hi
      exact h.version.trans h.clock
    rw [version] at unversioned
    contradiction
  · exact (hw i).congr (congrArg (·.state) (h.instances i hi))

theorem Renewed.tidy {i : InstanceId} (h : Renewed i w v) (hw : w.Tidy) : v.Tidy := by
  intro j
  by_cases hj : j = i
  · exact .of_blank (congrArg (·.cache) (hj ▸ h.state))
  · exact (hw j).congr (congrArg (·.state) (h.instances j hj))

theorem Touched.tidy (h : Touched on w v) (hw : w.Tidy) : v.Tidy := by
  by_cases ho : w.Has on
  · exact (h.redefined ho).tidy hw
  · exact (h.quiet ho).tidy hw

theorem Calm.tidy (h : Calm spared w v) (hw : w.Tidy) : v.Tidy := by
  cases h with
  | quiet h => exact h.tidy hw
  | renewed i _ h => exact h.tidy hw

theorem tidy_of_touched (h : ReflTransGen (Touched on) w v) (hw : w.Tidy) : v.Tidy := by
  induction h with
  | refl => exact hw
  | tail _ hstep ih => exact hstep.tidy ih

theorem tidy_of_calm (h : ReflTransGen (Calm spared) w v) (hw : w.Tidy) : v.Tidy := by
  induction h with
  | refl => exact hw
  | tail _ hstep ih => exact hstep.tidy ih

/-- A question leaves something in the cache that is asked. -/
theorem Tidy.ask (hw : w.Tidy) {c : CacheRef} (observed : (w.cacheAt c).validAt ≤ w.stampOf c.owner)
    (name : String) : (w.ask c name).Tidy := by
  intro i unversioned
  have version : ((w.ask c name).stateAt i).version = (w.stateAt i).version :=
    congrArg (·.state.version) (bare_instanceAt (recalled_ask w c name).same i)
  change ((w.ask c name).cacheAt (.ofInstance i)).isEmpty = true →
    (w.ask c name).cacheAt (.ofInstance i) = {}
  by_cases asked : c = .ofInstance i ∧ w.Has (.ofInstance i)
  · obtain ⟨rfl, hi⟩ := asked
    rw [cacheAt_ask_self (c := .ofInstance i) hi, LookupCache.isEmpty_ask observed]
    exact fun h => by contradiction
  · rw [cacheAt_ask_of_ne (c := .ofInstance i) asked]
    exact hw i (version.symm.trans unversioned)

theorem tidy_play (h : σ) {past : List (Move Code σ)} (hp : ∀ m ∈ past, m.Plain) :
    ((initial h : World Code σ).play past).Tidy := by
  induction past using List.reverseRecOn with
  | nil => exact tidy_initial h
  | append_singleton past m ih =>
    have before : ∀ m ∈ past, m.Plain := fun m' hm' => hp m' (List.mem_append_left _ hm')
    rw [play_concat]
    cases m with
    | ask c name => exact (ih before).ask (remembers_play h before c).observed name
    | step s =>
      have hw : ((initial h : World Code σ).play past).Sound := (sound_initial h).play past
      cases hr : s.redefines? ((initial h).play past) with
      | some on => exact tidy_of_touched (Step.touched_next hw hr).to_reflTransGen (ih before)
      | none =>
        have plain : s.looksUp = false := hp (.step s) (List.mem_append_right _ List.mem_cons_self)
        exact tidy_of_calm (Step.calm_next hr plain) (ih before)

theorem tidy_after (h : σ) (steps : List (Step Code σ)) :
    ((initial h : World Code σ).after steps).Tidy := by
  rw [← (sound_initial h).play_moves]
  exact tidy_play h (plain_moves _ steps)

/-- Whatever has been done to an instance and to others: its state is clean just if it is a
new one, but for the handler that it was given last, or else the one that its class had when
it was made. A reset makes it a new one altogether. -/
theorem clean_but_for_handler (h : σ) (past : List (Step Code σ)) (k : ClassId)
    (late : List (Step Code σ)) :
    let w := (initial h).after past
    let i : InstanceId := (w.instantiate k).1
    let s := ((w.instantiate k).2.after late).stateAt i
    (∀ t ∈ late, ¬ t.Retires (.ofInstance i)) →
      (s.isClean = true ↔ s = { ObjectState.new with
        handler := (late.reverse.findSome? (Step.handler? (.ofInstance i))).or
          ((w.lineage k).findSome? fun a => (w.classAt a).handler) }) ∧
      s.reset = .new ∧ s.reset.isClean = true := by
  intro w i s hs
  have run : (w.instantiate k).2.after late =
      (initial h).after (past ++ .perform (.instantiate k) :: late) := by
    rw [after_append]
    rfl
  have tidy : s.Tidy := by
    have all := tidy_after h (past ++ .perform (.instantiate k) :: late) i
    rwa [← run] at all
  have made : (w.instantiate k).2.Has (.ofInstance i) := has_instantiate w k
  have handler : s.handler = (late.reverse.findSome? (Step.handler? (.ofInstance i))).or
      ((w.instantiate k).2.stateAt i).handler :=
    handler?_after ((sound_after h past).next (.perform (.instantiate k))) made hs
  rw [stateAt_instantiate, (marked_after h past).lineageHandler?_eq k] at handler
  refine ⟨?_, rfl, rfl⟩
  rw [← handler]
  exact tidy.isClean_iff

/-- A variable that was set and removed leaves nothing, a handler stays. -/
theorem clean_with_own_handler :
    let past : List (Step Nat Unit) :=
      [.perform (.newClass "K" {}), .perform (.setHandler (.ofClass ⟨1⟩) 7)]
    let late : List (Step Nat Unit) :=
      [.assign ⟨1⟩ "x" (.object 0 (.int 3)), .perform (.setHandler (.ofInstance ⟨1⟩) 9),
        .perform (.store (.instanceVars ⟨1⟩) (.remove "x"))]
    let s := ((((initial ()).after past).instantiate ⟨1⟩).2.after late).stateAt ⟨1⟩
    (∀ t ∈ late, ¬ t.Retires (.ofInstance ⟨1⟩)) ∧ s.isClean = true ∧
      s = { ObjectState.new with handler := some 9 } := by
  intro past late s
  have kept : ∀ t ∈ late, ¬ t.Retires (.ofInstance ⟨1⟩) := by
    rintro t ht ⟨j, rfl, -⟩
    simp [late] at ht
  have clean : s.isClean = true := by decide +kernel
  obtain ⟨iff, -⟩ := clean_but_for_handler () past ⟨1⟩ late kept
  exact ⟨kept, clean, iff.mp clean⟩

/-- The state of a new instance is clean, but it is not a new state. -/
theorem clean_with_handler_of_class :
    let w := (initial () : World Nat Unit).after
      [.perform (.newClass "K" {}), .perform (.setHandler (.ofClass ⟨1⟩) 7)]
    let made := w.instantiate ⟨1⟩
    (made.2.stateAt made.1).isClean = true ∧ made.2.stateAt made.1 ≠ .new := by
  intro w made
  have handler : (made.2.stateAt made.1).handler = some 7 := by decide +kernel
  refine ⟨by decide +kernel, fun same => ?_⟩
  rw [same] at handler
  contradiction

end World
end ObjectModel
