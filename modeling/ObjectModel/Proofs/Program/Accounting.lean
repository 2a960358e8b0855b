import ObjectModel.Proofs.Lineage.Stamps
import ObjectModel.Proofs.Program.Behind
import ObjectModel.Proofs.Program.Trace
import ObjectModel.Proofs.World.Outline
import Mathlib.Algebra.GroupWithZero.Nat

/-!
# The accounts of pools

Every state that a pool has accepted is still there, has been taken out or has been
cleared away, and its counters tell which. What enters a pool is reset, so nothing but
new states comes out. The state of an instance goes back to where it was taken from.
-/
namespace ObjectModel
variable {Code σ : Type}

namespace Pool
variable {p : Pool Code} {capacity taken given cleared : Nat}

/-- The counters of a pool agree with what it has been through. -/
structure Balanced (p : Pool Code) (capacity taken given cleared : Nat) : Prop where
  limit : p.capacity = capacity
  room : p.count ≤ capacity
  new : ∀ s ∈ p.free, s = .new
  takings : p.counters.hits + p.counters.misses = taken
  givings : p.counters.releases + p.counters.discarded = given
  stock : p.counters.releases = p.counters.hits + p.count + cleared

theorem balanced_ofCapacity (capacity : Nat) :
    (ofCapacity capacity : Pool Code).Balanced capacity 0 0 0 where
  limit := rfl
  room := Nat.zero_le _
  new _ hs := by contradiction
  takings := rfl
  givings := rfl
  stock := rfl

/-- A taking is served from the pool just if something is in it. -/
theorem counters_acquire (p : Pool Code) :
    p.acquire.2.counters =
      if 0 < p.count then { p.counters with hits := p.counters.hits + 1 }
      else { p.counters with misses := p.counters.misses + 1 } := by
  unfold acquire count
  cases p.free <;> rfl

/-- A state is accepted just if there is room for it. -/
theorem counters_release (p : Pool Code) (s : ObjectState Code) :
    (p.release s).2.counters =
      if p.count < p.capacity then { p.counters with releases := p.counters.releases + 1 }
      else { p.counters with discarded := p.counters.discarded + 1 } := by
  unfold release count
  split <;> rfl

theorem release_fst (p : Pool Code) (s : ObjectState Code) :
    (p.release s).1 = decide (p.count < p.capacity) := by
  unfold release count
  split
  · next room => exact (decide_eq_true room).symm
  · next full => exact (decide_eq_false full).symm

theorem free_acquire (p : Pool Code) : p.acquire.2.free = p.free.tail := by
  unfold acquire
  cases p.free <;> rfl

/-- What lies in a pool after a state was given to it has been there, or is new. -/
theorem mem_free_release {s t : ObjectState Code} (h : t ∈ (p.release s).2.free) :
    t ∈ p.free ∨ t = .new := by
  unfold release at h
  split at h
  · rcases List.mem_append.mp h with old | given
    · exact .inl old
    · exact .inr ((List.mem_singleton.mp given).trans s.reset_eq_new)
  · exact .inl h

namespace Balanced

theorem acquire (h : p.Balanced capacity taken given cleared) :
    p.acquire.2.Balanced capacity (taken + 1) given cleared := by
  have room := h.room
  have takings := h.takings
  have stock := h.stock
  have new := h.new
  unfold Pool.acquire
  unfold Pool.count at room stock
  split
  · exact { h with takings := by simp only; omega }
  · next s rest he =>
    rw [he, List.length_cons] at room stock
    rw [he] at new
    exact
      { limit := h.limit
        room := Nat.le_of_succ_le room
        new := fun s hs => new s (List.mem_cons_of_mem _ hs)
        takings := by simp only; omega
        givings := h.givings
        stock := by simp only [Pool.count]; omega }

theorem release (h : p.Balanced capacity taken given cleared) (s : ObjectState Code) :
    (p.release s).2.Balanced capacity taken (given + 1) cleared := by
  have givings := h.givings
  have stock := h.stock
  have new : ∀ t ∈ (p.release s).2.free, t = .new := fun t ht =>
    (mem_free_release ht).elim (h.new t) id
  unfold Pool.count at stock
  unfold Pool.release at new ⊢
  split at new
  · next room =>
    rw [if_pos room]
    rw [h.limit] at room
    exact
      { limit := h.limit
        room := by simpa [Pool.count, Nat.succ_le_iff] using room
        new := new
        takings := h.takings
        givings := by simp only; omega
        stock := by simp only [Pool.count, List.length_append, List.length_singleton]; omega }
  · next full =>
    rw [if_neg full]
    exact { h with givings := by simp only; omega }

theorem clear (h : p.Balanced capacity taken given cleared) :
    p.clear.2.Balanced capacity taken given (cleared + p.count) where
  limit := h.limit
  room := Nat.zero_le _
  new _ hs := by contradiction
  takings := h.takings
  givings := h.givings
  stock := by
    have stock := h.stock
    simp only [Pool.clear, Pool.count, List.length_nil] at stock ⊢
    omega

end Balanced
end Pool

/-- What is done to a pool. -/
inductive PoolAct where
  | take
  | give
  | clear (dropped : Nat)
  deriving DecidableEq, Repr

namespace PoolAct

/-- The pool after an act. It does not matter which state is given. -/
def next (p : Pool Code) : PoolAct → Pool Code
  | take => p.acquire.2
  | give => (p.release .new).2
  | clear _ => p.clear.2

/-- How many states an act drops. -/
def dropped : PoolAct → Nat
  | clear n => n
  | _ => 0

end PoolAct

/-- The pool that a step works on, and what it does to it. -/
def Step.poolAct? (w : World Code σ) : Step Code σ → Option (PoolId × PoolAct)
  | perform (.acquire p) => some (p, .take)
  | perform (.release p _) => some (p, .give)
  | perform (.clearPool p) => some (p, .clear (w.clearPool p).1)
  | perform (.instantiate k) => (w.poolFor? k).map (·, .take)
  | perform (.retire i) => (w.instanceAt i).pool.map (·, .give)
  | _ => none

/-- What a step does to a given pool. -/
def Step.actOn? (w : World Code σ) (p : PoolId) (s : Step Code σ) : Option PoolAct :=
  (s.poolAct? w).bind fun (q, a) => if q = p then some a else none

namespace World
variable {w v : World Code σ} {p : PoolId}

/-- Whether there is a pool with a number. -/
def HasPool (w : World Code σ) (p : PoolId) : Prop := (w.pools.find? p.number).isSome = true

theorem hasPool_modifyPool (w : World Code σ) (q : PoolId) (f : Pool Code → Pool Code) :
    (w.modifyPool q f).HasPool p ↔ w.HasPool p := by
  simp only [HasPool, modifyPool, Registry.find?_isSome, Registry.size_modify]

theorem poolAt_modifyPool (hp : w.HasPool p) (q : PoolId) (f : Pool Code → Pool Code) :
    (w.modifyPool q f).poolAt p = if q = p then f (w.poolAt p) else w.poolAt p := by
  obtain ⟨pool, hpool⟩ := Option.isSome_iff_exists.mp hp
  have number : p.number = q.number ↔ q = p := by
    cases p
    cases q
    simp [eq_comm]
  simp only [poolAt, modifyPool, Registry.find?_modify, number, hpool]
  split <;> rfl

theorem poolAt_newPool (w : World Code σ) (capacity : Nat) :
    (w.newPool capacity).2.poolAt (w.newPool capacity).1 = .ofCapacity capacity := by
  simp [newPool, poolAt, Registry.find?_add]

theorem hasPool_newPool (w : World Code σ) (capacity : Nat) :
    (w.newPool capacity).2.HasPool (w.newPool capacity).1 := by
  simp [newPool, HasPool, Registry.find?_add]

/-- A new pool takes the place of none. -/
theorem newPool_of_hasPool (hp : w.HasPool p) (capacity : Nat) :
    (w.newPool capacity).2.HasPool p ∧ (w.newPool capacity).2.poolAt p = w.poolAt p := by
  have hn : p.number ≠ w.pools.next := by
    have hle := (Registry.find?_isSome.mp hp).2
    simp only [Registry.next]
    omega
  constructor
  · simpa [newPool, HasPool, Registry.find?_add, hn] using hp
  · simp [newPool, poolAt, Registry.find?_add, hn]

theorem pools_instantiate (w : World Code σ) (k : ClassId) :
    (w.instantiate k).2.pools =
      ((w.poolFor? k).elim w fun p => w.modifyPool p fun q => q.acquire.2).pools := by
  have fresh : (w.instantiate k).2.pools = (w.freshState k).2.pools := by rw [instantiate_eq]
  rw [fresh, freshState]
  cases w.poolFor? k with
  | some p => exact congrArg (·.2.pools) (acquire_eq w p)
  | none => rfl

theorem pools_retire (w : World Code σ) (i : InstanceId) :
    (w.retire i).2.pools =
      ((w.instanceAt i).pool.elim w fun p => w.modifyPool p fun q => (q.release .new).2).pools := by
  rw [retire_snd]
  cases (w.instanceAt i).pool <;> rfl

/-- A step makes a pool, or works on the one that it works on. -/
theorem pools_next (w : World Code σ) (s : Step Code σ)
    (hs : ∀ capacity, s ≠ .perform (.newPool capacity)) :
    (s.next w).pools = ((s.poolAct? w).elim w fun (p, a) => w.modifyPool p a.next).pools := by
  cases s with
  | perform op =>
    cases op with
    | newPool capacity => exact absurd rfl (hs capacity)
    | acquire p => exact congrArg (·.2.pools) (acquire_eq w p)
    | release p t => exact congrArg (·.pools) (release_snd w p t)
    | clearPool p => exact congrArg (·.pools) (clearPool_snd w p)
    | instantiate k =>
      refine (pools_instantiate w k).trans ?_
      simp only [Step.poolAct?]
      cases w.poolFor? k <;> rfl
    | retire i =>
      refine (pools_retire w i).trans ?_
      simp only [Step.poolAct?]
      cases (w.instanceAt i).pool <;> rfl
    | _ => exact (Operation.still_apply rfl).pools
  | lookUp on name => exact (recalled_lookUp w on name).still.pools
  | lookUpSuper on name => exact (recalled_lookUpSuper w on name).still.pools
  | _ => rfl

/-- What a step does to a pool that is there. -/
theorem poolAt_next (hp : w.HasPool p) (s : Step Code σ) :
    (s.next w).HasPool p ∧
      (s.next w).poolAt p = (s.actOn? w p).elim (w.poolAt p) fun a => a.next (w.poolAt p) := by
  by_cases hs : ∃ capacity, s = .perform (.newPool capacity)
  · obtain ⟨capacity, rfl⟩ := hs
    exact newPool_of_hasPool hp capacity
  · have pools := pools_next w s fun capacity he => hs ⟨capacity, he⟩
    rw [HasPool, poolAt, pools, Step.actOn?]
    rcases s.poolAct? w with _ | ⟨q, a⟩
    · exact ⟨hp, rfl⟩
    · refine ⟨(hasPool_modifyPool w q a.next).mpr hp, ?_⟩
      change (w.modifyPool q a.next).poolAt p = _
      rw [poolAt_modifyPool hp]
      by_cases hq : q = p <;> simp [hq]

/-- What steps do to a pool, in order. -/
def actsOn (w : World Code σ) (p : PoolId) : List (Step Code σ) → List PoolAct
  | [] => []
  | s :: steps => (s.actOn? w p).toList ++ (s.next w).actsOn p steps

theorem poolAct?_of_actOn? {s : Step Code σ} {a : PoolAct} (h : s.actOn? w p = some a) :
    s.poolAct? w = some (p, a) := by
  obtain ⟨⟨q, b⟩, hact, hq⟩ := Option.bind_eq_some_iff.mp h
  obtain ⟨rfl, rfl⟩ : q = p ∧ b = a := by simpa using hq
  exact hact

/-- What an act says that it drops is dropped. -/
theorem clear_of_actOn? {s : Step Code σ} {n : Nat} (h : s.actOn? w p = some (.clear n)) :
    n = (w.poolAt p).count := by
  have hact := poolAct?_of_actOn? h
  cases s with
  | perform op =>
    cases op with
    | clearPool q =>
      obtain ⟨rfl, hn⟩ := Prod.mk.inj (Option.some.inj hact)
      exact (PoolAct.clear.inj hn).symm
    | _ => simp [Step.poolAct?] at hact
  | _ => contradiction

theorem balanced_next {capacity taken given cleared : Nat} (hp : w.HasPool p) (s : Step Code σ)
    (h : (w.poolAt p).Balanced capacity taken given cleared) :
    ((s.next w).poolAt p).Balanced capacity
      (taken + (s.actOn? w p).toList.count .take) (given + (s.actOn? w p).toList.count .give)
      (cleared + ((s.actOn? w p).toList.map PoolAct.dropped).sum) := by
  rw [(poolAt_next hp s).2]
  cases ha : s.actOn? w p with
  | none => exact h
  | some a =>
    cases a with
    | take => exact h.acquire
    | give => exact h.release .new
    | clear n =>
      rw [clear_of_actOn? ha]
      exact h.clear

theorem balanced_after {capacity taken given cleared : Nat} (hp : w.HasPool p)
    (h : (w.poolAt p).Balanced capacity taken given cleared) (steps : List (Step Code σ)) :
    (w.after steps).HasPool p ∧ ((w.after steps).poolAt p).Balanced capacity
      (taken + (w.actsOn p steps).count .take) (given + (w.actsOn p steps).count .give)
      (cleared + ((w.actsOn p steps).map PoolAct.dropped).sum) := by
  induction steps generalizing w taken given cleared with
  | nil => exact ⟨hp, h⟩
  | cons s steps ih =>
    have rest := ih (poolAt_next hp s).1 (balanced_next hp s h)
    rw [actsOn, List.count_append, List.count_append, List.map_append, List.sum_append,
      ← Nat.add_assoc, ← Nat.add_assoc, ← Nat.add_assoc]
    exact rest

/-- Only giving an instance up changes where its state goes. -/
theorem home_next {i : InstanceId} {s : Step Code σ} (hi : w.Has (.ofInstance i))
    (hs : ¬ s.Retires (.ofInstance i)) :
    ((s.next w).instanceAt i).pool = (w.instanceAt i).pool := by
  obtain ⟨_, _, given⟩ := s.redrawInstance_eq w i (w.instanceAt i) fun he => hs ⟨i, he, rfl⟩
  exact congrArg (·.pool) (((s.redrawn_next w).instances i hi).trans (congrArg _ given))

theorem Sound.home_after (hw : w.Sound) {i : InstanceId} (hi : w.Has (.ofInstance i))
    {steps : List (Step Code σ)} (hs : ∀ s ∈ steps, ¬ s.Retires (.ofInstance i)) :
    ((w.after steps).instanceAt i).pool = (w.instanceAt i).pool :=
  hw.after_induction_of_has (P := fun v => (v.instanceAt i).pool = (w.instanceAt i).pool) hi rfl
    fun _ s mem _ there same => (home_next there (hs s mem)).trans same

/-- Without a pool there is nowhere to give a state back to. -/
theorem retire_of_homeless {i : InstanceId} (h : (w.instanceAt i).pool = none) :
    (w.retire i).1 = false ∧ (w.retire i).2.pools = w.pools := by
  refine ⟨?_, ?_⟩
  · rw [retire_fst, h]
    rfl
  · rw [pools_retire, h]
    rfl

theorem retire_of_home {i : InstanceId} (h : (w.instanceAt i).pool = some p) :
    (w.retire i).1 = (w.release p (w.stateAt i)).1 ∧
      (w.retire i).2.pools = (w.release p (w.stateAt i)).2.pools := by
  constructor
  · simp only [retire, h]
    rfl
  · rw [pools_retire, h, release_snd]
    rfl

/-- What there is to say of a pool that was made with a capacity, after what has been done to it. -/
structure Accounted (v : World Code σ) (p : PoolId) (capacity : Nat) (acts : List PoolAct) :
    Prop where
  balanced : (v.poolAt p).Balanced capacity (acts.count .take) (acts.count .give)
    (acts.map PoolAct.dropped).sum
  acquired : (v.acquire p).1 = .new
  accepted s : (v.release p s).1 = decide ((v.poolAt p).count < capacity)
  cleared : (v.clearPool p).1 = (v.poolAt p).count
  /-- A taking is a hit just if there is a state in the pool. -/
  taken (s : Step Code σ) (act : s.actOn? v p = some .take) :
    ((s.next v).poolAt p).counters =
      if 0 < (v.poolAt p).count then
        { (v.poolAt p).counters with hits := (v.poolAt p).counters.hits + 1 }
      else { (v.poolAt p).counters with misses := (v.poolAt p).counters.misses + 1 }
  /-- A state is accepted just if there is room for it. -/
  given (s : Step Code σ) (act : s.actOn? v p = some .give) :
    ((s.next v).poolAt p).counters =
      if (v.poolAt p).count < capacity then
        { (v.poolAt p).counters with releases := (v.poolAt p).counters.releases + 1 }
      else { (v.poolAt p).counters with discarded := (v.poolAt p).counters.discarded + 1 }
  dropped (s : Step Code σ) n (act : s.actOn? v p = some (.clear n)) :
    n = (v.poolAt p).count ∧ ((s.next v).poolAt p).counters = (v.poolAt p).counters
  idle (s : Step Code σ) (act : s.actOn? v p = none) : (s.next v).poolAt p = v.poolAt p

theorem accounted_after (hp : w.HasPool p) {capacity : Nat}
    (h : (w.poolAt p).Balanced capacity 0 0 0) (steps : List (Step Code σ)) :
    Accounted (w.after steps) p capacity (w.actsOn p steps) := by
  obtain ⟨hv, account⟩ := balanced_after hp h steps
  rw [Nat.zero_add, Nat.zero_add, Nat.zero_add] at account
  have limit := account.limit
  refine ⟨account, Pool.acquire_fst _, fun s => ?_, rfl, fun s act => ?_, fun s act => ?_,
    fun s n act => ⟨clear_of_actOn? act, ?_⟩, fun s act => ?_⟩
  · have accepted := Pool.release_fst ((w.after steps).poolAt p) s
    rwa [limit] at accepted
  all_goals rw [(poolAt_next hv s).2, act]
  · exact Pool.counters_acquire _
  · have given := Pool.counters_release ((w.after steps).poolAt p) .new
    rwa [limit] at given
  · rfl
  · rfl

/-- What becomes of the state of an instance that was made of a class, when the instance is given
up later. -/
structure Homed (w : World Code σ) (k : ClassId) (i : InstanceId) (v : World Code σ) : Prop where
  homeless (none : w.poolFor? k = none) :
    (v.retire i).1 = false ∧ (v.retire i).2.pools = v.pools
  drawn p (pool : w.poolFor? k = some p) : (w.instantiate k).2.pools = (w.acquire p).2.pools
  returned p (pool : w.poolFor? k = some p) :
    (v.retire i).1 = (v.release p (v.stateAt i)).1 ∧
      (v.retire i).2.pools = (v.release p (v.stateAt i)).2.pools

theorem Sound.homed (hw : w.Sound) (k : ClassId) {future : List (Step Code σ)}
    (kept : ∀ s ∈ future, ¬ s.Retires (.ofInstance (w.instantiate k).1)) :
    Homed w k (w.instantiate k).1 ((w.instantiate k).2.after future) := by
  have home := ((hw.next (.perform (.instantiate k))).home_after (has_instantiate w k) kept).trans
    (congrArg (·.pool) (instanceAt_instantiate w k))
  refine ⟨fun hk => retire_of_homeless (home.trans hk), fun p hk => ?_,
    fun p hk => retire_of_home (home.trans hk)⟩
  rw [pools_instantiate, hk, acquire_eq]
  rfl

/-- The accounts of the pools that are made in a world, and of the instances. -/
structure KeepsAccounts (w : World Code σ) : Prop where
  accounted capacity future :
    Accounted ((w.newPool capacity).2.after future) (w.newPool capacity).1 capacity
      ((w.newPool capacity).2.actsOn (w.newPool capacity).1 future)
  /-- An instance starts with a new state but for the handler of its class. -/
  fresh k : (w.instantiate k).2.stateAt (w.instantiate k).1 =
    { ObjectState.new with handler := w.lineageHandler? k }
  homed k future (kept : ∀ s ∈ future, ¬ s.Retires (.ofInstance (w.instantiate k).1)) :
    Homed w k (w.instantiate k).1 ((w.instantiate k).2.after future)

/-- Wherever a run has got: a pool that is made then keeps to its capacity and holds new
states only, and its counters agree with all that is done to it afterwards. A taking is
a hit just if there is a state in the pool, and a state is accepted just if there is room
for it. What is made of a class draws its state from the pool that the class has at that
moment, and gives it back there and nowhere else. -/
theorem pools_keep_accounts (h : σ) (past : List (Step Code σ)) :
    KeepsAccounts ((initial h).after past) where
  accounted capacity future := by
    refine accounted_after (hasPool_newPool _ capacity) ?_ future
    rw [poolAt_newPool]
    exact Pool.balanced_ofCapacity capacity
  fresh k := stateAt_instantiate _ k
  homed k _ kept := (sound_after h past).homed k kept

/-- The class of an instance takes to another pool, and the state still goes back to the
former one. The new pool has had one state and gives it away again. -/
theorem state_returns_to_former_pool :
    let past : List (Step Unit Unit) :=
      [.perform (.newPool 1), .perform (.newClass "A" {}), .perform (.usePool ⟨1⟩ ⟨1⟩)]
    let future : List (Step Unit Unit) := [.perform (.newPool 1), .perform (.usePool ⟨1⟩ ⟨2⟩)]
    let w := (initial ()).after past
    let v := (w.instantiate ⟨1⟩).2.after future
    let u := (w.newPool 1).2.after [.perform (.release ⟨2⟩ .new)]
    let take : Step Unit Unit := .perform (.acquire ⟨2⟩)
    (∀ s ∈ future, ¬ s.Retires (.ofInstance ⟨1⟩)) ∧ w.poolFor? ⟨1⟩ = some ⟨1⟩ ∧
      v.poolFor? ⟨1⟩ = some ⟨2⟩ ∧
      (v.retire ⟨1⟩).2.pools = (v.release ⟨1⟩ (v.stateAt ⟨1⟩)).2.pools ∧
      take.actOn? u ⟨2⟩ = some .take ∧ ((take.next u).poolAt ⟨2⟩).counters.hits = 1 := by
  intro past future w v u take
  have kept : ∀ s ∈ future, ¬ s.Retires (.ofInstance ⟨1⟩) := by
    rintro s hs ⟨i, rfl, -⟩
    simp [future] at hs
  have keeps : KeepsAccounts w := pools_keep_accounts () past
  have account := keeps.accounted 1 [.perform (.release ⟨2⟩ .new)]
  have home := keeps.homed ⟨1⟩ future kept
  refine ⟨kept, rfl, rfl, (home.returned ⟨1⟩ rfl).2, rfl, ?_⟩
  exact congrArg (·.hits) (account.taken take rfl)

end World
end ObjectModel
