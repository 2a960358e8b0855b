import ObjectModel.Proofs.Lookup.Order

/-!
# Lookups as questions to caches

A lookup asks some caches for a name, one after another. A cache that is asked
answers from what it remembers and counts a hit, or else counts a miss and
remembers what is found. In a sound world nothing else comes of a lookup.
-/
namespace ObjectModel
variable {Code σ : Type}

namespace LookupCache
variable {c : LookupCache Code} {name other : String} {stamp latest : Nat} {r : Finding Code}

/-- Asks a cache for a name for which `r` is found under the stamp. -/
def ask (c : LookupCache Code) (name : String) (stamp : Nat) (r : Finding Code) :
    LookupCache Code :=
  match c.consult name stamp with
  | (some _, c) => c
  | (none, c) => c.remember name stamp r

theorem ask_of_hit (h : (c.peek name stamp).isSome) : c.ask name stamp r = c.count true := by
  obtain ⟨found, hf⟩ := Option.isSome_iff_exists.mp h
  simp [ask, consult, hf]

theorem ask_of_miss (h : c.peek name stamp = none) :
    c.ask name stamp r = (c.count false).remember name stamp r := by
  simp [ask, consult, h]

theorem Valid.ask {find : String → Finding Code} (hc : c.Valid stamp latest find)
    (hs : stamp ≤ latest) (name : String) : (c.ask name stamp (find name)).Valid stamp latest find := by
  cases hp : c.peek name stamp with
  | some r =>
    rw [ask_of_hit (by rw [hp]; rfl)]
    exact hc.count true
  | none =>
    rw [ask_of_miss hp]
    exact (hc.count false).remember hs name

/-- Nothing is turned away under a stamp that is not older than all before. -/
theorem validAt_remember (h : c.validAt ≤ stamp) : (c.remember name stamp r).validAt = stamp := by
  unfold remember
  rw [if_neg (Nat.not_lt.mpr h)]
  split
  · rfl
  · next hlow => exact Nat.le_antisymm h (Nat.le_of_not_lt hlow)

/-- What is remembered joins what could be answered under the same stamp. -/
theorem peek_remember (h : c.validAt ≤ stamp) :
    (c.remember name stamp r).peek other stamp =
      if other = name then some r else c.peek other stamp := by
  unfold remember
  rw [if_neg (Nat.not_lt.mpr h)]
  split
  · next hlt =>
    simp only [peek, if_pos, if_neg (Nat.ne_of_lt hlt)]
    exact Table.find?_insert {} name other r
  · next hlow =>
    obtain rfl : c.validAt = stamp := Nat.le_antisymm h (Nat.le_of_not_lt hlow)
    simp only [peek, if_pos]
    exact Table.find?_insert c.entries name other r

theorem counters_remember :
    (c.remember name stamp r).counters.hits = c.counters.hits ∧
      (c.remember name stamp r).counters.misses = c.counters.misses := by
  unfold remember forget
  split
  · exact ⟨rfl, rfl⟩
  · split
    · split <;> exact ⟨rfl, rfl⟩
    · exact ⟨rfl, rfl⟩

theorem validAt_ask (h : c.validAt ≤ stamp) : (c.ask name stamp r).validAt ≤ stamp := by
  cases hp : c.peek name stamp with
  | some found =>
    rw [ask_of_hit (by rw [hp]; rfl)]
    exact h
  | none =>
    rw [ask_of_miss hp]
    exact Nat.le_of_eq (validAt_remember (c := c.count false) h)

/-- A cache can answer what it could answer before, and what it was asked for. -/
theorem peek_ask (h : c.validAt ≤ stamp) :
    ((c.ask name stamp r).peek other stamp).isSome ↔
      name = other ∨ (c.peek other stamp).isSome := by
  cases hp : c.peek name stamp with
  | some found =>
    have hit : (c.peek name stamp).isSome := by rw [hp]; rfl
    rw [ask_of_hit hit]
    refine ⟨.inr, ?_⟩
    rintro (rfl | ho)
    · exact hit
    · exact ho
  | none =>
    rw [ask_of_miss hp, peek_remember (c := c.count false) h]
    split
    · next he => simp [he]
    · next hne => simp [Ne.symm hne, peek, count]

/-- A question is a hit or a miss. -/
theorem counters_ask :
    (c.ask name stamp r).counters.hits + (c.ask name stamp r).counters.misses =
      c.counters.hits + c.counters.misses + 1 := by
  cases hp : c.peek name stamp with
  | some found =>
    rw [ask_of_hit (by rw [hp]; rfl)]
    exact Nat.add_right_comm _ _ _
  | none =>
    rw [ask_of_miss hp, counters_remember.1, counters_remember.2]
    rfl

end LookupCache

/-- A class has a cache for each side, and an instance has one. -/
inductive CacheRef where
  | ofClass (side : Side) (k : ClassId)
  | ofInstance (i : InstanceId)
  deriving DecidableEq, Repr

/-- The receiver that a cache belongs to. -/
def CacheRef.owner : CacheRef → Receiver
  | ofClass _ k => .ofClass k
  | ofInstance i => .ofInstance i

namespace World
variable {w v : World Code σ} {c other : CacheRef} {name : String}

def cacheAt (w : World Code σ) : CacheRef → LookupCache Code
  | .ofClass side k => (w.classAt k).cacheOf side
  | .ofInstance i => (w.stateAt i).cache

def putCache (w : World Code σ) : CacheRef → LookupCache Code → World Code σ
  | .ofClass side k, cache => w.putClassCache side k cache
  | .ofInstance i, cache => w.putInstanceCache i cache

/-- What a search finds when a cache does not answer. -/
def found? (w : World Code σ) : CacheRef → String → Finding Code
  | .ofClass side k, name => w.definition? side k name
  | .ofInstance i, name => w.nearest? (.ofInstance i) name

/-- Asks a cache for a name, under the present stamp of its owner. -/
def ask (w : World Code σ) (c : CacheRef) (name : String) : World Code σ :=
  w.putCache c ((w.cacheAt c).ask name (w.stampOf c.owner) (w.found? c name))

/-- Asks several caches for a name, one after another. -/
def askAll (w : World Code σ) (caches : List CacheRef) (name : String) : World Code σ :=
  caches.foldl (fun w c => w.ask c name) w

theorem askAll_append (w : World Code σ) (l m : List CacheRef) (name : String) :
    w.askAll (l ++ m) name = (w.askAll l name).askAll m name :=
  List.foldl_append

theorem recalled_ask (w : World Code σ) (c : CacheRef) (name : String) :
    Recalled w (w.ask c name) := by
  cases c with
  | ofClass side k =>
    exact recalled_putClassCache fun hw => (hw.classCache k side).ask (hw.lineageStamp_le k) name
  | ofInstance i =>
    exact recalled_putInstanceCache fun hw => (hw.stateCache i).ask (hw.stampOf_le _) name

theorem cacheAt_putCache_self (h : w.Has c.owner) (cache : LookupCache Code) :
    (w.putCache c cache).cacheAt c = cache := by
  cases c with
  | ofClass side k =>
    have hk : w.Has (.ofClass k) := h
    rw [cacheAt, putCache, putClassCache, classAt_modifyClass_self hk,
      ClassRecord.cacheOf_withCache, if_pos rfl]
  | ofInstance i =>
    have hi : w.Has (.ofInstance i) := h
    rw [cacheAt, stateAt, putCache, putInstanceCache, modifyState,
      instanceAt_modifyInstance_self hi]

theorem cacheAt_putCache_of_ne (h : other ≠ c) (cache : LookupCache Code) :
    (w.putCache c cache).cacheAt other = w.cacheAt other := by
  cases c with
  | ofClass side k =>
    cases other with
    | ofInstance j => rfl
    | ofClass side' a =>
      by_cases hs : side' = side
      · have ha : a ≠ k := fun he => h (by rw [hs, he])
        rw [cacheAt, putCache, putClassCache, classAt_modifyClass_of_ne ha]
        rfl
      · have hf : ∀ r : ClassRecord Code, (r.withCache side cache).cacheOf side' = r.cacheOf side' :=
          fun r => by rw [ClassRecord.cacheOf_withCache, if_neg hs]
        exact classAt_modifyClass_congr (·.cacheOf side') hf k a
  | ofInstance i =>
    cases other with
    | ofClass side k => rfl
    | ofInstance j =>
      have hj : j ≠ i := fun he => h (congrArg _ he)
      rw [cacheAt, stateAt, putCache, putInstanceCache, modifyState,
        instanceAt_modifyInstance_of_ne hj]
      rfl

theorem putCache_of_not_has (h : ¬ w.Has c.owner) (cache : LookupCache Code) :
    w.putCache c cache = w := by
  cases c with
  | ofClass side k => exact modifyClass_of_not_has h _
  | ofInstance i => exact modifyInstance_of_not_has h _

/-- The caches that a lookup along the lineage of a class asks. -/
def asksFrom (w : World Code σ) (side : Side) (k : ClassId) : List CacheRef :=
  if w.caching k then [.ofClass side k] else []

def asksSearching (w : World Code σ) (i : InstanceId) (name : String) : List CacheRef :=
  match w.ownMethod? i name with
  | some _ => []
  | none => w.asksFrom .instanceSide (w.instanceAt i).classId

/-- The caches that a lookup for an instance asks. The instance remembers what it
has searched for after the search. -/
def asksInstance (w : World Code σ) (i : InstanceId) (name : String) : List CacheRef :=
  if w.caching (w.instanceAt i).classId then
    if ((w.stateAt i).cache.peek name (w.stampOf (.ofInstance i))).isSome then [.ofInstance i]
    else w.asksSearching i name ++ [.ofInstance i]
  else w.asksSearching i name

def asks (w : World Code σ) : Receiver → String → List CacheRef
  | .ofInstance i, name => w.asksInstance i name
  | .ofClass k, _ => w.asksFrom .classSide k

def asksAboveClass (w : World Code σ) (side : Side) (k above : ClassId) : List CacheRef :=
  match w.parentWithin? k above with
  | some p => w.asksFrom side p
  | none => []

/-- The caches that a lookup above a level of a receiver asks. -/
def asksAbove (w : World Code σ) (on : Receiver) (level : Level) (name : String) :
    List CacheRef :=
  match on, level with
  | .ofInstance i, .singleton =>
    match (w.stateAt i).methods.find? name with
    | some _ => []
    | none => w.asksFrom .instanceSide (w.instanceAt i).classId
  | .ofInstance i, .own => w.asksFrom .instanceSide (w.instanceAt i).classId
  | .ofInstance i, .ofClass k => w.asksAboveClass .instanceSide (w.instanceAt i).classId k
  | .ofClass c, .ofClass k => w.asksAboveClass .classSide c k
  | .ofClass _, _ => []

/-- The caches that are asked for what a super call runs. Outside the body of the
method they are asked first for the method itself. -/
def asksSuper (w : World Code σ) (on : Receiver) (name : String) : List CacheRef :=
  match w.runningLevel? on name with
  | some level => w.asksAbove on level name
  | none =>
    match w.lookUp on name with
    | (some d, v) => w.asks on name ++ v.asksAbove on d.level name
    | (none, _) => w.asks on name

theorem lookUpFrom_snd (w : World Code σ) (side : Side) (k : ClassId) (name : String) :
    (w.lookUpFrom side k name).2 = w.askAll (w.asksFrom side k) name := by
  unfold lookUpFrom asksFrom
  split
  · change _ = w.putClassCache side k
      (((w.classAt k).cacheOf side).ask name (w.lineageStamp k) (w.definition? side k name))
    simp only [LookupCache.ask, LookupCache.consult]
    cases ((w.classAt k).cacheOf side).peek name (w.lineageStamp k) <;> rfl
  · rfl

theorem searchInstance_snd (w : World Code σ) (i : InstanceId) (name : String) :
    (w.searchInstance i name).2 = w.askAll (w.asksSearching i name) name := by
  unfold searchInstance asksSearching
  cases w.ownMethod? i name with
  | some d => rfl
  | none => exact lookUpFrom_snd w _ _ name

theorem instances_searchInstance (w : World Code σ) (i : InstanceId) (name : String) :
    (w.searchInstance i name).2.instances = w.instances := by
  unfold searchInstance
  split
  · rfl
  · unfold lookUpFrom
    split
    · simp only [LookupCache.consult]
      split <;> rfl
    · rfl

theorem Sound.lookUpInstance_snd (hw : w.Sound) (i : InstanceId) (name : String) :
    (w.lookUpInstance i name).2 = w.askAll (w.asksInstance i name) name := by
  unfold lookUpInstance asksInstance
  split
  · cases hp : (w.stateAt i).cache.peek name (w.stampOf (.ofInstance i)) with
    | some r =>
      have hit : ((w.stateAt i).cache.peek name (w.stampOf (.ofInstance i))).isSome := by
        rw [hp]
        rfl
      change _ = w.putInstanceCache i ((w.stateAt i).cache.ask name (w.stampOf (.ofInstance i))
        (w.nearest? (.ofInstance i) name))
      rw [LookupCache.ask_of_hit hit]
      simp only [LookupCache.consult, hp, Option.isSome_some]
    | none =>
      -- The search leaves what the instance itself remembers.
      have hs := recalled_searchInstance w i name
      have state : ((w.searchInstance i name).2.stateAt i).cache = (w.stateAt i).cache := by
        rw [stateAt, instanceAt, instances_searchInstance]
        rfl
      rw [if_neg (by simp), askAll_append, ← searchInstance_snd]
      change _ = (w.searchInstance i name).2.putInstanceCache i
        (((w.searchInstance i name).2.stateAt i).cache.ask name
          ((w.searchInstance i name).2.stampOf (.ofInstance i))
          ((w.searchInstance i name).2.nearest? (.ofInstance i) name))
      rw [state, bare_stampOf hs.same, bare_nearest? hs.same, LookupCache.ask_of_miss hp,
        ← hw.searchInstance_fst]
      simp only [LookupCache.consult, hp, Option.isSome_none]
  · exact searchInstance_snd w i name

theorem Sound.lookUp_snd (hw : w.Sound) (on : Receiver) (name : String) :
    (w.lookUp on name).2 = w.askAll (w.asks on name) name := by
  cases on with
  | ofInstance i => exact hw.lookUpInstance_snd i name
  | ofClass k => exact lookUpFrom_snd w .classSide k name

theorem lookUpAboveClass_snd (w : World Code σ) (side : Side) (k above : ClassId) (name : String) :
    (w.lookUpAboveClass side k above name).2 = w.askAll (w.asksAboveClass side k above) name := by
  unfold lookUpAboveClass asksAboveClass
  cases w.parentWithin? k above with
  | some p => exact lookUpFrom_snd w side p name
  | none => rfl

theorem lookUpAbove_snd (w : World Code σ) (on : Receiver) (level : Level) (name : String) :
    (w.lookUpAbove on level name).2 = w.askAll (w.asksAbove on level name) name := by
  cases on with
  | ofInstance i =>
    cases level with
    | singleton =>
      simp only [lookUpAbove, asksAbove]
      cases (w.stateAt i).methods.find? name with
      | some m => rfl
      | none => exact lookUpFrom_snd w _ _ name
    | own => exact lookUpFrom_snd w _ _ name
    | ofClass k => exact lookUpAboveClass_snd w _ _ k name
  | ofClass c =>
    cases level with
    | ofClass k => exact lookUpAboveClass_snd w _ c k name
    | _ => rfl

theorem Sound.lookUpSuper_snd (hw : w.Sound) (on : Receiver) (name : String) :
    (w.lookUpSuper on name).2 = w.askAll (w.asksSuper on name) name := by
  unfold lookUpSuper superLevel asksSuper
  cases w.runningLevel? on name with
  | some level => exact lookUpAbove_snd w on level name
  | none =>
    have first := hw.lookUp_snd on name
    revert first
    rcases w.lookUp on name with ⟨_ | d, v⟩
    · exact id
    · intro first
      obtain rfl : v = w.askAll (w.asks on name) name := first
      change (World.lookUpAbove _ on d.level name).2 = w.askAll (_ ++ _) name
      rw [askAll_append, lookUpAbove_snd]

end World
end ObjectModel
