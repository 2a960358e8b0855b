import ObjectModel.Proofs.Lineage.Chain
import ObjectModel.Proofs.Lookup.Bare

/-!
# Valid caches

A cache is valid when it answers, under the present stamp of what it belongs
to, only what a search would find. A world is sound when all its caches are
valid, no version is ahead of the clock, and every lineage ends. In a sound
world a lookup finds the nearest definition, and leaves a sound world that
differs in caches only.
-/
namespace ObjectModel
variable {Code σ : Type}

namespace LookupCache
variable {c : LookupCache Code} {stamp latest : Nat} {find : String → Finding Code}

/-- Under a stamp the cache answers what `find` finds, and it was never filled
under a stamp later than `latest`. -/
structure Valid (c : LookupCache Code) (stamp latest : Nat) (find : String → Finding Code) :
    Prop where
  observed : c.validAt ≤ latest
  answers : ∀ name r, c.peek name stamp = some r → r = find name

theorem entries_forget (c : LookupCache Code) : c.forget.entries = {} := by
  unfold forget
  split
  · next h => exact Table.isEmpty_iff.mp h
  · rfl

theorem peek_eq_some {name : String} {r : Finding Code} :
    c.peek name stamp = some r ↔ c.validAt = stamp ∧ c.entries.find? name = some r := by
  unfold peek
  split <;> simp [*]

theorem Valid.of_empty (hc : c.entries = {}) (ho : c.validAt ≤ latest) : c.Valid stamp latest find := by
  refine ⟨ho, fun name r h => ?_⟩
  have hr := (peek_eq_some.mp h).2
  rw [hc] at hr
  contradiction

/-- Under a stamp later than all it has seen a cache answers nothing. -/
theorem Valid.of_lt (hs : c.validAt < stamp) (hl : c.validAt ≤ latest) : c.Valid stamp latest find := by
  refine ⟨hl, fun name r h => ?_⟩
  have hv := (peek_eq_some.mp h).1
  omega

theorem Valid.mono {latest' : Nat} (hc : c.Valid stamp latest find) (hl : latest ≤ latest') :
    c.Valid stamp latest' find :=
  ⟨Nat.le_trans hc.observed hl, hc.answers⟩

theorem Valid.count (hc : c.Valid stamp latest find) (hit : Bool) :
    (c.count hit).Valid stamp latest find := by
  cases hit
  · exact ⟨hc.observed, hc.answers⟩
  · exact ⟨hc.observed, hc.answers⟩

theorem Valid.remember (hc : c.Valid stamp latest find) (hs : stamp ≤ latest) (name : String) :
    (c.remember name stamp (find name)).Valid stamp latest find := by
  -- What is put into a table of right answers leaves one.
  have insert : ∀ t : Table (Finding Code), (∀ other r, t.find? other = some r → r = find other) →
      ∀ other r, (t.insert name (find name)).find? other = some r → r = find other := by
    intro t ht other r h
    rw [Table.find?_insert] at h
    split at h
    · next he => rw [he, Option.some.inj h]
    · exact ht other r h
  unfold LookupCache.remember
  split
  · exact hc
  · split
    · refine ⟨hs, fun other r h => ?_⟩
      refine insert {} (fun _ _ he => ?_) other r (peek_eq_some.mp h).2
      contradiction
    · next hlow hhigh =>
      refine ⟨hc.observed, fun other r h => ?_⟩
      obtain ⟨hv, hr⟩ := peek_eq_some.mp h
      exact insert c.entries (fun o r ho => hc.answers o r (peek_eq_some.mpr ⟨hv, ho⟩)) other r hr

end LookupCache

theorem ClassRecord.cacheOf_withCache (c : ClassRecord Code) (side other : Side)
    (cache : LookupCache Code) :
    (c.withCache side cache).cacheOf other = if other = side then cache else c.cacheOf other := by
  cases side <;> cases other <;> rfl

namespace World
variable {w v u : World Code σ}

/-- The nearest definition of a method for a receiver. -/
def nearest? (w : World Code σ) : Receiver → String → Finding Code
  | .ofInstance i, name =>
    (w.ownMethod? i name).or (w.definition? .instanceSide (w.instanceAt i).classId name)
  | .ofClass k, name => w.definition? .classSide k name

theorem nearest?_behind {veil : Veil} (w : World Code σ) (x : Receiver) (name : String) :
    (w.behind veil).nearest? x name = w.nearest? x name := by
  cases x with
  | ofInstance i =>
    simp only [nearest?, ownMethod?_behind, definition?_behind, instanceAt_behind]
    rfl
  | ofClass k => exact definition?_behind w .classSide k name

@[simp] theorem nearest?_bare (w : World Code σ) (x : Receiver) (name : String) :
    w.bare.nearest? x name = w.nearest? x name := by
  rw [bare_eq_behind, nearest?_behind]

/-- Lineages end, versions follow the clock, and caches are valid. -/
structure Sound (w : World Code σ) : Prop where
  rooted : w.Rooted
  classVersion : ∀ k, (w.classAt k).version ≤ w.clock.latest
  stateVersion : ∀ i, (w.stateAt i).version ≤ w.clock.latest
  classCache : ∀ k side, ((w.classAt k).cacheOf side).Valid (w.lineageStamp k) w.clock.latest
    (w.definition? side k)
  stateCache : ∀ i, (w.stateAt i).cache.Valid (w.stampOf (.ofInstance i)) w.clock.latest
    (w.nearest? (.ofInstance i))

theorem lineageStamp_le_iff {k : ClassId} {n : Nat} :
    w.lineageStamp k ≤ n ↔ ∀ a ∈ w.lineage k, (w.classAt a).version ≤ n := by
  unfold lineageStamp
  induction w.lineage k with
  | nil => simp
  | cons a l ih => rw [List.map_cons, List.foldr_cons, Nat.max_le, ih, List.forall_mem_cons]

theorem version_le_lineageStamp {k a : ClassId} (ha : a ∈ w.lineage k) :
    (w.classAt a).version ≤ w.lineageStamp k :=
  lineageStamp_le_iff.mp (Nat.le_refl _) a ha

theorem Sound.lineageStamp_le (hw : w.Sound) (k : ClassId) : w.lineageStamp k ≤ w.clock.latest :=
  lineageStamp_le_iff.mpr fun a _ => hw.classVersion a

theorem Sound.stampOf_le (hw : w.Sound) (x : Receiver) : w.stampOf x ≤ w.clock.latest := by
  cases x with
  | ofInstance i => exact Nat.max_le.mpr ⟨hw.stateVersion i, hw.lineageStamp_le _⟩
  | ofClass k => exact hw.lineageStamp_le k

theorem bare_classAt (h : v.bare = w.bare) (k : ClassId) :
    (v.classAt k).bare = (w.classAt k).bare := by
  rw [← classAt_bare, h, classAt_bare]

theorem bare_instanceAt (h : v.bare = w.bare) (i : InstanceId) :
    (v.instanceAt i).bare = (w.instanceAt i).bare := by
  rw [← instanceAt_bare, h, instanceAt_bare]

theorem bare_clock (h : v.bare = w.bare) : v.clock = w.clock := congrArg (·.clock) h

theorem bare_parentOf (h : v.bare = w.bare) : v.parentOf = w.parentOf := by
  funext k
  exact congrArg (·.parent) (bare_classAt h k)

theorem bare_lineageStamp (h : v.bare = w.bare) (k : ClassId) :
    v.lineageStamp k = w.lineageStamp k := by
  rw [← lineageStamp_bare, h, lineageStamp_bare]

theorem bare_stampOf (h : v.bare = w.bare) (x : Receiver) : v.stampOf x = w.stampOf x := by
  rw [← stampOf_bare, h, stampOf_bare]

theorem bare_definition? (h : v.bare = w.bare) (side : Side) (k : ClassId) :
    v.definition? side k = w.definition? side k := by
  funext name
  rw [← definition?_bare, h, definition?_bare]

theorem bare_nearest? (h : v.bare = w.bare) (x : Receiver) : v.nearest? x = w.nearest? x := by
  funext name
  rw [← nearest?_bare, h, nearest?_bare]

theorem bare_handler? (h : v.bare = w.bare) (x : Receiver) : v.handler? x = w.handler? x := by
  rw [← handler?_bare, h, handler?_bare]

theorem bare_receiverName (h : v.bare = w.bare) (x : Receiver) :
    v.receiverName x = w.receiverName x := by
  rw [← receiverName_bare, h, receiverName_bare]

/-- A sound world stays sound when only caches change, and to valid ones. -/
theorem Sound.of_bare (hw : w.Sound) (h : v.bare = w.bare)
    (classCache : ∀ k side, ((v.classAt k).cacheOf side).Valid (w.lineageStamp k) w.clock.latest
      (w.definition? side k))
    (stateCache : ∀ i, (v.stateAt i).cache.Valid (w.stampOf (.ofInstance i)) w.clock.latest
      (w.nearest? (.ofInstance i))) : v.Sound where
  rooted := hw.rooted.congr (bare_parentOf h)
  classVersion k := by
    have hv : (v.classAt k).version = (w.classAt k).version :=
      congrArg (·.version) (bare_classAt h k)
    rw [hv, bare_clock h]
    exact hw.classVersion k
  stateVersion i := by
    have hv : (v.stateAt i).version = (w.stateAt i).version :=
      congrArg (·.state.version) (bare_instanceAt h i)
    rw [hv, bare_clock h]
    exact hw.stateVersion i
  classCache k side := by
    rw [bare_lineageStamp h, bare_clock h, bare_definition? h]
    exact classCache k side
  stateCache i := by
    rw [bare_stampOf h, bare_clock h, bare_nearest? h]
    exact stateCache i

/-- One world comes from another by remembering: they differ in caches only,
and nothing false is remembered that was not before. -/
structure Recalled (w v : World Code σ) : Prop where
  same : v.bare = w.bare
  flags : ∀ k, (v.classAt k).flags = (w.classAt k).flags
  sound : w.Sound → v.Sound

theorem Recalled.refl (w : World Code σ) : Recalled w w := ⟨rfl, fun _ => rfl, id⟩

theorem Recalled.trans (h : Recalled w v) (h' : Recalled v u) : Recalled w u :=
  ⟨h'.same.trans h.same, fun k => (h'.flags k).trans (h.flags k),
    fun hw => h'.sound (h.sound hw)⟩

theorem recalled_putClassCache {side : Side} {k : ClassId} {cache : LookupCache Code}
    (hc : w.Sound → cache.Valid (w.lineageStamp k) w.clock.latest (w.definition? side k)) :
    Recalled w (w.putClassCache side k cache) := by
  refine ⟨bare_putClassCache w side k cache, fun a => ?_, fun hw => ?_⟩
  · refine classAt_modifyClass_congr (·.flags) (fun c => ?_) k a
    cases side <;> rfl
  refine hw.of_bare (bare_putClassCache w side k cache) (fun a other => ?_) (fun i => hw.stateCache i)
  by_cases ha : a = k
  · subst ha
    by_cases hk : w.Has (.ofClass a)
    · rw [putClassCache, classAt_modifyClass_self hk, ClassRecord.cacheOf_withCache]
      split
      · next he =>
        subst he
        exact hc hw
      · exact hw.classCache a other
    · rw [putClassCache, modifyClass_of_not_has hk]
      exact hw.classCache a other
  · rw [putClassCache, classAt_modifyClass_of_ne ha]
    exact hw.classCache a other

theorem recalled_putInstanceCache {i : InstanceId} {cache : LookupCache Code}
    (hc : w.Sound → cache.Valid (w.stampOf (.ofInstance i)) w.clock.latest
      (w.nearest? (.ofInstance i))) : Recalled w (w.putInstanceCache i cache) := by
  refine ⟨bare_putInstanceCache w i cache, fun _ => rfl, fun hw => ?_⟩
  refine hw.of_bare (bare_putInstanceCache w i cache) (fun k side => hw.classCache k side) (fun j => ?_)
  by_cases hj : j = i
  · subst hj
    by_cases hi : w.Has (.ofInstance j)
    · rw [stateAt, putInstanceCache, modifyState, instanceAt_modifyInstance_self hi]
      exact hc hw
    · rw [putInstanceCache, modifyState, modifyInstance_of_not_has hi]
      exact hw.stateCache j
  · rw [stateAt, putInstanceCache, modifyState, instanceAt_modifyInstance_of_ne hj]
    exact hw.stateCache j

theorem recalled_lookUpFrom (w : World Code σ) (side : Side) (k : ClassId) (name : String) :
    Recalled w (w.lookUpFrom side k name).2 := by
  unfold lookUpFrom
  split
  · simp only [LookupCache.consult]
    cases h : ((w.classAt k).cacheOf side).peek name (w.lineageStamp k) with
    | some r => exact recalled_putClassCache fun hw => (hw.classCache k side).count _
    | none =>
      exact recalled_putClassCache fun hw =>
        ((hw.classCache k side).count _).remember (hw.lineageStamp_le k) name
  · exact .refl w

theorem Sound.lookUpFrom_fst (hw : w.Sound) (side : Side) (k : ClassId) (name : String) :
    (w.lookUpFrom side k name).1 = w.definition? side k name := by
  unfold lookUpFrom
  split
  · simp only [LookupCache.consult]
    cases h : ((w.classAt k).cacheOf side).peek name (w.lineageStamp k) with
    | some r => exact (hw.classCache k side).answers name r h
    | none => rfl
  · rfl

theorem recalled_searchInstance (w : World Code σ) (i : InstanceId) (name : String) :
    Recalled w (w.searchInstance i name).2 := by
  unfold searchInstance
  split
  · exact .refl w
  · exact recalled_lookUpFrom w _ _ _

theorem Sound.searchInstance_fst (hw : w.Sound) (i : InstanceId) (name : String) :
    (w.searchInstance i name).1 = w.nearest? (.ofInstance i) name := by
  unfold searchInstance
  rw [nearest?]
  split
  · next h =>
    rw [h]
    rfl
  · next h => rw [h, Option.none_or, hw.lookUpFrom_fst]

theorem recalled_lookUpInstance (w : World Code σ) (i : InstanceId) (name : String) :
    Recalled w (w.lookUpInstance i name).2 := by
  unfold lookUpInstance
  split
  · simp only [LookupCache.consult]
    cases h : (w.stateAt i).cache.peek name (w.stampOf (.ofInstance i)) with
    | some r => exact recalled_putInstanceCache fun hw => (hw.stateCache i).count _
    | none =>
      -- The cache is filled after the search, under the stamp from before it.
      have hs := recalled_searchInstance w i name
      refine ⟨(bare_putInstanceCache _ _ _).trans hs.same, hs.flags, fun hw => ?_⟩
      refine (recalled_putInstanceCache fun _ => ?_).sound (hs.sound hw)
      rw [bare_stampOf hs.same, bare_clock hs.same, bare_nearest? hs.same, hw.searchInstance_fst]
      exact ((hw.stateCache i).count _).remember (hw.stampOf_le _) name
  · exact recalled_searchInstance w i name

theorem Sound.lookUpInstance_fst (hw : w.Sound) (i : InstanceId) (name : String) :
    (w.lookUpInstance i name).1 = w.nearest? (.ofInstance i) name := by
  unfold lookUpInstance
  split
  · simp only [LookupCache.consult]
    cases h : (w.stateAt i).cache.peek name (w.stampOf (.ofInstance i)) with
    | some r => exact (hw.stateCache i).answers name r h
    | none => exact hw.searchInstance_fst i name
  · exact hw.searchInstance_fst i name

end World
end ObjectModel
