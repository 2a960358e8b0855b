import ObjectModel.Proofs.World.Change

/-!
# Redefinitions and new stamps

Every effective change of methods, aliases or a parent link is a change of one
record followed by a new stamp for it, and is a redefinition in the sense of
`Redefined`. On a receiver that is not there it only moves the clock.
-/
namespace ObjectModel
variable {Code σ : Type}

@[simp] theorem LookupCache.standing_forget (c : LookupCache Code) :
    c.forget.standing = c.standing := by
  unfold LookupCache.forget
  split <;> rfl

/-- A change of a class that leaves its version and its caches to the stamp,
and methods under their own names. -/
structure ClassRecord.Edit (f : ClassRecord Code → ClassRecord Code) : Prop where
  version : ∀ c, (f c).version = c.version
  cacheOf : ∀ c side, (f c).cacheOf side = c.cacheOf side
  named : ∀ c, c.Named → (f c).Named

/-- A change of a state that leaves its version and its cache to the stamp, and
methods under their own names. -/
structure ObjectState.Edit (f : ObjectState Code → ObjectState Code) : Prop where
  version : ∀ s, (f s).version = s.version
  cache : ∀ s, (f s).cache = s.cache
  named : ∀ s, s.Named → (f s).Named

/-- A class that has taken a stamp and forgotten its findings. -/
def ClassRecord.stamped (stamp : Nat) (c : ClassRecord Code) : ClassRecord Code :=
  { c with
    version := Clock.raise c.version stamp
    cache := c.cache.forget
    classCache := c.classCache.forget }

/-- A state that has taken a stamp and forgotten its findings. -/
def ObjectState.stamped (stamp : Nat) (s : ObjectState Code) : ObjectState Code :=
  { s with
    version := Clock.raise s.version stamp
    cache := s.cache.forget }

theorem ClassRecord.standing_stamped (stamp : Nat) (c : ClassRecord Code) (side : Side) :
    ((c.stamped stamp).cacheOf side).standing = (c.cacheOf side).standing := by
  cases side
  · exact LookupCache.standing_forget c.cache
  · exact LookupCache.standing_forget c.classCache

theorem ClassRecord.entries_stamped (stamp : Nat) (c : ClassRecord Code) (side : Side) :
    ((c.stamped stamp).cacheOf side).entries = {} := by
  cases side
  · exact c.cache.entries_forget
  · exact c.classCache.entries_forget

namespace World
variable {w : World Code σ}

/-- The world after a tick of the clock. -/
def ticked (w : World Code σ) : World Code σ := { w with clock := w.clock.tick.2 }

theorem stampClass_eq (w : World Code σ) (k : ClassId) :
    w.stampClass k = w.ticked.modifyClass k (.stamped (w.clock.latest + 1)) := rfl

theorem stampInstance_eq (w : World Code σ) (i : InstanceId) :
    w.stampInstance i = w.ticked.modifyState i (.stamped (w.clock.latest + 1)) := rfl

theorem has_ticked (w : World Code σ) (x : Receiver) : w.ticked.Has x ↔ w.Has x := by
  cases x <;> exact Iff.rfl

theorem quiet_ticked (w : World Code σ) : Quiet w w.ticked :=
  ⟨fun x => (has_ticked w x).mpr, Nat.le_succ _, fun _ => rfl, fun _ => rfl⟩

theorem classAt_stampClass_self {k : ClassId} (h : w.Has (.ofClass k)) :
    (w.stampClass k).classAt k = (w.classAt k).stamped (w.clock.latest + 1) := by
  have h' : w.ticked.Has (.ofClass k) := h
  rw [stampClass_eq, classAt_modifyClass_self h']
  rfl

theorem classAt_stampClass_of_ne {a k : ClassId} (h : a ≠ k) :
    (w.stampClass k).classAt a = w.classAt a := by
  rw [stampClass_eq, classAt_modifyClass_of_ne h]
  rfl

theorem parentOf_stampClass (w : World Code σ) (k : ClassId) :
    (w.stampClass k).parentOf = w.parentOf := by
  funext a
  rw [parentOf, stampClass_eq]
  exact classAt_modifyClass_congr (w := w.ticked) (f := .stamped _) (·.parent) (fun _ => rfl) k a

/-- A class after an edit and a stamp. -/
theorem classAt_edited_self {k : ClassId} (hk : w.Has (.ofClass k))
    (f : ClassRecord Code → ClassRecord Code) :
    ((w.modifyClass k f).stampClass k).classAt k =
      (f (w.classAt k)).stamped (w.clock.latest + 1) := by
  rw [classAt_stampClass_self ((has_modifyClass k f _).mpr hk), classAt_modifyClass_self hk]
  rfl

theorem classAt_edited_of_ne {a k : ClassId} (ha : a ≠ k)
    (f : ClassRecord Code → ClassRecord Code) :
    ((w.modifyClass k f).stampClass k).classAt a = w.classAt a := by
  rw [classAt_stampClass_of_ne ha, classAt_modifyClass_of_ne ha]

theorem quiet_stampClass_of_not_has {k : ClassId} (h : ¬ w.Has (.ofClass k))
    (f : ClassRecord Code → ClassRecord Code) : Quiet w ((w.modifyClass k f).stampClass k) := by
  have h' : ¬ w.ticked.Has (.ofClass k) := h
  rw [modifyClass_of_not_has h, stampClass_eq, modifyClass_of_not_has h']
  exact quiet_ticked w

/-- An edit of a class and a stamp for it are a redefinition, provided that the
class still has a lineage. -/
theorem redefined_class {k : ClassId} {f : ClassRecord Code → ClassRecord Code} {l : List ClassId}
    (hw : w.Sound) (hk : w.Has (.ofClass k)) (hf : ClassRecord.Edit f)
    (hl : Chain (w.modifyClass k f).parentOf k l) :
    Redefined (.ofClass k) w ((w.modifyClass k f).stampClass k) := by
  have hself := classAt_edited_self hk f
  have hother : ∀ a, a ≠ k → ((w.modifyClass k f).stampClass k).classAt a = w.classAt a :=
    fun a ha => classAt_edited_of_ne ha f
  refine
    { clock := rfl
      version := ?_
      classes := fun a ha => congrArg _ (hother a (mt (congrArg _) ha))
      instances := fun _ _ => rfl
      classOf := rfl
      rooted := ⟨l, by rwa [parentOf_stampClass]⟩
      classCache := fun a side => ?_
      stateCache := fun _ => rfl
      classBlank := fun a side ha => ?_
      stateBlank := fun _ hi => by contradiction
      classNamed := fun a ha => ?_
      stateNamed := fun _ hi => hi }
  · rw [versionOf, hself, ClassRecord.stamped, hf.version]
    exact Clock.raise_tick (hw.classVersion k)
  · by_cases ha : a = k
    · subst ha
      rw [hself, ClassRecord.standing_stamped, hf.cacheOf]
    · rw [hother a ha]
  · obtain rfl := Receiver.ofClass.inj ha
    rw [hself]
    exact (f (w.classAt a)).entries_stamped _ side
  · by_cases hak : a = k
    · subst hak
      rw [hself]
      exact hf.named _ ha
    · rwa [hother a hak]

theorem touched_class {k : ClassId} {f : ClassRecord Code → ClassRecord Code}
    (hw : w.Sound) (hf : ClassRecord.Edit f)
    (hl : w.Has (.ofClass k) → ∃ l, Chain (w.modifyClass k f).parentOf k l) :
    Touched (.ofClass k) w ((w.modifyClass k f).stampClass k) where
  has x := by rw [stampClass_eq, has_modifyClass, has_ticked, has_modifyClass]
  redefined hk := by
    obtain ⟨l, hl⟩ := hl hk
    exact redefined_class hw hk hf hl
  quiet hk := quiet_stampClass_of_not_has hk f

/-- An edit that does not touch the parent. -/
theorem touched_class_of_parent {k : ClassId} {f : ClassRecord Code → ClassRecord Code}
    (hw : w.Sound) (hf : ClassRecord.Edit f) (hp : ∀ c, (f c).parent = c.parent) :
    Touched (.ofClass k) w ((w.modifyClass k f).stampClass k) := by
  have same : (w.modifyClass k f).parentOf = w.parentOf :=
    funext fun a => classAt_modifyClass_congr (·.parent) hp k a
  refine touched_class hw hf fun _ => ⟨w.lineage k, ?_⟩
  rw [same]
  exact hw.rooted.chain k

theorem stateAt_modifyState_self {i : InstanceId} (h : w.Has (.ofInstance i))
    (f : ObjectState Code → ObjectState Code) : (w.modifyState i f).stateAt i = f (w.stateAt i) := by
  rw [stateAt, modifyState, instanceAt_modifyInstance_self h]
  rfl

theorem stateAt_stampInstance_self {i : InstanceId} (h : w.Has (.ofInstance i)) :
    (w.stampInstance i).stateAt i = (w.stateAt i).stamped (w.clock.latest + 1) := by
  have h' : w.ticked.Has (.ofInstance i) := h
  rw [stampInstance_eq, stateAt_modifyState_self h']
  rfl

theorem instanceAt_stampInstance_of_ne {j i : InstanceId} (h : j ≠ i) :
    (w.stampInstance i).instanceAt j = w.instanceAt j := by
  rw [stampInstance_eq]
  exact instanceAt_modifyInstance_of_ne h _

/-- A state after an edit and a stamp. -/
theorem stateAt_edited_self {i : InstanceId} (hi : w.Has (.ofInstance i))
    (f : ObjectState Code → ObjectState Code) :
    ((w.modifyState i f).stampInstance i).stateAt i =
      (f (w.stateAt i)).stamped (w.clock.latest + 1) := by
  have hi' : (w.modifyState i f).Has (.ofInstance i) := (has_modifyInstance i _ _).mpr hi
  rw [stateAt_stampInstance_self hi', stateAt_modifyState_self hi]
  rfl

theorem instanceAt_edited_of_ne {j i : InstanceId} (hj : j ≠ i)
    (f : ObjectState Code → ObjectState Code) :
    ((w.modifyState i f).stampInstance i).instanceAt j = w.instanceAt j := by
  rw [instanceAt_stampInstance_of_ne hj, modifyState, instanceAt_modifyInstance_of_ne hj]

theorem classId_modifyState (f : ObjectState Code → ObjectState Code) (i j : InstanceId) :
    ((w.modifyState i f).instanceAt j).classId = (w.instanceAt j).classId :=
  instanceAt_modifyInstance_congr (f := fun r => { r with state := f r.state }) (·.classId)
    (fun _ => rfl) i j

theorem quiet_stampInstance_of_not_has {i : InstanceId} (h : ¬ w.Has (.ofInstance i))
    (f : ObjectState Code → ObjectState Code) : Quiet w ((w.modifyState i f).stampInstance i) := by
  have h' : ¬ w.ticked.Has (.ofInstance i) := h
  rw [modifyState, modifyInstance_of_not_has h, stampInstance_eq]
  unfold modifyState
  rw [modifyInstance_of_not_has h']
  exact quiet_ticked w

/-- An edit of a state and a stamp for its instance are a redefinition. -/
theorem redefined_state {i : InstanceId} {f : ObjectState Code → ObjectState Code}
    (hw : w.Sound) (hi : w.Has (.ofInstance i)) (hf : ObjectState.Edit f) :
    Redefined (.ofInstance i) w ((w.modifyState i f).stampInstance i) := by
  have hself := stateAt_edited_self hi f
  have hother : ∀ j, j ≠ i → ((w.modifyState i f).stampInstance i).instanceAt j = w.instanceAt j :=
    fun j hj => instanceAt_edited_of_ne hj f
  refine
    { clock := rfl
      version := ?_
      classes := fun _ _ => rfl
      instances := fun j hj => congrArg _ (hother j (mt (congrArg _) hj))
      classOf := ?_
      rooted := ⟨_, hw.rooted.chain _⟩
      classCache := fun _ _ => rfl
      stateCache := fun j => ?_
      classBlank := fun _ _ hk => by contradiction
      stateBlank := fun j hj => ?_
      classNamed := fun _ hk => hk
      stateNamed := fun j hj => ?_ }
  · rw [versionOf, hself, ObjectState.stamped, hf.version]
    exact Clock.raise_tick (hw.stateVersion i)
  · rw [stampInstance_eq]
    exact (classId_modifyState _ i i).trans (classId_modifyState f i i)
  · by_cases hji : j = i
    · subst hji
      rw [hself, ObjectState.stamped, LookupCache.standing_forget, hf.cache]
    · rw [stateAt, hother j hji, stateAt]
  · obtain rfl := Receiver.ofInstance.inj hj
    rw [hself]
    exact LookupCache.entries_forget _
  · by_cases hji : j = i
    · subst hji
      rw [hself]
      exact hf.named _ hj
    · rwa [stateAt, hother j hji]

theorem touched_state {i : InstanceId} {f : ObjectState Code → ObjectState Code} (hw : w.Sound)
    (hf : ObjectState.Edit f) :
    Touched (.ofInstance i) w ((w.modifyState i f).stampInstance i) where
  has x := by
    rw [stampInstance_eq, modifyState, has_modifyInstance, has_ticked]
    exact has_modifyInstance i _ x
  redefined hi := redefined_state hw hi hf
  quiet hi := quiet_stampInstance_of_not_has hi f

end World
end ObjectModel
