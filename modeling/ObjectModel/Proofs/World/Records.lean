import ObjectModel.World.Lifecycle

/-!
# Records read after they are written

A change of one record is seen at its own number and nowhere else, and a change
of a record that is not there is no change at all.
-/
namespace ObjectModel

namespace Registry
variable {α β : Type}

theorem modify_of_find?_eq_none {r : Registry α} {number : Nat} (h : r.find? number = none)
    (f : α → α) : r.modify number f = r := by
  unfold find? at h
  unfold modify
  by_cases hn : number = 0
  · rw [if_pos hn]
  · rw [if_neg hn] at h ⊢
    have he : r.records.modify (number - 1) f = r.records := by
      apply Array.ext_getElem?
      intro i
      rw [Array.getElem?_modify]
      split
      · next hi => rw [← hi, h]; rfl
      · rfl
    rw [he]

/-- A record may be changed to what a function makes of it as it is read. -/
theorem modify_getD [Inhabited α] (r : Registry α) (number : Nat) (f : α → α) :
    (r.modify number fun _ => f ((r.find? number).getD default)) = r.modify number f := by
  unfold modify find?
  by_cases hn : number = 0
  · simp only [if_pos hn]
  · simp only [if_neg hn]
    congr 1
    apply Array.ext_getElem?
    intro i
    rw [Array.getElem?_modify, Array.getElem?_modify]
    split
    · next hi =>
      subst hi
      cases r.records[number - 1]? <;> rfl
    · rfl

/-- A function of every record. -/
def map (r : Registry α) (f : α → β) : Registry β := ⟨r.records.map f⟩

@[simp] theorem size_map (r : Registry α) (f : α → β) : (r.map f).size = r.size := by
  simp [map, size]

@[simp] theorem find?_map (r : Registry α) (f : α → β) (number : Nat) :
    (r.map f).find? number = (r.find? number).map f := by
  unfold map find?
  split
  · rfl
  · exact Array.getElem?_map

theorem map_add (r : Registry α) (f : α → β) (a : α) : (r.add a).map f = (r.map f).add (f a) := by
  simp [map, add]

theorem map_modify {r : Registry α} {number : Nat} {f : α → β} {g : α → α} {g' : β → β}
    (h : ∀ a, f (g a) = g' (f a)) : (r.modify number g).map f = (r.map f).modify number g' := by
  unfold map modify
  split
  · rfl
  · congr 1
    apply Array.ext_getElem?
    intro i
    simp only [Array.getElem?_map, Array.getElem?_modify]
    split
    · simp only [Option.map_map]
      exact congrArg (Option.map · _) (funext h)
    · rfl

theorem map_self {r : Registry α} {f : α → α} (h : ∀ a, f a = a) : r.map f = r := by
  rw [map, funext h, Array.map_id']

/-- A change that a function does not see. -/
theorem map_modify_self {r : Registry α} {number : Nat} {f : α → β} {g : α → α}
    (h : ∀ a, f (g a) = f a) : (r.modify number g).map f = r.map f := by
  have he : (r.modify number g).map f = (r.map f).modify number id := map_modify h
  rw [he]
  unfold modify
  split
  · rfl
  · congr 1
    apply Array.ext_getElem?
    intro i
    simp [map, Array.getElem?_modify]

theorem map_map_self {r : Registry α} {f : α → α} (h : ∀ a, f (f a) = f a) :
    (r.map f).map f = r.map f := by
  simp [map, Function.comp_def, h]

end Registry

namespace World
variable {Code σ : Type} {w : World Code σ}

/-- Whether there is a receiver with an identity. -/
def Has (w : World Code σ) : Receiver → Prop
  | .ofInstance i => (w.instances.find? i.number).isSome = true
  | .ofClass k => (w.classes.find? k.number).isSome = true

theorem has_ofClass_iff {k : ClassId} :
    w.Has (.ofClass k) ↔ 1 ≤ k.number ∧ k.number ≤ w.classes.size :=
  Registry.find?_isSome

theorem classAt_of_not_has {k : ClassId} (h : ¬ w.Has (.ofClass k)) : w.classAt k = default := by
  have hn : w.classes.find? k.number = none := by simpa [Has] using h
  rw [classAt, hn]
  rfl

theorem modifyClass_of_not_has {k : ClassId} (h : ¬ w.Has (.ofClass k))
    (f : ClassRecord Code → ClassRecord Code) : w.modifyClass k f = w := by
  have hn : w.classes.find? k.number = none := by simpa [Has] using h
  rw [modifyClass, Registry.modify_of_find?_eq_none hn]

theorem classAt_modifyClass_self {k : ClassId} (h : w.Has (.ofClass k))
    (f : ClassRecord Code → ClassRecord Code) :
    (w.modifyClass k f).classAt k = f (w.classAt k) := by
  obtain ⟨c, hc⟩ := Option.isSome_iff_exists.mp h
  simp [classAt, modifyClass, Registry.find?_modify, hc]

theorem classAt_modifyClass_of_ne {a k : ClassId} (h : a ≠ k)
    (f : ClassRecord Code → ClassRecord Code) :
    (w.modifyClass k f).classAt a = w.classAt a := by
  have hn : a.number ≠ k.number := by
    intro he
    exact h (by cases a; cases k; simp_all)
  simp [classAt, modifyClass, Registry.find?_modify, hn]

/-- What a change of a record keeps is kept everywhere. -/
theorem classAt_modifyClass_congr {β : Sort _} {f : ClassRecord Code → ClassRecord Code}
    (g : ClassRecord Code → β) (hg : ∀ c, g (f c) = g c) (k a : ClassId) :
    g ((w.modifyClass k f).classAt a) = g (w.classAt a) := by
  by_cases ha : a = k
  · subst a
    by_cases h : w.Has (.ofClass k)
    · rw [classAt_modifyClass_self h, hg]
    · rw [modifyClass_of_not_has h]
  · rw [classAt_modifyClass_of_ne ha]

theorem has_modifyClass (k : ClassId) (f : ClassRecord Code → ClassRecord Code)
    (x : Receiver) : (w.modifyClass k f).Has x ↔ w.Has x := by
  cases x with
  | ofInstance i => exact Iff.rfl
  | ofClass a => rw [has_ofClass_iff, has_ofClass_iff, modifyClass, Registry.size_modify]

theorem instanceAt_of_not_has {i : InstanceId} (h : ¬ w.Has (.ofInstance i)) :
    w.instanceAt i = default := by
  have hn : w.instances.find? i.number = none := by simpa [Has] using h
  rw [instanceAt, hn]
  rfl

theorem modifyInstance_of_not_has {i : InstanceId} (h : ¬ w.Has (.ofInstance i))
    (f : InstanceRecord Code → InstanceRecord Code) : w.modifyInstance i f = w := by
  have hn : w.instances.find? i.number = none := by simpa [Has] using h
  rw [modifyInstance, Registry.modify_of_find?_eq_none hn]

theorem instanceAt_modifyInstance_self {i : InstanceId} (h : w.Has (.ofInstance i))
    (f : InstanceRecord Code → InstanceRecord Code) :
    (w.modifyInstance i f).instanceAt i = f (w.instanceAt i) := by
  obtain ⟨r, hr⟩ := Option.isSome_iff_exists.mp h
  simp [instanceAt, modifyInstance, Registry.find?_modify, hr]

theorem instanceAt_modifyInstance_of_ne {j i : InstanceId} (h : j ≠ i)
    (f : InstanceRecord Code → InstanceRecord Code) :
    (w.modifyInstance i f).instanceAt j = w.instanceAt j := by
  have hn : j.number ≠ i.number := by
    intro he
    exact h (by cases j; cases i; simp_all)
  simp [instanceAt, modifyInstance, Registry.find?_modify, hn]

/-- What a change of a record keeps is kept everywhere. -/
theorem instanceAt_modifyInstance_congr {β : Sort _}
    {f : InstanceRecord Code → InstanceRecord Code} (g : InstanceRecord Code → β)
    (hg : ∀ r, g (f r) = g r) (i j : InstanceId) :
    g ((w.modifyInstance i f).instanceAt j) = g (w.instanceAt j) := by
  by_cases hj : j = i
  · subst j
    by_cases h : w.Has (.ofInstance i)
    · rw [instanceAt_modifyInstance_self h, hg]
    · rw [modifyInstance_of_not_has h]
  · rw [instanceAt_modifyInstance_of_ne hj]

theorem has_modifyInstance (i : InstanceId) (f : InstanceRecord Code → InstanceRecord Code)
    (x : Receiver) : (w.modifyInstance i f).Has x ↔ w.Has x := by
  cases x with
  | ofClass k => exact Iff.rfl
  | ofInstance j =>
    simp only [Has, modifyInstance, Registry.find?_isSome, Registry.size_modify]

theorem classAt_add (c : ClassRecord Code) (stores : Registry (Variables Code)) (k : ClassId) :
    ({ w with classes := w.classes.add c, stores } : World Code σ).classAt k =
      if k.number = w.classes.next then c else w.classAt k := by
  simp only [classAt, Registry.find?_add]
  split <;> rfl

theorem instanceAt_add (r : InstanceRecord Code) (i : InstanceId) :
    ({ w with instances := w.instances.add r } : World Code σ).instanceAt i =
      if i.number = w.instances.next then r else w.instanceAt i := by
  simp only [instanceAt, Registry.find?_add]
  split <;> rfl

theorem has_add_class {c : ClassRecord Code} {stores : Registry (Variables Code)} {x : Receiver}
    (h : w.Has x) : ({ w with classes := w.classes.add c, stores } : World Code σ).Has x := by
  cases x with
  | ofInstance i => exact h
  | ofClass k =>
    rw [has_ofClass_iff] at h ⊢
    exact ⟨h.1, Nat.le_trans h.2 (Nat.le_of_lt (by simp))⟩

theorem has_add_instance {r : InstanceRecord Code} {x : Receiver} (h : w.Has x) :
    ({ w with instances := w.instances.add r } : World Code σ).Has x := by
  cases x with
  | ofClass k => exact h
  | ofInstance i =>
    rw [Has, Registry.find?_isSome] at h ⊢
    exact ⟨h.1, Nat.le_trans h.2 (Nat.le_of_lt (by simp))⟩

theorem not_has_next_class (w : World Code σ) : ¬ w.Has (.ofClass ⟨w.classes.next⟩) := by
  rw [has_ofClass_iff]
  exact fun h => Nat.not_succ_le_self _ h.2

theorem not_has_next_instance (w : World Code σ) : ¬ w.Has (.ofInstance ⟨w.instances.next⟩) := by
  rw [Has, Registry.find?_isSome]
  exact fun h => Nat.not_succ_le_self _ h.2

end World
end ObjectModel
