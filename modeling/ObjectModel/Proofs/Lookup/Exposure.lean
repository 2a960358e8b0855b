import ObjectModel.Proofs.Program.Step

/-!
# Where a definition shows

A method stands in a place: among the singleton methods of an instance, among its
own, or in one of the two tables of a class. Whoever looks a method up goes
through places in a fixed order. Putting a method into a place, or taking it out,
changes exactly the lookups of that name by those who come to the place and have
found nothing before it, whatever has been remembered.
-/
namespace ObjectModel
variable {Code σ : Type}

/-- Where a method can stand. -/
inductive Place where
  | singleton (i : InstanceId)
  | own (i : InstanceId)
  | ofClass (side : Side) (k : ClassId)
  deriving DecidableEq

namespace Place

/-- The level that a definition from a place is on. -/
def level : Place → Level
  | singleton _ => .singleton
  | own _ => .own
  | ofClass _ k => .ofClass k

/-- The receiver that has the place. -/
def holder : Place → Receiver
  | singleton i | own i => .ofInstance i
  | ofClass _ k => .ofClass k

/-- The place of the methods that a receiver has on the instance side of its own
level. -/
def ofReceiver : Receiver → Place
  | .ofInstance i => own i
  | .ofClass k => ofClass .instanceSide k

end Place

/-- Who looks methods up: an instance, or a class for either of its sides. -/
inductive Seeker where
  | ofInstance (i : InstanceId)
  | ofClass (side : Side) (k : ClassId)
  deriving DecidableEq

/-- Who a receiver is when it looks for the methods it has itself. -/
def Seeker.ofReceiver : Receiver → Seeker
  | .ofInstance i => .ofInstance i
  | .ofClass k => .ofClass .classSide k

/-- A method put under a name in a place, or none after a removal. -/
structure Edit (Code : Type) where
  place : Place
  name : String
  method : Option (Method Code)

/-- What an operation that defines or removes one method puts where in a world;
none when it has no effect. -/
def Operation.edit? (w : World Code σ) : Operation Code σ → Option (Edit Code)
  | defineMethod on name m => some ⟨.ofReceiver on, name, some (m.named name .instanceSide)⟩
  | defineClassMethod k name m => some ⟨.ofClass .classSide k, name, some (m.named name .classSide)⟩
  | defineSingleton i name m => some ⟨.singleton i, name, some (m.named name .instanceSide)⟩
  | defineFromValue k name v =>
    (v.method? .instanceSide).map fun m =>
      ⟨.ofClass .instanceSide k, name, some (m.named name .instanceSide)⟩
  | removeMethod on name =>
    if (w.methodsAt on).contains name then some ⟨.ofReceiver on, name, none⟩ else none
  | _ => none

namespace World
variable {w v : World Code σ}

/-- The methods that stand in a place. -/
def methodsIn (w : World Code σ) : Place → MethodDictionary Code
  | .singleton i => (w.stateAt i).singletonMethods
  | .own i => (w.stateAt i).methods
  | .ofClass side k => (w.classAt k).table side

/-- What a place defines under a name. -/
def definedIn (w : World Code σ) (name : String) (p : Place) : Finding Code :=
  ((w.methodsIn p).find? name).map fun m => ⟨m, p.level⟩

/-- The places where a seeker looks, in order. -/
def order (w : World Code σ) : Seeker → List Place
  | .ofInstance i =>
    .singleton i :: .own i :: (w.lineage (w.instanceAt i).classId).map (.ofClass .instanceSide)
  | .ofClass side k => (w.lineage k).map (.ofClass side)

/-- Looks a method up, through what has been remembered. -/
def seek (w : World Code σ) : Seeker → String → Finding Code × World Code σ
  | .ofInstance i, name => w.lookUpInstance i name
  | .ofClass side k, name => w.lookUpFrom side k name

/-- A seeker comes to a place for a name: nothing before the place defines it. -/
def Exposes (w : World Code σ) (x : Seeker) (p : Place) (name : String) : Prop :=
  p ∈ w.order x ∧ ∀ q ∈ (w.order x).takeWhile (· ≠ p), w.definedIn name q = none

instance (w : World Code σ) (x : Seeker) (p : Place) (name : String) :
    Decidable (w.Exposes x p name) :=
  inferInstanceAs (Decidable (_ ∧ ∀ q ∈ _, w.definedIn name q = none))

/-- What a seeker finds beyond a place. -/
def beyond (w : World Code σ) (x : Seeker) (p : Place) (name : String) : Finding Code :=
  (((w.order x).dropWhile (· ≠ p)).drop 1).findSome? (w.definedIn name)

theorem Sound.seek_fst (hw : w.Sound) (x : Seeker) (name : String) :
    (w.seek x name).1 = (w.order x).findSome? (w.definedIn name) := by
  cases x with
  | ofClass side k =>
    rw [order, List.findSome?_map]
    exact hw.lookUpFrom_fst side k name
  | ofInstance i =>
    have line : ((w.lineage (w.instanceAt i).classId).map (.ofClass .instanceSide)).findSome?
        (w.definedIn name) = w.definition? .instanceSide (w.instanceAt i).classId name := by
      rw [List.findSome?_map]
      rfl
    rw [seek, hw.lookUpInstance_fst, order, List.findSome?_cons, List.findSome?_cons, line, nearest?,
      ownMethod?, definedIn, definedIn, methodsIn, methodsIn]
    cases (w.stateAt i).singletonMethods.find? name with
    | some m => rfl
    | none => cases (w.stateAt i).methods.find? name <;> rfl

theorem Sound.nearest?_eq (hw : w.Sound) (x : Receiver) (name : String) :
    w.nearest? x name = (w.order (.ofReceiver x)).findSome? (w.definedIn name) := by
  rw [← hw.lookUp_fst]
  cases x with
  | ofInstance i => exact hw.seek_fst (.ofInstance i) name
  | ofClass k => exact hw.seek_fst (.ofClass .classSide k) name

theorem Rooted.nodup_order (hw : w.Rooted) (x : Seeker) : (w.order x).Nodup := by
  have line : ∀ side k, ((w.lineage k).map (Place.ofClass side)).Nodup := by
    intro side k
    refine List.Pairwise.map _ ?_ (hw.chain k).nodup
    intro a b hne he
    exact hne (Place.ofClass.inj he).2
  cases x with
  | ofInstance i => simp [order, line]
  | ofClass side k => exact line side k

/-- Only an instance itself looks into its places. -/
theorem ofInstance_of_mem_order {x : Seeker} {p : Place} {i : InstanceId} (h : p ∈ w.order x)
    (hp : p.holder = .ofInstance i) : x = .ofInstance i := by
  cases x with
  | ofInstance j =>
    simp only [order, List.mem_cons, List.mem_map] at h
    obtain rfl | rfl | ⟨a, _, rfl⟩ := h
    · exact congrArg _ (Receiver.ofInstance.inj hp)
    · exact congrArg _ (Receiver.ofInstance.inj hp)
    · contradiction
  | ofClass side k =>
    obtain ⟨a, _, rfl⟩ := List.mem_map.mp h
    contradiction

/-- Only a class that looks up class methods looks into the tables of these. -/
theorem classSide_of_mem_order {x : Seeker} {k : ClassId}
    (h : Place.ofClass .classSide k ∈ w.order x) : ∃ c, x = .ofClass .classSide c := by
  cases x with
  | ofInstance i => simp [order] at h
  | ofClass side c =>
    obtain ⟨a, _, ha⟩ := List.mem_map.mp h
    obtain rfl := (Place.ofClass.inj ha).1
    exact ⟨c, rfl⟩

/-- When one place has another definition, that one counts if no place before it
has any. -/
theorem findSome?_of_changed {α β : Type} [DecidableEq α] {f g : α → Option β} {l : List α} {a : α}
    (hl : l.Nodup) (same : ∀ b, b ≠ a → g b = f b) :
    l.findSome? g =
      if a ∈ l ∧ ∀ b ∈ l.takeWhile (· ≠ a), f b = none then
        (g a).or (((l.dropWhile (· ≠ a)).drop 1).findSome? f)
      else l.findSome? f := by
  have elsewhere : ∀ m : List α, a ∉ m → m.findSome? g = m.findSome? f := by
    intro m hm
    rw [← List.head?_filterMap, ← List.head?_filterMap]
    congr 1
    refine List.filterMap_congr fun b hb => same b ?_
    rintro rfl
    exact hm hb
  induction l with
  | nil => simp
  | cons b l ih =>
    obtain ⟨hb, hl⟩ := List.nodup_cons.mp hl
    by_cases hba : b = a
    · subst hba
      rw [if_pos (by simp), List.dropWhile_cons_of_neg (by simp), List.findSome?_cons,
        elsewhere l hb]
      cases g b <;> rfl
    · have hab : a ≠ b := Ne.symm hba
      rw [List.findSome?_cons, List.findSome?_cons, same b hba, ih hl]
      cases hf : f b with
      | some d => simp [hba, hf]
      | none => simp [hba, hab, hf]

/-- One place has another method under one name, and the order of places is the
same. -/
structure Edited (e : Edit Code) (w v : World Code σ) : Prop where
  order : v.order = w.order
  methodsIn : ∀ p name, (v.methodsIn p).find? name =
    if p = e.place ∧ name = e.name then e.method else (w.methodsIn p).find? name

theorem lineage_of_parentOf (hw : w.Rooted) (h : v.parentOf = w.parentOf) : v.lineage = w.lineage := by
  funext k
  refine lineage_eq ((hw.chain k).congr fun a _ => ?_)
  rw [h]

theorem order_congr (hw : w.Rooted) (hp : v.parentOf = w.parentOf)
    (hc : ∀ i, (v.instanceAt i).classId = (w.instanceAt i).classId) : v.order = w.order := by
  funext x
  cases x with
  | ofInstance i => rw [order, lineage_of_parentOf hw hp, hc, order]
  | ofClass side k => rw [order, lineage_of_parentOf hw hp, order]

theorem edited_class {k : ClassId} {side : Side} {name : String} {method : Option (Method Code)}
    {f : ClassRecord Code → ClassRecord Code} (hw : w.Sound) (hk : w.Has (.ofClass k))
    (hp : ∀ c, (f c).parent = c.parent)
    (hf : ∀ c s n, ((f c).table s).find? n =
      if s = side ∧ n = name then method else (c.table s).find? n) :
    Edited ⟨.ofClass side k, name, method⟩ w ((w.modifyClass k f).stampClass k) where
  order := by
    refine order_congr hw.rooted ?_ fun _ => rfl
    rw [parentOf_stampClass]
    exact funext fun a => classAt_modifyClass_congr (·.parent) hp k a
  methodsIn p n := by
    cases p with
    | singleton i => exact (if_neg (by simp)).symm
    | own i => exact (if_neg (by simp)).symm
    | ofClass s a =>
      by_cases ha : a = k
      · subst ha
        have table : (((w.modifyClass a f).stampClass a).classAt a).table s =
            (f (w.classAt a)).table s := by
          rw [classAt_edited_self hk]
          cases s <;> rfl
        rw [methodsIn, table, hf]
        simp [methodsIn]
      · rw [methodsIn, classAt_edited_of_ne ha]
        exact (if_neg (by simp [ha])).symm

theorem edited_state {i : InstanceId} {p : Place} {name : String} {method : Option (Method Code)}
    {f : ObjectState Code → ObjectState Code} (hw : w.Sound) (hi : w.Has (.ofInstance i))
    (hp : p.holder = .ofInstance i)
    (hown : ∀ s n, (f s).methods.find? n =
      if Place.own i = p ∧ n = name then method else s.methods.find? n)
    (hsingleton : ∀ s n, (f s).singletonMethods.find? n =
      if Place.singleton i = p ∧ n = name then method else s.singletonMethods.find? n) :
    Edited ⟨p, name, method⟩ w ((w.modifyState i f).stampInstance i) where
  order := by
    refine order_congr hw.rooted rfl fun j => ?_
    rw [stampInstance_eq]
    exact (classId_modifyState _ i j).trans (classId_modifyState f i j)
  methodsIn q n := by
    have hself := stateAt_edited_self hi f
    have hother : ∀ j, j ≠ i → ((w.modifyState i f).stampInstance i).stateAt j = w.stateAt j := by
      intro j hj
      rw [stateAt, instanceAt_edited_of_ne hj, stateAt]
    have away : ∀ j, j ≠ i → ∀ q : Place, q.holder = .ofInstance j → q ≠ p := by
      rintro j hj q hq rfl
      exact hj (Receiver.ofInstance.inj (hq.symm.trans hp))
    cases q with
    | singleton j =>
      by_cases hj : j = i
      · subst hj
        rw [methodsIn, hself]
        exact hsingleton _ n
      · rw [methodsIn, hother j hj]
        exact (if_neg fun h => away j hj _ rfl h.1).symm
    | own j =>
      by_cases hj : j = i
      · subst hj
        rw [methodsIn, hself]
        exact hown _ n
      · rw [methodsIn, hother j hj]
        exact (if_neg fun h => away j hj _ rfl h.1).symm
    | ofClass s k =>
      have hk : Place.ofClass s k ≠ p := by
        rintro rfl
        contradiction
      exact (if_neg fun h => hk h.1).symm

/-- A change of the methods on the instance side of a receiver's own level. -/
theorem edited_modifyMethods {on : Receiver} {name : String} {method : Option (Method Code)}
    {f : MethodDictionary Code → MethodDictionary Code} (hw : w.Sound) (ho : w.Has on)
    (hf : ∀ t n, (f t).find? n = if n = name then method else Table.find? t n) :
    Edited ⟨.ofReceiver on, name, method⟩ w ((w.modifyMethods on f).stamp on) := by
  cases on with
  | ofInstance i =>
    refine edited_state hw ho rfl (fun s n => ?_) fun s n => (if_neg (by simp [Place.ofReceiver])).symm
    simp [Place.ofReceiver, hf]
  | ofClass k =>
    refine edited_class hw ho (fun _ => rfl) fun c s n => ?_
    cases s with
    | instanceSide => simp [ClassRecord.table, hf]
    | classSide => exact (if_neg (by simp)).symm

theorem edited_apply {op : Operation Code σ} {e : Edit Code} (hw : w.Sound)
    (h : op.edit? w = some e) (ho : w.Has e.place.holder) : Edited e w (op.apply w).2 := by
  have define : ∀ on name (m : Method Code), w.Has on →
      Edited ⟨.ofReceiver on, name, some (m.named name .instanceSide)⟩ w (w.defineMethod on name m) :=
    fun on name m ho => edited_modifyMethods hw ho fun t n => Table.find?_insert t name n _
  have holder : ∀ on, (Place.ofReceiver on).holder = on := by
    intro on
    cases on <;> rfl
  cases op with
  | defineMethod on name m =>
    obtain rfl := Option.some.inj h
    rw [holder] at ho
    exact define on name m ho
  | defineClassMethod k name m =>
    obtain rfl := Option.some.inj h
    refine edited_class hw ho (fun _ => rfl) fun c s n => ?_
    cases s with
    | instanceSide => exact (if_neg (by simp)).symm
    | classSide =>
      refine (Table.find?_insert c.classMethods name n (m.named name .classSide)).trans ?_
      simp [ClassRecord.table]
  | defineSingleton i name m =>
    obtain rfl := Option.some.inj h
    refine edited_state hw ho rfl (fun s n => (if_neg (by simp)).symm) fun s n => ?_
    refine (Table.find?_insert s.singletonMethods name n (m.named name .instanceSide)).trans ?_
    simp
  | defineFromValue k name v =>
    obtain ⟨m, hm, rfl⟩ := Option.map_eq_some_iff.mp h
    have applied : (Operation.defineFromValue k name v).apply w =
        (.ok (), w.defineMethod (.ofClass k) name m) := by
      simp only [Operation.apply, defineFromValue, hm]
    rw [applied]
    exact define (.ofClass k) name m ho
  | removeMethod on name =>
    obtain ⟨hc, he⟩ := Option.ite_none_right_eq_some.mp h
    obtain rfl := Option.some.inj he
    rw [holder] at ho
    simp only [Operation.apply, removeMethod, hc, if_true]
    exact edited_modifyMethods hw ho fun t n => Table.find?_erase t name n
  | _ => contradiction

theorem Edited.definedIn {e : Edit Code} (h : Edited e w v) (name : String) (p : Place) :
    v.definedIn name p =
      if p = e.place ∧ name = e.name then e.method.map (⟨·, e.place.level⟩)
      else w.definedIn name p := by
  rw [World.definedIn, h.methodsIn]
  split
  · next he => rw [he.1]
  · rfl

/-- What seekers find after an edit. -/
theorem Edited.findSome? {e : Edit Code} (h : Edited e w v) (hw : w.Rooted) (x : Seeker)
    (name : String) :
    (v.order x).findSome? (v.definedIn name) =
      if name = e.name ∧ w.Exposes x e.place name then
        (e.method.map (⟨·, e.place.level⟩)).or (w.beyond x e.place name)
      else (w.order x).findSome? (w.definedIn name) := by
  rw [h.order]
  by_cases hn : name = e.name
  · have here : v.definedIn name e.place = e.method.map (⟨·, e.place.level⟩) := by
      rw [h.definedIn, if_pos ⟨rfl, hn⟩]
    have elsewhere : ∀ p, p ≠ e.place → v.definedIn name p = w.definedIn name p := by
      intro p hp
      rw [h.definedIn, if_neg fun he => hp he.1]
    rw [findSome?_of_changed (hw.nodup_order x) elsewhere, here]
    simp only [Exposes, hn, true_and, beyond]
  · have same : v.definedIn name = w.definedIn name := by
      funext p
      rw [h.definedIn, if_neg fun he => hn he.2]
    rw [same, if_neg fun he => hn he.1]

/-- Wherever a run has got: an operation that puts a method into a place, or takes
one out, changes a lookup exactly if it is for that name and comes to the place
before it has found anything. It then finds the new method, on the level of the
place, or after a removal what is defined beyond. In particular a change of an
instance shows to that instance only, a change of class methods to no lookup
for instances, and a change of instance methods to no lookup of class methods. -/
theorem definitions_show_where_exposed (h : σ) (past : List (Step Code σ)) (op : Operation Code σ)
    (e : Edit Code) :
    let w := (initial h).after past
    let v := (op.apply w).2
    op.edit? w = some e → w.Has e.place.holder →
      (∀ x name, (v.seek x name).1 =
        if name = e.name ∧ w.Exposes x e.place name then
          (e.method.map (⟨·, e.place.level⟩)).or (w.beyond x e.place name)
        else (w.seek x name).1) ∧
      (∀ i, e.place.holder = .ofInstance i → ∀ x, x ≠ .ofInstance i →
        ∀ name, (v.seek x name).1 = (w.seek x name).1) ∧
      (∀ k, e.place = .ofClass .classSide k → ∀ x, (∀ c, x ≠ .ofClass .classSide c) →
        ∀ name, (v.seek x name).1 = (w.seek x name).1) ∧
      ((∀ k, e.place ≠ .ofClass .classSide k) → ∀ c name,
        (v.seek (.ofClass .classSide c) name).1 = (w.seek (.ofClass .classSide c) name).1) := by
  intro w v hop ho
  have hw : w.Sound := sound_after h past
  have hv : v.Sound := hw.next (.perform op)
  have edited : Edited e w v := edited_apply hw hop ho
  have shows : ∀ x name, (v.seek x name).1 =
      if name = e.name ∧ w.Exposes x e.place name then
        (e.method.map (⟨·, e.place.level⟩)).or (w.beyond x e.place name)
      else (w.seek x name).1 := by
    intro x name
    rw [hv.seek_fst, hw.seek_fst]
    exact edited.findSome? hw.rooted x name
  have apart : ∀ x, e.place ∉ w.order x → ∀ name, (v.seek x name).1 = (w.seek x name).1 := by
    intro x hx name
    rw [shows, if_neg fun he => hx he.2.1]
  refine ⟨shows, fun i hi x hx => apart x ?_, fun k hk x hx => apart x ?_, fun hk c => apart _ ?_⟩
  · intro hm
    exact hx (ofInstance_of_mem_order hm hi)
  · intro hm
    rw [hk] at hm
    obtain ⟨c, rfl⟩ := classSide_of_mem_order hm
    exact hx c rfl
  · intro hm
    obtain ⟨a, _, ha⟩ := List.mem_map.mp hm
    exact hk a ha.symm

/-- A definition on a class hides the one of its parent, which an instance has
found and remembered, and is not seen by the parent. -/
theorem definition_shows_below_parent :
    let past : List (Step Unit Unit) :=
      [.perform (.newClass "A" {}), .perform (.newClass "B" {}), .perform (.inherit ⟨2⟩ ⟨1⟩),
        .perform (.instantiate ⟨2⟩), .perform (.defineMethod (.ofClass ⟨1⟩) "f" (.reader "f")),
        .lookUp (.ofInstance ⟨1⟩) "f"]
    let w := (initial ()).after past
    let v := w.defineMethod (.ofClass ⟨2⟩) "f" (.reader "g")
    (w.seek (.ofInstance ⟨1⟩) "f").1 = some ⟨(Method.reader "f").named "f" .instanceSide, .ofClass ⟨1⟩⟩ ∧
      (v.seek (.ofInstance ⟨1⟩) "f").1 =
        some ⟨(Method.reader "g").named "f" .instanceSide, .ofClass ⟨2⟩⟩ ∧
      (v.seek (.ofClass .instanceSide ⟨1⟩) "f").1 = (w.seek (.ofClass .instanceSide ⟨1⟩) "f").1 := by
  intro past w v
  have shows := (definitions_show_where_exposed () past
    (.defineMethod (.ofClass ⟨2⟩) "f" (.reader "g")) _ rfl rfl).1
  have seen : w.Exposes (.ofInstance ⟨1⟩) (.ofClass .instanceSide ⟨2⟩) "f" := by decide +kernel
  have unseen : ¬ w.Exposes (.ofClass .instanceSide ⟨1⟩) (.ofClass .instanceSide ⟨2⟩) "f" := by
    decide +kernel
  refine ⟨by decide +kernel, ?_, ?_⟩
  · exact (shows (.ofInstance ⟨1⟩) "f").trans (if_pos ⟨rfl, seen⟩)
  · exact (shows (.ofClass .instanceSide ⟨1⟩) "f").trans (if_neg fun h => unseen h.2)

end World
end ObjectModel
