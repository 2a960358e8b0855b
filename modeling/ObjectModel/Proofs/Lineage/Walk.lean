import ObjectModel.Proofs.Lineage.Chain
import ObjectModel.World.Lookup
import Mathlib.Data.List.Fold

/-!
# Walks up the parent links

A walk visits a class, then its parent, then the parent of that, until a visit
ends it or there is no parent. Along a complete path of parent links every walk
comes to an end, and all that is read along a lineage is what such a walk comes
to.
-/
namespace ObjectModel
variable {α β : Type} {parent : ClassId → Option ClassId}

/-- What a walk comes to. A visit sees what has been gathered so far, and either
ends the walk with an answer of its own, which stands as the error, or hands what
is gathered then on to the parent. -/
inductive Walk (parent : ClassId → Option ClassId) (visit : α → ClassId → Except β α) :
    α → ClassId → Except β α → Prop
  | stop {a : α} {b : β} {k : ClassId} (h : visit a k = .error b) : Walk parent visit a k (.error b)
  | top {a a' : α} {k : ClassId} (h : visit a k = .ok a') (hp : parent k = none) :
      Walk parent visit a k (.ok a')
  | up {a a' : α} {k p : ClassId} {r : Except β α} (h : visit a k = .ok a')
      (hp : parent k = some p) (above : Walk parent visit a' p r) : Walk parent visit a k r

namespace Walk
variable {visit : α → ClassId → Except β α} {a : α} {k : ClassId}

/-- A walk comes to one outcome only. -/
theorem unique {r r' : Except β α} (h : Walk parent visit a k r) (h' : Walk parent visit a k r') :
    r = r' := by
  induction h with
  | stop hv =>
    cases h' with
    | stop hv' => rw [← hv, hv']
    | top hv' _ => simp [hv] at hv'
    | up hv' _ _ => simp [hv] at hv'
  | top hv hp =>
    cases h' with
    | stop hv' => simp [hv] at hv'
    | top hv' _ => rw [← hv, hv']
    | up _ hp' _ => simp [hp] at hp'
  | up hv hp _ ih =>
    cases h' with
    | stop hv' => simp [hv] at hv'
    | top _ hp' => simp [hp] at hp'
    | up hv' hp' above' =>
      obtain rfl := Except.ok.inj (hv.symm.trans hv')
      obtain rfl := Option.some.inj (hp.symm.trans hp')
      exact ih above'

end Walk

/-- Along a complete path a walk comes to an end, whatever its visits do. -/
theorem Chain.walk {k : ClassId} {l : List ClassId} (hl : Chain parent k l)
    (visit : α → ClassId → Except β α) (a : α) : Walk parent visit a k (l.foldlM visit a) := by
  induction hl generalizing a with
  | root hp =>
    rw [List.foldlM_cons]
    cases hv : visit a _ with
    | error b => exact .stop hv
    | ok a' => exact .top hv hp
  | link hp _ ih =>
    rw [List.foldlM_cons]
    cases hv : visit a _ with
    | error b => exact .stop hv
    | ok a' => exact .up hv hp (ih a')

namespace World
variable {Code σ : Type} {w : World Code σ} {k : ClassId}

/-- An answer ends a walk; without one it goes on. -/
def untilSome : Option β → Except β Unit
  | some b => .error b
  | none => .ok ()

/-- What the walk to the first class with an answer comes to. -/
def Seeks (w : World Code σ) (answer : ClassId → Option β) (k : ClassId) (r : Option β) : Prop :=
  Walk w.parentOf (fun _ a => untilSome (answer a)) () k (untilSome r)

/-- What a walk through all classes comes to, which takes something from each. -/
def Gathers (w : World Code σ) (take : α → ClassId → α) (start : α) (k : ClassId) (r : α) : Prop :=
  Walk (β := Empty) w.parentOf (fun a k => .ok (take a k)) start k (.ok r)

theorem foldlM_untilSome (answer : ClassId → Option β) (l : List ClassId) :
    l.foldlM (fun _ a => untilSome (answer a)) () = untilSome (l.findSome? answer) := by
  induction l with
  | nil => rfl
  | cons a l ih =>
    rw [List.foldlM_cons, List.findSome?_cons]
    cases answer a with
    | some b => rfl
    | none => exact ih

theorem foldlM_ok (take : α → ClassId → α) (l : List ClassId) (start : α) :
    l.foldlM (fun a k => (.ok (take a k) : Except Empty α)) start = .ok (l.foldl take start) := by
  induction l generalizing start with
  | nil => rfl
  | cons a l ih => exact ih (take start a)

theorem Rooted.seeks (hw : w.Rooted) (answer : ClassId → Option β) (k : ClassId) :
    w.Seeks answer k ((w.lineage k).findSome? answer) := by
  have walk := (hw.chain k).walk (fun _ a => untilSome (answer a)) ()
  rwa [foldlM_untilSome] at walk

theorem Rooted.gathers (hw : w.Rooted) (take : α → ClassId → α) (start : α) (k : ClassId) :
    w.Gathers take start k ((w.lineage k).foldl take start) := by
  have walk := (hw.chain k).walk (β := Empty) (fun a k => .ok (take a k)) start
  rwa [foldlM_ok] at walk

/-- Everything that is read along the lineage of a class is what a walk from that
class comes to. -/
structure ReadByWalks (w : World Code σ) (k : ClassId) : Prop where
  lineage : w.Gathers (fun l a => l ++ [a]) [] k (w.lineage k)
  descendsFrom : ∀ other, w.Seeks (fun a => if a = other then some () else none) k
    (if w.descendsFrom k other then some () else none)
  lineageStamp : w.Gathers (fun s a => max s (w.classAt a).version) 0 k (w.lineageStamp k)
  definition : ∀ side name, w.Seeks
    (fun a => (((w.classAt a).table side).find? name).map fun m => (⟨m, .ofClass a⟩ : Definition Code))
    k (w.definition? side k name)
  lineageAlias : ∀ name, w.Seeks (fun a => (w.classAt a).aliases.find? name) k (w.lineageAlias? k name)
  beforeHooks : ∀ name, w.Gathers (fun l a => l ++ (w.classAt a).hooks.beforeOf name) [] k
    (w.beforeHooks (.ofClass k) name)
  afterHooks : ∀ name, w.Gathers (fun l a => l ++ (w.classAt a).hooks.afterOf name) [] k
    (w.afterHooks (.ofClass k) name)
  lineageHandler : w.Seeks
    (fun a => if (w.classAt a).flags.hasHandler then (w.classAt a).handler else none) k
    (w.lineageHandler? k)
  /-- The class that a super call goes on from. -/
  parentWithin : ∀ above, ∃ found, w.Seeks (fun a => if a = above then some a else none) k found ∧
    w.parentWithin? k above = found.bind w.parentOf

theorem findSome?_ite_eq (l : List ClassId) (other : ClassId) (f : ClassId → β) :
    (l.findSome? fun a => if a = other then some (f a) else none) =
      if l.contains other then some (f other) else none := by
  induction l with
  | nil => rfl
  | cons a l ih =>
    rw [List.findSome?_cons]
    by_cases ha : a = other
    · simp [ha]
    · have hne : (other == a) = false := by simpa using Ne.symm ha
      rw [if_neg ha, List.contains_cons, hne, Bool.false_or]
      exact ih

theorem foldl_append_eq_flatMap {γ : Type} (f : ClassId → List γ) (l : List ClassId) :
    l.foldl (fun t a => t ++ f a) [] = l.flatMap f := by
  have general : ∀ start, l.foldl (fun t a => t ++ f a) start = start ++ l.flatMap f := by
    induction l with
    | nil => simp
    | cons a l ih => simp [ih]
  exact general []

theorem foldl_max_eq (f : ClassId → Nat) (l : List ClassId) :
    l.foldl (fun s a => max s (f a)) 0 = (l.map f).foldr max 0 := by
  rw [← List.foldl_map, List.foldl_eq_foldr]

/-- When lineages end, they are read by walks. -/
theorem Rooted.readByWalks (hw : w.Rooted) (k : ClassId) : w.ReadByWalks k where
  lineage := by
    have walk := hw.gathers (fun l a => l ++ [a]) [] k
    rwa [foldl_append_eq_flatMap, List.flatMap_singleton'] at walk
  descendsFrom other := by
    have walk := hw.seeks (fun a => if a = other then some () else none) k
    rwa [findSome?_ite_eq] at walk
  lineageStamp := by
    have walk := hw.gathers (fun s a => max s (w.classAt a).version) 0 k
    rwa [foldl_max_eq] at walk
  definition side name := hw.seeks _ k
  lineageAlias name := hw.seeks _ k
  beforeHooks name := by
    have walk := hw.gathers (fun l a => l ++ (w.classAt a).hooks.beforeOf name) [] k
    rw [foldl_append_eq_flatMap] at walk
    rwa [World.beforeHooks, hookLevels, List.flatMap_map]
  afterHooks name := by
    have walk := hw.gathers (fun l a => l ++ (w.classAt a).hooks.afterOf name) [] k
    rw [foldl_append_eq_flatMap] at walk
    rwa [World.afterHooks, hookLevels, List.flatMap_map]
  lineageHandler := hw.seeks _ k
  parentWithin above := by
    refine ⟨_, hw.seeks (fun a => if a = above then some a else none) k, ?_⟩
    rw [findSome?_ite_eq _ above fun a => a, parentWithin?, descendsFrom]
    split <;> rfl

end World
end ObjectModel
