import ObjectModel.Proofs.Lineage.Walk
import ObjectModel.Proofs.Program.Step
import Mathlib.Logic.Relation

/-!
# The forest of classes

Wherever a run has got, parent links lead from every class to a root, and no
class is met twice on the way. A class can be moved below every class that does
not descend from it, and below no other. It takes with it all that descends from
it, and nothing else moves.
-/
namespace ObjectModel

namespace Chain
variable {parent : ClassId → Option ClassId} {k p : ClassId} {l m : List ClassId}

open Relation (ReflTransGen)

theorem head?_eq (hl : Chain parent k l) : l.head? = some k := by
  cases hl <;> rfl

/-- No class is its own parent. -/
theorem parent_ne (hl : Chain parent k l) : parent k ≠ some k := by
  intro hk
  cases hl with
  | root h =>
    rw [h] at hk
    contradiction
  | link h above =>
    have hnodup := (Chain.link h above).nodup
    rw [h] at hk
    obtain rfl := Option.some.inj hk
    exact (List.nodup_cons.mp hnodup).1 above.head_mem

/-- On a path are the classes that parent links lead to. -/
theorem mem_iff (hl : Chain parent k l) :
    p ∈ l ↔ ReflTransGen (fun a b => parent a = some b) k p := by
  constructor
  · intro hp
    induction hl with
    | root _ =>
      obtain rfl := List.mem_singleton.mp hp
      exact .refl
    | link h _ ih =>
      rcases List.mem_cons.mp hp with rfl | hp
      · exact .refl
      · exact .head h (ih hp)
  · intro run
    induction run using ReflTransGen.head_induction_on generalizing l with
    | refl => exact hl.head_mem
    | head h _ ih =>
      cases hl with
      | root h' =>
        rw [h] at h'
        contradiction
      | link h' above =>
        rw [h] at h'
        obtain rfl := Option.some.inj h'
        exact List.mem_cons_of_mem _ (ih above)

/-- The path from a class that is met on the way is an end of the whole path. -/
theorem isSuffix_of_mem (hl : Chain parent k l) (hm : Chain parent p m) (hp : p ∈ l) : m <:+ l := by
  obtain ⟨before, after, rfl, hafter⟩ := hl.continues hp
  obtain rfl := hm.unique hafter
  exact List.suffix_append before m

/-- Of two classes only one can be above the other. -/
theorem antisymm (hl : Chain parent k l) (hm : Chain parent p m) (hp : p ∈ l) (hk : k ∈ m) :
    k = p := by
  have hml := hl.isSuffix_of_mem hm hp
  have hlm := hm.isSuffix_of_mem hl hk
  obtain rfl := hml.eq_of_length (Nat.le_antisymm hml.length_le hlm.length_le)
  have heads : some k = some p := hl.head?_eq.symm.trans hm.head?_eq
  exact Option.some.inj heads

end Chain

namespace World
variable {Code σ : Type} {w v : World Code σ} {child parent k : ClassId}

open Relation (ReflTransGen)

/-- The classes form a forest, and their lineages are the paths in it. -/
structure Forest (w : World Code σ) : Prop where
  path : ∀ k, Chain w.parentOf k (w.lineage k)
  reads : ∀ k, w.ReadByWalks k
  head : ∀ k, (w.lineage k).head? = some k
  nodup : ∀ k, (w.lineage k).Nodup
  mem : ∀ k p, w.descendsFrom k p = true ↔ p ∈ w.lineage k
  links : ∀ k p, w.descendsFrom k p = true ↔ ReflTransGen (fun a b => w.parentOf a = some b) k p
  refl : ∀ k, w.descendsFrom k k = true
  trans : ∀ k p q, w.descendsFrom k p = true → w.descendsFrom p q = true → w.descendsFrom k q = true
  antisymm : ∀ k p, w.descendsFrom k p = true → w.descendsFrom p k = true → k = p

theorem Rooted.descendsFrom_iff_links (hw : w.Rooted) {k p : ClassId} :
    w.descendsFrom k p = true ↔ ReflTransGen (fun a b => w.parentOf a = some b) k p :=
  descendsFrom_iff.trans (hw.chain k).mem_iff

/-- Where all paths end there is a forest. -/
theorem Rooted.forest (hw : w.Rooted) : w.Forest where
  path := hw.chain
  reads := hw.readByWalks
  head k := (hw.chain k).head?_eq
  nodup k := (hw.chain k).nodup
  mem k p := descendsFrom_iff
  links k p := hw.descendsFrom_iff_links
  refl k := descendsFrom_iff.mpr (hw.chain k).head_mem
  trans k p q := by
    simp only [hw.descendsFrom_iff_links]
    exact ReflTransGen.trans
  antisymm k p hp hk :=
    (hw.chain k).antisymm (hw.chain p) (descendsFrom_iff.mp hp) (descendsFrom_iff.mp hk)

/-- A class has been moved below a parent, and has taken its descendants along. -/
structure Moved (child parent : ClassId) (w v : World Code σ) : Prop where
  itself : v.lineage child = child :: w.lineage parent
  descendant : ∀ k, w.descendsFrom k child = true →
    v.lineage k = (w.lineage k).takeWhile (· ≠ child) ++ v.lineage child
  elsewhere : ∀ k, w.descendsFrom k child = false → v.lineage k = w.lineage k

theorem inherit_eq_error_iff (w : World Code σ) (child parent : ClassId) :
    (w.inherit child parent).1 =
        .error (.inheritanceCycle (w.classAt child).name (w.classAt parent).name) ↔
      w.descendsFrom parent child = true := by
  unfold inherit
  cases w.descendsFrom parent child <;> simp

theorem inherit_of_descendsFrom (hp : w.descendsFrom parent child = true) :
    (w.inherit child parent).2 = w := by
  rw [inherit, if_pos hp]

/-- Moving a class leaves the others alone. -/
theorem classAt_inherit_of_ne (hk : k ≠ child) :
    (w.inherit child parent).2.classAt k = w.classAt k := by
  unfold inherit
  split
  · rfl
  · rw [classAt_stampClass_of_ne hk, classAt_modifyClass_of_ne hk]

theorem Rooted.chain_inherit (hw : w.Rooted) (hc : w.Has (.ofClass child))
    (hp : w.descendsFrom parent child = false) :
    Chain (w.inherit child parent).2.parentOf child (child :: w.lineage parent) := by
  have hm : child ∉ w.lineage parent := by
    rw [← descendsFrom_iff, hp]
    exact Bool.false_ne_true
  rw [inherit, if_neg (by simp [hp])]
  simp only [parentOf_stampClass]
  exact chain_reparent hw hc (fun _ => rfl) hm

theorem Rooted.moved (hw : w.Rooted) (hc : w.Has (.ofClass child))
    (hp : w.descendsFrom parent child = false) : Moved child parent w (w.inherit child parent).2 := by
  have hchild := hw.chain_inherit hc hp
  have same : ∀ a, a ≠ child → (w.inherit child parent).2.parentOf a = w.parentOf a := by
    intro a ha
    rw [parentOf, classAt_inherit_of_ne ha, parentOf]
  -- The paths through the child are redirected to its new path.
  have hpath : ∀ k, (w.inherit child parent).2.lineage k =
      if child ∈ w.lineage k then (w.lineage k).takeWhile (· ≠ child) ++ child :: w.lineage parent
      else w.lineage k := fun k =>
    lineage_eq ((hw.chain k).redirect same hchild)
  refine ⟨lineage_eq hchild, fun k hk => ?_, fun k hk => ?_⟩
  · rw [hpath, if_pos (descendsFrom_iff.mp hk), lineage_eq hchild]
  · rw [hpath, if_neg]
    rw [← descendsFrom_iff, hk]
    exact Bool.false_ne_true

/-- Wherever a run has got, the classes form a forest. A class is refused a parent
exactly when the parent descends from it; every other parent takes it in, with
all that descends from it. -/
theorem classes_form_forest (h : σ) (past : List (Step Code σ)) :
    let w := (initial h).after past
    w.Forest ∧ ∀ child parent,
      ((w.inherit child parent).1 =
          .error (.inheritanceCycle (w.classAt child).name (w.classAt parent).name) ↔
        w.descendsFrom parent child = true) ∧
      (w.descendsFrom parent child = true → (w.inherit child parent).2 = w) ∧
      (w.Has (.ofClass child) → w.descendsFrom parent child = false →
        (w.inherit child parent).1 = .ok () ∧ Moved child parent w (w.inherit child parent).2) := by
  intro w
  have hw : w.Rooted := (sound_after h past).rooted
  refine ⟨hw.forest, fun child parent => ⟨inherit_eq_error_iff w child parent, ?_, ?_⟩⟩
  · exact inherit_of_descendsFrom
  · intro hc hp
    refine ⟨?_, hw.moved hc hp⟩
    rw [inherit, if_neg (by simp [hp])]

/-- An inner class moves to another tree and its child goes along. -/
theorem inner_class_moves :
    let past : List (Step Unit Unit) :=
      [.perform (.newClass "A" {}), .perform (.newClass "B" {}), .perform (.newClass "C" {}),
        .perform (.newClass "D" {}), .perform (.inherit ⟨2⟩ ⟨1⟩), .perform (.inherit ⟨3⟩ ⟨2⟩)]
    let w := (initial ()).after past
    w.lineage ⟨3⟩ = [⟨3⟩, ⟨2⟩, ⟨1⟩] ∧ w.Has (.ofClass ⟨2⟩) ∧ w.descendsFrom ⟨4⟩ ⟨2⟩ = false ∧
      Moved ⟨2⟩ ⟨4⟩ w (w.inherit ⟨2⟩ ⟨4⟩).2 ∧
      (w.inherit ⟨2⟩ ⟨4⟩).2.lineage ⟨3⟩ = [⟨3⟩, ⟨2⟩, ⟨4⟩] ∧ w.descendsFrom ⟨3⟩ ⟨1⟩ = true ∧
      (w.inherit ⟨1⟩ ⟨3⟩).1 = .error (.inheritanceCycle "A" "C") := by
  intro past w
  have hc : w.Has (.ofClass ⟨2⟩) := rfl
  have hp : w.descendsFrom ⟨4⟩ ⟨2⟩ = false := by decide
  have hd : w.descendsFrom ⟨3⟩ ⟨1⟩ = true := by decide
  refine ⟨by decide, hc, hp, ?_, by decide, hd, ?_⟩
  · exact (((classes_form_forest () past).2 ⟨2⟩ ⟨4⟩).2.2 hc hp).2
  · exact ((classes_form_forest () past).2 ⟨1⟩ ⟨3⟩).1.mpr hd

end World
end ObjectModel
