import ObjectModel.Proofs.World.Records
import Mathlib.Data.List.Perm.Subperm

/-!
# Chains of parents

The complete path of parent links from a class to a root. A world is rooted
when every class has such a path. The path is then what `lineage` computes, it
has no class twice, and moving one class under another changes it from that
class on only.
-/
namespace ObjectModel

/-- The complete path of parent links from a class. -/
inductive Chain (parent : ClassId → Option ClassId) : ClassId → List ClassId → Prop
  | root {k : ClassId} (h : parent k = none) : Chain parent k [k]
  | link {k p : ClassId} {l : List ClassId} (h : parent k = some p) (above : Chain parent p l) :
      Chain parent k (k :: l)

namespace Chain
variable {parent parent' : ClassId → Option ClassId} {k : ClassId} {l m : List ClassId}

theorem unique (hl : Chain parent k l) (hm : Chain parent k m) : l = m := by
  induction hl generalizing m with
  | root h =>
    cases hm with
    | root _ => rfl
    | link h' _ =>
      rw [h] at h'
      contradiction
  | link h _ ih =>
    cases hm with
    | root h' =>
      rw [h] at h'
      contradiction
    | link h' above =>
      rw [h] at h'
      obtain rfl := Option.some.inj h'
      rw [ih above]

theorem head_mem (hl : Chain parent k l) : k ∈ l := by
  cases hl <;> exact List.mem_cons_self

/-- Every class on a path continues it. -/
theorem continues {a : ClassId} (hl : Chain parent k l) (ha : a ∈ l) :
    ∃ before after, l = before ++ after ∧ Chain parent a after := by
  induction hl with
  | @root k h =>
    obtain rfl := List.mem_singleton.mp ha
    exact ⟨[], [a], rfl, .root h⟩
  | @link k p l h above ih =>
    rcases List.mem_cons.mp ha with rfl | ha
    · exact ⟨[], a :: l, rfl, .link h above⟩
    · obtain ⟨before, after, rfl, hc⟩ := ih ha
      exact ⟨k :: before, after, rfl, hc⟩

theorem nodup (hl : Chain parent k l) : l.Nodup := by
  induction hl with
  | root _ => exact List.pairwise_singleton _ _
  | @link k p l h above ih =>
    refine List.nodup_cons.mpr ⟨fun hk => ?_, ih⟩
    -- The path from `k` would be a proper part of itself.
    obtain ⟨before, after, rfl, hc⟩ := above.continues hk
    have he := hc.unique (.link h above)
    have hlen := congrArg List.length he
    simp only [List.length_cons, List.length_append] at hlen
    omega

theorem congr (hl : Chain parent k l) (same : ∀ a ∈ l, parent' a = parent a) :
    Chain parent' k l := by
  induction hl with
  | root h => exact .root ((same _ List.mem_cons_self).trans h)
  | link h _ ih =>
    exact .link ((same _ List.mem_cons_self).trans h)
      (ih fun a ha => same a (List.mem_cons_of_mem _ ha))

/-- When only the parent of `o` is another one, a path through `o` follows the
new path from there. -/
theorem redirect {o : ClassId} (hl : Chain parent k l)
    (same : ∀ a, a ≠ o → parent' a = parent a) (ho : Chain parent' o m) :
    Chain parent' k (if o ∈ l then l.takeWhile (· ≠ o) ++ m else l) := by
  induction hl with
  | @root k h =>
    by_cases hk : o = k
    · subst hk
      simpa using ho
    · rw [if_neg (by simpa using hk)]
      exact .root ((same k (Ne.symm hk)).trans h)
  | @link k p l h above ih =>
    by_cases hk : o = k
    · subst hk
      simpa using ho
    · have hp : parent' k = some p := (same k (Ne.symm hk)).trans h
      by_cases hm : o ∈ l
      · rw [if_pos hm] at ih
        rw [if_pos (List.mem_cons_of_mem _ hm), List.takeWhile_cons_of_pos (by simpa using Ne.symm hk)]
        exact .link hp ih
      · rw [if_neg hm] at ih
        rw [if_neg (by simpa [hk] using hm)]
        exact .link hp ih

theorem redirect_mem {o : ClassId} (ho : Chain parent' o m) :
    o ∈ (if o ∈ l then l.takeWhile (· ≠ o) ++ m else l) ↔ o ∈ l := by
  by_cases h : o ∈ l
  · rw [if_pos h]
    exact iff_of_true (List.mem_append_right _ ho.head_mem) h
  · rw [if_neg h]

end Chain

namespace World
variable {Code σ : Type} {w v : World Code σ}

/-- The parent of a class. -/
def parentOf (w : World Code σ) (k : ClassId) : Option ClassId := (w.classAt k).parent

/-- Every path of parent links ends. -/
def Rooted (w : World Code σ) : Prop := ∀ k, ∃ l, Chain w.parentOf k l

theorem climb_eq {k : ClassId} {l : List ClassId} (hl : Chain w.parentOf k l) :
    ∀ steps, l.length ≤ steps + 1 → w.climb steps k = l := by
  induction hl with
  | root h =>
    intro steps _
    cases steps with
    | zero => rfl
    | succ steps =>
      have h' : (w.classAt _).parent = none := h
      rw [climb, h']
  | @link k p l h above ih =>
    intro steps hlen
    have hl := List.length_pos_of_mem above.head_mem
    cases steps with
    | zero =>
      rw [List.length_cons] at hlen
      omega
    | succ steps =>
      have h' : (w.classAt k).parent = some p := h
      rw [climb, h']
      exact congrArg (k :: ·) (ih steps (Nat.le_of_succ_le_succ hlen))

theorem has_of_parentOf {k p : ClassId} (h : w.parentOf k = some p) : w.Has (.ofClass k) := by
  by_contra hn
  rw [parentOf, classAt_of_not_has hn] at h
  contradiction

/-- Every class on a path but the last one has a record. -/
theorem has_of_mem_dropLast {k a : ClassId} {l : List ClassId} (hl : Chain w.parentOf k l)
    (ha : a ∈ l.dropLast) : w.Has (.ofClass a) := by
  induction hl with
  | root _ => simp at ha
  | link h above ih =>
    rw [List.dropLast_cons_of_ne_nil (List.ne_nil_of_mem above.head_mem)] at ha
    rcases List.mem_cons.mp ha with rfl | ha
    · exact has_of_parentOf h
    · exact ih ha

/-- A path has at most one class more than there are records. -/
theorem length_le_of_chain {k : ClassId} {l : List ClassId} (hl : Chain w.parentOf k l) :
    l.length ≤ w.classes.size + 1 := by
  have hnodup : (l.dropLast.map (·.number)).Nodup := by
    refine List.Pairwise.map _ ?_ (hl.nodup.sublist (List.dropLast_sublist l))
    intro a b hne he
    cases a
    cases b
    exact hne (congrArg ClassId.mk he)
  have hsub : l.dropLast.map (·.number) ⊆ List.range' 1 w.classes.size := by
    intro n hn
    obtain ⟨a, ha, rfl⟩ := List.mem_map.mp hn
    obtain ⟨hlow, hhigh⟩ := has_ofClass_iff.mp (has_of_mem_dropLast hl ha)
    exact List.mem_range'_1.mpr ⟨hlow, by omega⟩
  have hlen := (hnodup.subperm hsub).length_le
  rw [List.length_map, List.length_dropLast, List.length_range'] at hlen
  omega

theorem lineage_eq {k : ClassId} {l : List ClassId} (hl : Chain w.parentOf k l) :
    w.lineage k = l :=
  climb_eq hl _ (length_le_of_chain hl)

theorem Rooted.chain (hw : w.Rooted) (k : ClassId) : Chain w.parentOf k (w.lineage k) := by
  obtain ⟨l, hl⟩ := hw k
  rwa [lineage_eq hl]

theorem Rooted.congr (hw : w.Rooted) (same : v.parentOf = w.parentOf) : v.Rooted := by
  intro k
  rw [same]
  exact hw k

theorem descendsFrom_iff {k other : ClassId} : w.descendsFrom k other = true ↔ other ∈ w.lineage k := by
  rw [descendsFrom, List.contains_iff_mem]

end World
end ObjectModel
