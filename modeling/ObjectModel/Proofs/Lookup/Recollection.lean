import ObjectModel.Proofs.Lookup.Validity

/-!
# What a cache recalls

A cache is filled, consulted, made to forget and reset in any order, and under stamps in
any order. What it answers and what it has counted are read off the list of these acts,
the latest first: it recalls the latest findings that it was given under the greatest stamp
so far, unless it was made to forget them. Forgetting leaves the stamp as it is, and a
reset does not.
-/
namespace ObjectModel

namespace Table
variable {α : Type} {name : String} {value : α} {entries : List (String × α)}

theorem nodup_putIn (h : (entries.map (·.1)).Nodup) (name : String) (value : α) :
    ((putIn name value entries).map (·.1)).Nodup := by
  induction entries with
  | nil => simp [putIn]
  | cons e rest ih =>
    obtain ⟨first, old⟩ := e
    obtain ⟨fresh, hrest⟩ := List.nodup_cons.mp h
    unfold putIn
    split
    · next he =>
      subst he
      exact h
    · next hne =>
      refine List.nodup_cons.mpr ⟨fun hmem => fresh ?_, ih hrest⟩
      rw [← findIn_isSome, findIn_putIn, if_neg hne] at hmem
      exact findIn_isSome.mp hmem

theorem mem_iff_findIn (h : (entries.map (·.1)).Nodup) :
    (name, value) ∈ entries ↔ findIn name entries = some value := by
  induction entries with
  | nil => simp [findIn]
  | cons e rest ih =>
    obtain ⟨first, old⟩ := e
    obtain ⟨fresh, hrest⟩ := List.nodup_cons.mp h
    unfold findIn
    split
    · next he =>
      subst he
      have absent : (first, value) ∉ rest := fun hmem =>
        fresh (List.mem_map_of_mem (f := (·.1)) hmem)
      simp [absent, eq_comm]
    · next hne => simp [ih hrest, Ne.symm hne]

theorem not_isEmpty_insert (t : Table α) (name : String) (value : α) :
    (t.insert name value).isEmpty = false := by
  rw [← Bool.not_eq_true, isEmpty_iff]
  intro he
  have hfind := t.find?_insert_self name value
  rw [he] at hfind
  contradiction

end Table

/-- What is done to a cache. -/
inductive CacheAct (Code : Type) where
  | remember (name : String) (stamp : Nat) (r : Finding Code)
  | consult (name : String) (stamp : Nat)
  | forget
  | reset
  deriving DecidableEq

namespace CacheAct
variable {Code : Type}

/-- The cache after an act. -/
def next (c : LookupCache Code) : CacheAct Code → LookupCache Code
  | remember name stamp r => c.remember name stamp r
  | consult name stamp => (c.consult name stamp).2
  | forget => c.forget
  | reset => c.reset

/-- What a consultation of a cache answers. -/
def answer? (c : LookupCache Code) : CacheAct Code → Option (Option (Finding Code))
  | consult name stamp => some (c.consult name stamp).1
  | _ => none

/-- The stamp under which an act brings a finding. -/
def stamp? : CacheAct Code → Option Nat
  | remember _ stamp _ => some stamp
  | _ => none

/-- The finding that an act brings for a name under a stamp. -/
def finding? (name : String) (stamp : Nat) : CacheAct Code → Option (Finding Code)
  | remember other s r => if other = name ∧ s = stamp then some r else none
  | _ => none

def isReset : CacheAct Code → Bool
  | reset => true
  | _ => false

/-- Whether an act drops every entry, whatever its stamp. -/
def empties : CacheAct Code → Bool
  | forget | reset => true
  | _ => false

end CacheAct

namespace LookupCache
variable {Code : Type} {c : LookupCache Code} {past : List (CacheAct Code)} {name : String}
  {stamp : Nat}

/-- A new cache after acts, of which the latest stands first. -/
def ofPast : List (CacheAct Code) → LookupCache Code
  | [] => {}
  | a :: past => a.next (ofPast past)

/-- The stamps under which findings were brought since the last reset. -/
def stampsOf (past : List (CacheAct Code)) : List Nat :=
  (past.takeWhile fun a => !a.isReset).filterMap CacheAct.stamp?

/-- The findings that were brought for a name under a stamp since the last time that all
entries were dropped by request, the latest first. -/
def findingsOf (past : List (CacheAct Code)) (name : String) (stamp : Nat) :
    List (Finding Code) :=
  (past.takeWhile fun a => !a.empties).filterMap (CacheAct.finding? name stamp)

/-- The answers to consultations since the last reset, the latest first. -/
def answersOf : List (CacheAct Code) → List (Option (Finding Code))
  | [] => []
  | a :: past =>
    if a.isReset then [] else (a.answer? (ofPast past)).toList ++ answersOf past

@[simp] theorem stampsOf_remember (r : Finding Code) :
    stampsOf (.remember name stamp r :: past) = stamp :: stampsOf past := rfl

@[simp] theorem findingsOf_remember (other : String) (s : Nat) (r : Finding Code) :
    findingsOf (.remember other s r :: past) name stamp =
      if other = name ∧ s = stamp then r :: findingsOf past name stamp
      else findingsOf past name stamp := by
  have cons : findingsOf (.remember other s r :: past) name stamp =
      ((.remember other s r) :: past.takeWhile fun a => !a.empties).filterMap
        (CacheAct.finding? name stamp) := rfl
  rw [cons, List.filterMap_cons]
  by_cases h : other = name ∧ s = stamp
  · simp only [CacheAct.finding?, if_pos h, findingsOf]
  · simp only [CacheAct.finding?, if_neg h, findingsOf]

/-- What is brought under a stamp is brought under a stamp of the same history. -/
theorem findingsOf_eq_nil (h : stamp ∉ stampsOf past) : findingsOf past name stamp = [] := by
  induction past with
  | nil => rfl
  | cons a past ih =>
    cases a with
    | remember other s r =>
      rw [stampsOf_remember, List.mem_cons, not_or] at h
      rw [findingsOf_remember, if_neg fun he => h.1 he.2.symm, ih h.2]
    | consult other s => exact ih h
    | forget => rfl
    | reset => rfl

/-- A cache observes the greatest stamp of its history, and has the latest finding for each
name under that stamp. -/
structure Recounts (c : LookupCache Code) (past : List (CacheAct Code)) : Prop where
  observed : c.validAt = (stampsOf past).max?.getD 0
  entries : ∀ name, c.entries.find? name = (findingsOf past name c.validAt).head?
  nodup : (c.entries.entries.map (·.1)).Nodup
  hits : c.counters.hits = (answersOf past).countP Option.isSome
  misses : c.counters.misses = (answersOf past).countP Option.isNone
  /-- Entries that are present have not been counted as dropped yet. -/
  invalidations : c.counters.invalidations + (if c.entries.isEmpty then 0 else 1) ≤
    (stampsOf past).length

theorem recounts_nil : Recounts ({} : LookupCache Code) [] where
  observed := rfl
  entries _ := rfl
  nodup := .nil
  hits := rfl
  misses := rfl
  invalidations := Nat.le_refl _

namespace Recounts

theorem forget (h : c.Recounts past) : c.forget.Recounts (.forget :: past) := by
  have observed : c.forget.validAt = c.validAt := by
    unfold LookupCache.forget
    split <;> rfl
  have counters : c.forget.counters =
      { c.counters with
        invalidations := c.counters.invalidations + if c.entries.isEmpty then 0 else 1 } := by
    unfold LookupCache.forget
    split <;> rfl
  refine
    { observed := observed.trans h.observed
      entries := fun other => ?_
      nodup := ?_
      hits := by rw [counters]; exact h.hits
      misses := by rw [counters]; exact h.misses
      invalidations := ?_ }
  · rw [entries_forget]
    rfl
  · rw [entries_forget]
    exact .nil
  · rw [entries_forget, counters]
    exact h.invalidations

/-- The greatest stamp of a history to which one more stamp has come. -/
theorem observed_cons (h : c.Recounts past) (stamp : Nat) :
    (stamp :: stampsOf past).max?.getD 0 = max stamp c.validAt := by
  rw [List.max?_cons, h.observed]
  cases (stampsOf past).max? <;> simp

/-- Nothing was brought under a stamp that is greater than all before. -/
theorem findingsOf_of_newer (h : c.Recounts past) (newer : c.validAt < stamp) (name : String) :
    findingsOf past name stamp = [] := by
  refine findingsOf_eq_nil fun brought => ?_
  have hle := List.le_max?_getD_of_mem (k := 0) brought
  rw [← h.observed] at hle
  omega

theorem remember_of_older (h : c.Recounts past) (older : stamp < c.validAt) (name : String)
    (r : Finding Code) : c.Recounts (.remember name stamp r :: past) := by
  refine { h with observed := ?_, entries := fun other => ?_, invalidations := ?_ }
  · rw [stampsOf_remember, h.observed_cons]
    omega
  · rw [findingsOf_remember, if_neg (by omega), h.entries]
  · exact Nat.le_succ_of_le h.invalidations

theorem remember_of_newer (h : c.Recounts past) (newer : c.validAt < stamp) (name : String)
    (r : Finding Code) :
    Recounts { c.forget with validAt := stamp, entries := Table.insert {} name r }
      (.remember name stamp r :: past) where
  observed := by
    rw [stampsOf_remember, h.observed_cons]
    exact (Nat.max_eq_left (Nat.le_of_lt newer)).symm
  entries other := by
    rw [Table.find?_insert, findingsOf_remember, h.findingsOf_of_newer newer]
    by_cases he : other = name
    · simp [he]
    · simp [he, Ne.symm he]
  nodup := List.pairwise_singleton _ _
  hits := h.forget.hits
  misses := h.forget.misses
  invalidations := by
    have dropped := h.forget.invalidations
    rw [entries_forget] at dropped
    rw [Table.not_isEmpty_insert]
    exact Nat.succ_le_succ dropped

theorem remember_of_same (h : c.Recounts past) (name : String) (r : Finding Code) :
    Recounts { c with entries := c.entries.insert name r }
      (.remember name c.validAt r :: past) where
  observed := by rw [stampsOf_remember, h.observed_cons, Nat.max_self]
  entries other := by
    rw [Table.find?_insert, findingsOf_remember, h.entries]
    by_cases he : other = name
    · simp [he]
    · simp [he, Ne.symm he]
  nodup := Table.nodup_putIn h.nodup name r
  hits := h.hits
  misses := h.misses
  invalidations := by
    rw [Table.not_isEmpty_insert]
    have before := h.invalidations
    simp only [stampsOf_remember, List.length_cons]
    split at before <;> simp <;> omega

theorem remember (h : c.Recounts past) (name : String) (stamp : Nat) (r : Finding Code) :
    (c.remember name stamp r).Recounts (.remember name stamp r :: past) := by
  unfold LookupCache.remember
  split
  · next older => exact h.remember_of_older older name r
  · split
    · next newer => exact h.remember_of_newer newer name r
    · next notOlder notNewer =>
      obtain rfl : stamp = c.validAt := by omega
      exact h.remember_of_same name r

theorem consult (h : (ofPast past).Recounts past) (name : String) (stamp : Nat) :
    ((ofPast past).consult name stamp).2.Recounts (.consult name stamp :: past) := by
  have answers : answersOf (.consult name stamp :: past) =
      (ofPast past).peek name stamp :: answersOf past := rfl
  unfold LookupCache.consult LookupCache.count
  cases hp : (ofPast past).peek name stamp with
  | some r =>
    refine { h with hits := ?_, misses := ?_ }
    · rw [answers, hp, List.countP_cons_of_pos rfl, ← h.hits]
      rfl
    · rw [answers, hp, List.countP_cons_of_neg (by simp), ← h.misses]
      rfl
  | none =>
    refine { h with hits := ?_, misses := ?_ }
    · rw [answers, hp, List.countP_cons_of_neg (by simp), ← h.hits]
      rfl
    · rw [answers, hp, List.countP_cons_of_pos rfl, ← h.misses]
      rfl

/-- Only under the greatest stamp is there an answer. -/
theorem peek_eq_some_iff (h : c.Recounts past) {r : Finding Code} :
    c.peek name stamp = some r ↔
      (stampsOf past).max? = some stamp ∧ (findingsOf past name stamp).head? = some r := by
  rw [peek_eq_some]
  constructor
  · rintro ⟨rfl, hr⟩
    rw [h.entries] at hr
    have brought : c.validAt ∈ stampsOf past := by
      by_contra hmem
      rw [findingsOf_eq_nil hmem] at hr
      contradiction
    obtain ⟨greatest, hg⟩ := Option.ne_none_iff_exists'.mp
      (mt List.max?_eq_none_iff.mp (List.ne_nil_of_mem brought))
    have observed := h.observed
    rw [hg] at observed
    exact ⟨hg.trans (congrArg some observed.symm), hr⟩
  · rintro ⟨hg, hr⟩
    obtain rfl : c.validAt = stamp := by rw [h.observed, hg, Option.getD_some]
    exact ⟨rfl, (h.entries name).trans hr⟩

end Recounts

theorem recounts_ofPast (past : List (CacheAct Code)) : (ofPast past).Recounts past := by
  induction past with
  | nil => exact recounts_nil
  | cons a past ih =>
    cases a with
    | remember name stamp r => exact ih.remember name stamp r
    | consult name stamp => exact ih.consult name stamp
    | forget => exact ih.forget
    | reset => exact { recounts_nil with }

/-- A cache answers a name under a stamp exactly when this is the greatest stamp since the
last reset, and findings for the name have been brought under it since all entries were
dropped. The answer is the latest of them. What can be answered so is what is in the cache,
each name once. Hits and misses count the answers since the last reset, and entries have not
been dropped more often than findings were brought. -/
theorem cache_recalls_latest (past : List (CacheAct Code)) :
    let c := ofPast past
    (∀ name stamp r, (c.consult name stamp).1 = some r ↔
      (stampsOf past).max? = some stamp ∧ (findingsOf past name stamp).head? = some r) ∧
    ((c.entries.entries.map (·.1)).Nodup ∧ ∀ name r, (name, r) ∈ c.entries.entries ↔
      ∃ stamp, (stampsOf past).max? = some stamp ∧ (c.consult name stamp).1 = some r) ∧
    c.counters.hits = (answersOf past).countP Option.isSome ∧
    c.counters.misses = (answersOf past).countP Option.isNone ∧
    c.counters.invalidations ≤ (stampsOf past).length := by
  intro c
  have h : c.Recounts past := recounts_ofPast past
  refine ⟨fun name stamp r => h.peek_eq_some_iff, ⟨h.nodup, fun name r => ?_⟩, h.hits, h.misses, ?_⟩
  · rw [Table.mem_iff_findIn h.nodup]
    constructor
    · intro hr
      have answered : c.peek name c.validAt = some r := peek_eq_some.mpr ⟨rfl, hr⟩
      exact ⟨c.validAt, (h.peek_eq_some_iff.mp answered).1, answered⟩
    · rintro ⟨stamp, -, answered⟩
      exact (peek_eq_some.mp answered).2
  · exact Nat.le_trans (Nat.le_add_right _ _) h.invalidations

end LookupCache
end ObjectModel
