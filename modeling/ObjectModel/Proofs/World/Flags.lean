import ObjectModel.Proofs.Program.Accounting
import ObjectModel.Proofs.World.Handlers
import Mathlib.Data.List.Induction

/-!
# Flags and what they stand for

The flags of a class are kept apart from its pool, its handler and the configuration that
it was made with. They agree all the same: a flag is raised together with what it stands
for, and nothing lowers one. So nothing is missed by asking the flags first.
-/
namespace ObjectModel
variable {Code σ : Type}

namespace Flags

/-- The bits that are set in the word of some flags. -/
theorem testBit_toBits (f : Flags) (bit : Nat) :
    f.toBits.testBit bit = true ↔
      (bit = 0 ∧ f.pooled = true) ∨ (bit = 1 ∧ f.uncached = true) ∨
        (bit = 2 ∧ f.hasHandler = true) := by
  obtain ⟨p, u, h⟩ := f
  match bit with
  | 0 | 1 | 2 => cases p <;> cases u <;> cases h <;> decide
  | bit + 3 =>
    have small : toBits ⟨p, u, h⟩ < 2 ^ (bit + 3) :=
      calc
        toBits ⟨p, u, h⟩ < 2 ^ 3 := by cases p <;> cases u <;> cases h <;> decide
        _ ≤ 2 ^ (bit + 3) := Nat.pow_le_pow_right (by decide) (Nat.le_add_left 3 bit)
    simp [Nat.testBit_lt_two_pow small]

/-- The word of both of two sets of flags has the bits of both words. -/
theorem toBits_union (f g : Flags) : (f.union g).toBits = f.toBits ||| g.toBits := by
  apply Nat.eq_of_testBit_eq
  intro bit
  rw [Nat.testBit_or, Bool.eq_iff_iff, Bool.or_eq_true]
  simp only [testBit_toBits, union, Bool.or_eq_true]
  tauto

end Flags

namespace World
variable {w v : World Code σ} {k : ClassId}

/-- A step leaves the flags of a class as they are, but for those that it raises. -/
theorem flags_next (hk : w.Has (.ofClass k)) (s : Step Code σ) :
    ((s.next w).classAt k).flags = (w.classAt k).flags.union (s.raises k) := by
  obtain ⟨_, _, _, given⟩ := s.redrawClass_eq w k (w.classAt k)
  exact congrArg (·.flags) (((s.redrawn_next w).classes k hk).trans (congrArg _ given))

/-- Along a run the flags of a class are those that it had and all that have been raised. -/
theorem flags_after (hw : w.Sound) (hk : w.Has (.ofClass k)) (later : List (Step Code σ)) :
    ((w.after later).classAt k).flags =
      later.foldl (fun f s => f.union (s.raises k)) (w.classAt k).flags := by
  induction later generalizing w with
  | nil => rfl
  | cons s later ih =>
    rw [after_cons, ih (hw.next s) (hw.has_next hk s), flags_next hk, List.foldl_cons]

/-- No flag is ever lowered. -/
theorem testBit_flags_after (hw : w.Sound) (later : List (Step Code σ)) {bit : Nat}
    (h : (w.classAt k).flags.toBits.testBit bit = true) :
    ((w.after later).classAt k).flags.toBits.testBit bit = true := by
  by_cases hk : w.Has (.ofClass k)
  · rw [flags_after hw hk]
    refine List.foldlRecOn (motive := fun f : Flags => f.toBits.testBit bit = true) later _ h ?_
    intro f hf s _
    rw [Flags.toBits_union, Nat.testBit_or, hf, Bool.true_or]
  · have blank : (w.classAt k).flags.toBits = 0 := by
      rw [classAt_of_not_has hk]
      rfl
    rw [blank, Nat.zero_testBit] at h
    contradiction

/-- No step makes a class that remembers what it finds one that does not. -/
theorem uncached_after (hw : w.Sound) (hk : w.Has (.ofClass k)) (later : List (Step Code σ)) :
    ((w.after later).classAt k).flags.uncached = (w.classAt k).flags.uncached := by
  have unraised : ∀ s : Step Code σ, (s.raises k).uncached = false := by
    intro s
    unfold Step.raises
    split
    · split <;> rfl
    · split <;> rfl
    · rfl
  rw [flags_after hw hk]
  refine List.foldlRecOn
    (motive := fun f : Flags => f.uncached = (w.classAt k).flags.uncached) later _ rfl ?_
  intro f hf s _
  rw [Flags.union, unraised, Bool.or_false, hf]

variable {start : World Code σ} {past : List (Step Code σ)} {s : Step Code σ} {c : Configuration}

/-- A class has been made along a run, with a configuration. -/
def MadeWith (start : World Code σ) (past : List (Step Code σ)) (k : ClassId)
    (c : Configuration) : Prop :=
  ∃ before name later, past = before ++ .perform (.newClass name c) :: later ∧
    k = ((start.after before).newClass name c).1

/-- A class has been made before the last step, or by it. -/
theorem madeWith_concat :
    start.MadeWith (past ++ [s]) k c ↔
      start.MadeWith past k c ∨
        ∃ name, s = .perform (.newClass name c) ∧ k = ((start.after past).newClass name c).1 := by
  constructor
  · rintro ⟨before, name, later, h, hk⟩
    rcases List.eq_nil_or_concat' later with rfl | ⟨later, last, rfl⟩
    · obtain ⟨rfl, hs⟩ := List.append_inj' h rfl
      exact .inr ⟨name, List.singleton_inj.mp hs, hk⟩
    · rw [← List.cons_append, ← List.append_assoc] at h
      obtain ⟨rfl, -⟩ := List.append_inj' h rfl
      exact .inl ⟨before, name, later, rfl, hk⟩
  · rintro (⟨before, name, later, rfl, hk⟩ | ⟨name, rfl, hk⟩)
    · exact ⟨before, name, later ++ [s], by simp, hk⟩
    · exact ⟨past, name, [], rfl, hk⟩

theorem makes?_eq_ofClass :
    s.makes? w = some (.ofClass k) ↔
      ∃ c name, s = .perform (.newClass name c) ∧ k = (w.newClass name c).1 := by
  constructor
  · intro h
    cases s with
    | perform op =>
      cases op with
      | newClass name c => exact ⟨c, name, rfl, (Receiver.ofClass.inj (Option.some.inj h)).symm⟩
      | instantiate a => simp [Step.makes?, Operation.makes?] at h
      | _ => contradiction
    | _ => contradiction
  · rintro ⟨c, name, rfl, rfl⟩
    rfl

/-- The classes that are there are those that have been made. -/
theorem has_ofClass_iff_madeWith (h : σ) (past : List (Step Code σ)) (k : ClassId) :
    ((initial h).after past).Has (.ofClass k) ↔ ∃ c, (initial h).MadeWith past k c := by
  induction past using List.reverseRecOn with
  | nil =>
    refine iff_of_false (fun hk => ?_) ?_
    · have bounds := has_ofClass_iff.mp hk
      simp [initial, Registry.size] at bounds
      omega
    · rintro ⟨c, before, name, later, hp, -⟩
      simp at hp
  | append_singleton past s ih =>
    have grown := (s.redrawn_next ((initial h).after past)).has (.ofClass k)
    rw [after_append]
    refine grown.trans ?_
    rw [ih, makes?_eq_ofClass, ← exists_or]
    exact exists_congr fun c => madeWith_concat.symm

/-- A class does not remember exactly if it was made so. -/
theorem MadeWith.uncached (h : start.MadeWith past k c) (hs : start.Sound) :
    ((start.after past).classAt k).flags.uncached = !c.resolutionCache := by
  obtain ⟨before, name, later, rfl, rfl⟩ := h
  have hw : (start.after before).Sound := hs.after before
  have there : ((start.after before).newClass name c).2.Has
      (.ofClass ((start.after before).newClass name c).1) :=
    (has_add_class_iff _ _ _).mpr (.inr rfl)
  rw [after_append, after_cons]
  refine (uncached_after (hw.next (.perform (.newClass name c))) there later).trans ?_
  exact congrArg (·.flags.uncached) (classAt_newClass (start.after before) name c)

/-- The flags of a class agree with its slots after a run, and paths that ask the flags first are
those that ask the slots. -/
structure FlagsAgree (start : World Code σ) (past : List (Step Code σ)) (k : ClassId) : Prop where
  made : (start.after past).Has (.ofClass k) ↔ ∃ c, start.MadeWith past k c
  /-- The bits that are set in the word of the flags, and no others. -/
  bits c (made : start.MadeWith past k c) bit :
    ((start.after past).classAt k).flags.toBits.testBit bit = true ↔
      (bit = 0 ∧ ((start.after past).classAt k).pool.isSome = true) ∨
        (bit = 1 ∧ c.resolutionCache = false) ∨
        (bit = 2 ∧ ((start.after past).classAt k).handler.isSome = true)
  raised (has : (start.after past).Has (.ofClass k)) (s : Step Code σ) :
    ((s.next (start.after past)).classAt k).flags.toBits =
      ((start.after past).classAt k).flags.toBits ||| (s.raises k).toBits
  kept later bit (set : ((start.after past).classAt k).flags.toBits.testBit bit = true) :
    (((start.after past).after later).classAt k).flags.toBits.testBit bit = true
  chain : Chain (start.after past).parentOf k ((start.after past).lineage k)
  handler : (start.after past).lineageHandler? k =
    ((start.after past).lineage k).findSome? fun a => ((start.after past).classAt a).handler
  pool : (start.after past).poolFor? k = ((start.after past).classAt k).pool
  /-- A state is drawn from the pool that is attached, and from no other. -/
  drawn : ((start.after past).instantiate k).2.pools =
    (((start.after past).classAt k).pool.elim (start.after past) fun p =>
      (start.after past).modifyPool p fun q => q.acquire.2).pools
  home : (((start.after past).instantiate k).2.instanceAt
    ((start.after past).instantiate k).1).pool = ((start.after past).classAt k).pool

/-- Wherever a run has got, in the word of the flags of a class the first bit is set if and
only if it has a pool, the second if and only if it was made not to remember lookups, the
third if and only if it has a handler, and no other bit is set. A step adds the bits of what
it raises, and no bit is ever cleared. So the handler for a class is that of the nearest class
of its chain with one, though the flags are asked first, and an instance takes its state from
a pool if and only if its class has one. -/
theorem flags_agree_with_slots (h : σ) (past : List (Step Code σ)) (k : ClassId) :
    FlagsAgree (initial h) past k := by
  have hw : ((initial h).after past).Sound := sound_after h past
  have marked : ((initial h).after past).Marked := marked_after h past
  have pool := marked.poolFor?_eq k
  refine
    { made := has_ofClass_iff_madeWith h past k
      bits := fun c made bit => ?_
      raised := fun has s => ?_
      kept := fun later bit set => testBit_flags_after hw later set
      chain := hw.rooted.chain k
      handler := marked.lineageHandler?_eq k
      pool := pool
      drawn := ?_
      home := ?_ }
  · rw [Flags.testBit_toBits, (marked k).pool, (marked k).handler, made.uncached (sound_initial h),
      Bool.not_eq_true']
  · rw [flags_next has, Flags.toBits_union]
  · rw [pools_instantiate, pool]
  · rw [instanceAt_instantiate]
    exact pool

/-- A class with a pool, below one that was made not to remember and has a handler. The class
has that handler too, without a flag for it until it gets one of its own. -/
theorem flags_of_pooled_child :
    let past : List (Step Unit Unit) :=
      [.perform (.newClass "A" { resolutionCache := false }), .perform (.newClass "B" {}),
        .perform (.inherit ⟨2⟩ ⟨1⟩), .perform (.setHandler (.ofClass ⟨1⟩) ()),
        .perform (.newPool 2), .perform (.usePool ⟨2⟩ ⟨1⟩)]
    let start : World Unit Unit := initial ()
    let w := start.after past
    let own : Step Unit Unit := .perform (.setHandler (.ofClass ⟨2⟩) ())
    start.MadeWith past ⟨2⟩ {} ∧ (w.classAt ⟨2⟩).flags.toBits = 1 ∧
      (w.classAt ⟨2⟩).pool.isSome = true ∧ (w.classAt ⟨2⟩).handler = none ∧
      w.lineageHandler? ⟨2⟩ = some () ∧ ((own.next w).classAt ⟨2⟩).flags.toBits = 5 ∧
      ((w.after [own]).classAt ⟨2⟩).flags.toBits.testBit 0 = true := by
  intro past start w own
  have agree : start.FlagsAgree past ⟨2⟩ := flags_agree_with_slots () past ⟨2⟩
  have made : start.MadeWith past ⟨2⟩ {} :=
    ⟨[.perform (.newClass "A" { resolutionCache := false })], "B", _, rfl, rfl⟩
  have word : (w.classAt ⟨2⟩).flags.toBits = 1 := by decide +kernel
  have pooled : (w.classAt ⟨2⟩).pool.isSome = true := by decide +kernel
  have first : (w.classAt ⟨2⟩).flags.toBits.testBit 0 = true :=
    (agree.bits {} made 0).mpr (.inl ⟨rfl, pooled⟩)
  have unset : (w.classAt ⟨2⟩).handler = none := by decide +kernel
  have inherited : (w.lineage ⟨2⟩).findSome? (fun a => (w.classAt a).handler) = some () := by
    decide +kernel
  refine ⟨made, word, pooled, unset, agree.handler.trans inherited, ?_, agree.kept [own] 0 first⟩
  have there : w.Has (.ofClass ⟨2⟩) := by
    unfold Has
    decide +kernel
  have raised : (own.raises ⟨2⟩).toBits = 4 := by decide +kernel
  rw [agree.raised there own, word, raised]
  decide

end World
end ObjectModel
