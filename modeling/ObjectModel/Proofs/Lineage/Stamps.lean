import ObjectModel.Proofs.Program.Step

/-!
# Stamps along a run

A mutation gives everything that inherits from the mutated object a stamp later
than all stamps before it, although a class may leave a lineage together with
the version that made its stamp. Nothing else changes a stamp. So the stamp of
an object never goes back while the object lives.
-/
namespace ObjectModel
variable {Code σ : Type}

open Relation (ReflTransGen TransGen)

namespace Step

/-- A step changes what a receiver that is there defines, renames or descends
from. -/
def Mutates (w : World Code σ) (s : Step Code σ) (on : Receiver) : Prop :=
  w.Has on ∧ s.redefines? w = some on

/-- A step gives an instance up. -/
def Retires (s : Step Code σ) (x : Receiver) : Prop :=
  ∃ i, s = .perform (.retire i) ∧ x = .ofInstance i

end Step

namespace World
variable {w v u : World Code σ} {s : Step Code σ} {x on : Receiver}

theorem Touched.clock_le (h : Touched on w v) : w.clock.latest ≤ v.clock.latest := by
  by_cases ho : w.Has on
  · have hc := (h.redefined ho).clock
    omega
  · exact (h.quiet ho).clock

theorem Idle.clock_le {spared : Option InstanceId} (h : Idle spared w v) :
    w.clock.latest ≤ v.clock.latest := by
  cases h with
  | quiet h => exact h.clock
  | recalled h => exact Nat.le_of_eq (congrArg Clock.latest (bare_clock h.same)).symm
  | renewed i _ h => exact Nat.le_of_eq (congrArg Clock.latest h.clock).symm

theorem Sound.clock_next (hw : w.Sound) (s : Step Code σ) :
    w.clock.latest ≤ (s.next w).clock.latest :=
  next_induction (P := fun v => w.clock.latest ≤ v.clock.latest) hw (Nat.le_refl _)
    (fun _ _ _ h hle => Nat.le_trans hle h.clock_le) (fun _ _ _ h hle => Nat.le_trans hle h.clock_le) s

theorem Sound.clock_after (hw : w.Sound) (steps : List (Step Code σ)) :
    w.clock.latest ≤ (w.after steps).clock.latest :=
  hw.after_induction (P := fun v => w.clock.latest ≤ v.clock.latest) (Nat.le_refl _)
    fun _ s _ hv before => Nat.le_trans before (hv.clock_next s)

/-- No stamp from before is ahead of the clock. -/
theorem stampOf_le_clock (h : σ) {earlier past : List (Step Code σ)} (he : earlier <+: past)
    (y : Receiver) :
    ((initial h).after earlier).stampOf y ≤ ((initial h).after past).clock.latest := by
  obtain ⟨rest, rfl⟩ := he
  have hs : ((initial h : World Code σ).after earlier).Sound := sound_after h earlier
  have hy := hs.stampOf_le y
  have hc := hs.clock_after rest
  rw [after_append]
  omega

/-- What redefinitions of one receiver, in a row, do to stamps. -/
structure Restamped (on : Receiver) (w v : World Code σ) : Prop where
  sound : v.Sound
  has : v.Has on
  clock : w.clock.latest ≤ v.clock.latest
  inherits : ∀ x, v.Inherits x on ↔ w.Inherits x on
  same : ∀ x, ¬ w.Inherits x on → v.stampOf x = w.stampOf x

theorem restamped_of_touched (h : ReflTransGen (Touched on) w v) (hw : w.Sound) (ho : w.Has on) :
    Restamped on w v := by
  induction h with
  | refl => exact ⟨hw, ho, Nat.le_refl _, fun _ => Iff.rfl, fun _ _ => rfl⟩
  | @tail v u _ hstep ih =>
    have hr := hstep.redefined ih.has
    refine ⟨hstep.sound ih.sound, (hstep.has on).mpr ih.has, ?_, fun x => ?_, fun x hx => ?_⟩
    · exact Nat.le_trans ih.clock hstep.clock_le
    · exact (hr.inherits_iff ih.sound.rooted).trans (ih.inherits x)
    · have hx' : ¬ v.Inherits x on := fun hi => hx ((ih.inherits x).mp hi)
      rw [(hr.sameFor hx').stampOf ih.sound.rooted, ih.same x hx]

theorem Sound.stampOf_mutated (hw : w.Sound) (h : s.Mutates w on) (hx : w.Inherits x on) :
    w.clock.latest < (s.next w).stampOf x := by
  -- The last of the redefinitions in a row gives the stamp.
  obtain ⟨v, hrest, hlast⟩ := TransGen.tail'_iff.mp (Step.touched_next hw h.2)
  have hv := restamped_of_touched hrest hw h.1
  have hlater := (hlast.redefined hv.has).stampOf_later hv.sound.rooted ((hv.inherits x).mpr hx)
  exact Nat.lt_of_le_of_lt hv.clock hlater

theorem Sound.stampOf_elsewhere (hw : w.Sound) (h : s.Mutates w on) (hx : ¬ w.Inherits x on) :
    (s.next w).stampOf x = w.stampOf x :=
  (restamped_of_touched (Step.touched_next hw h.2).to_reflTransGen hw h.1).same x hx

theorem Idle.stampOf {spared : Option InstanceId} (h : Idle spared w v) (hw : w.Sound)
    (hx : ∀ i, spared = some i → x ≠ .ofInstance i) : v.stampOf x = w.stampOf x := by
  cases h with
  | quiet h => exact (h.sameFor x).stampOf hw.rooted
  | recalled h => exact bare_stampOf h.same x
  | renewed i hi h => exact (h.sameFor (hx i hi)).stampOf hw.rooted

/-- What a step makes was not there before. -/
theorem renews_ne (hx : w.Has x) (hr : ¬ s.Retires x) (i : InstanceId)
    (hi : s.renews? w = some i) : x ≠ .ofInstance i := by
  rintro rfl
  cases s with
  | perform op =>
    cases op with
    | instantiate k =>
      obtain rfl := Option.some.inj hi
      exact not_has_next_instance w hx
    | retire j =>
      obtain rfl := Option.some.inj hi
      exact hr ⟨j, rfl, rfl⟩
    | _ => contradiction
  | _ => contradiction

theorem quiet_of_touched (h : ReflTransGen (Touched on) w v) (ho : ¬ w.Has on) : Quiet w v := by
  induction h with
  | refl => exact .refl w
  | @tail v u hrest hstep ih =>
    exact ih.trans (hstep.quiet (mt (has_of_touched hrest on).mp ho))

theorem Sound.stampOf_idle (hw : w.Sound) (hs : ∀ on, ¬ s.Mutates w on) (hx : w.Has x)
    (hr : ¬ s.Retires x) : (s.next w).stampOf x = w.stampOf x := by
  cases hm : s.redefines? w with
  | some on =>
    have ho : ¬ w.Has on := fun ho => hs on ⟨ho, hm⟩
    have hq := quiet_of_touched (Step.touched_next hw hm).to_reflTransGen ho
    exact (hq.sameFor x).stampOf hw.rooted
  | none =>
    have hspared := renews_ne hx hr
    have run := Step.idle_next hm
    -- Soundness goes along, because only in sound worlds are lineages what they are.
    have both : (s.next w).stampOf x = w.stampOf x ∧ (s.next w).Sound := by
      generalize s.next w = u at run
      induction run with
      | refl => exact ⟨rfl, hw⟩
      | tail _ hstep ih => exact ⟨(hstep.stampOf ih.2 hspared).trans ih.1, hstep.sound ih.2⟩
    exact both.1

theorem Sound.stampOf_le_next (hw : w.Sound) (hx : w.Has x) (hr : ¬ s.Retires x) :
    w.stampOf x ≤ (s.next w).stampOf x := by
  by_cases hm : ∃ on, s.Mutates w on
  · obtain ⟨on, hm⟩ := hm
    by_cases hi : w.Inherits x on
    · have hlater := hw.stampOf_mutated hm hi
      have hle := hw.stampOf_le x
      omega
    · exact Nat.le_of_eq (hw.stampOf_elsewhere hm hi).symm
  · exact Nat.le_of_eq (hw.stampOf_idle (fun on ho => hm ⟨on, ho⟩) hx hr).symm

theorem Sound.stampOf_le_after (hw : w.Sound) {steps : List (Step Code σ)} (hx : w.Has x)
    (hr : ∀ s ∈ steps, ¬ s.Retires x) : w.stampOf x ≤ (w.after steps).stampOf x :=
  hw.after_induction_of_has (P := fun v => w.stampOf x ≤ v.stampOf x) hx (Nat.le_refl _)
    fun _ s hs hv there before => Nat.le_trans before (hv.stampOf_le_next there (hr s hs))

/-- Wherever a run has got: a mutation takes the stamps of all that inherits from
the mutated object beyond every stamp from before, and leaves the other stamps
alone. No other step changes the stamp of an object that lives on. So a stamp
never goes back in the rest of a run, and once its lineage has been mutated it
never returns to a value from before. -/
theorem stamps_follow_mutations (h : σ) (past : List (Step Code σ)) :
    let w := (initial h).after past
    (∀ (s : Step Code σ) on x, s.Mutates w on →
      (w.Inherits x on → ∀ earlier, earlier <+: past → ∀ y,
        ((initial h).after earlier).stampOf y < (s.next w).stampOf x) ∧
      (¬ w.Inherits x on → (s.next w).stampOf x = w.stampOf x)) ∧
    (∀ (s : Step Code σ) x, (∀ on, ¬ s.Mutates w on) → w.Has x → ¬ s.Retires x →
      (s.next w).stampOf x = w.stampOf x) ∧
    (∀ (future : List (Step Code σ)) x, w.Has x → (∀ s ∈ future, ¬ s.Retires x) →
      w.stampOf x ≤ (w.after future).stampOf x) ∧
    ∀ (s : Step Code σ) on future x, s.Mutates w on → w.Inherits x on → w.Has x →
      (∀ t ∈ future, ¬ t.Retires x) → ∀ earlier, earlier <+: past →
        ((initial h).after earlier).stampOf x < (w.after (s :: future)).stampOf x := by
  intro w
  have hw : w.Sound := sound_after h past
  refine ⟨fun s on x hm => ⟨fun hi earlier he y => ?_, hw.stampOf_elsewhere hm⟩, ?_, ?_, ?_⟩
  · have hbefore := stampOf_le_clock h he y
    exact Nat.lt_of_le_of_lt hbefore (hw.stampOf_mutated hm hi)
  · intro s x hs hx hr
    exact hw.stampOf_idle hs hx hr
  · intro future x hx hr
    exact hw.stampOf_le_after hx hr
  · intro s on future x hm hi hx hr earlier he
    have hbefore := stampOf_le_clock h he x
    have hnow := hw.stampOf_mutated hm hi
    have hrest := (hw.next s).stampOf_le_after (hw.has_next hx s) hr
    calc
      ((initial h).after earlier).stampOf x ≤ w.clock.latest := hbefore
      _ < (s.next w).stampOf x := hnow
      _ ≤ (w.after (s :: future)).stampOf x := hrest

/-- A class that leaves the ancestor its stamp came from has a later stamp, also
after the ancestor has changed once more. -/
theorem stamps_of_moved_class :
    let past : List (Step Unit Unit) :=
      [.perform (.newClass "A" {}), .perform (.newClass "B" {}), .perform (.newClass "C" {}),
        .perform (.inherit ⟨2⟩ ⟨1⟩), .perform (.defineMethod (.ofClass ⟨1⟩) "f" (.reader "f"))]
    let w := (initial ()).after past
    let move : Step Unit Unit := .perform (.inherit ⟨2⟩ ⟨3⟩)
    let change : Step Unit Unit := .perform (.addAlias (.ofClass ⟨1⟩) "g" "f")
    w.stampOf (.ofClass ⟨2⟩) = 2 ∧ move.Mutates w (.ofClass ⟨2⟩) ∧
      w.stampOf (.ofClass ⟨2⟩) < (w.after [move, change]).stampOf (.ofClass ⟨2⟩) := by
  intro past w move change
  have hm : move.Mutates w (.ofClass ⟨2⟩) := ⟨rfl, rfl⟩
  have hr : ∀ t ∈ [change], ¬ t.Retires (.ofClass ⟨2⟩) := by
    rintro t _ ⟨i, _, hx⟩
    contradiction
  refine ⟨by decide, hm, ?_⟩
  exact (stamps_follow_mutations () past).2.2.2 move _ [change] _ hm (.inl rfl) rfl hr past
    List.prefix_rfl

end World
end ObjectModel
