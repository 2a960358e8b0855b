import ObjectModel.Proofs.Program.Invocation
import ObjectModel.Proofs.Program.Step

/-!
# Super calls

A super call runs the first definition strictly after the level it starts from,
in the order that the levels of the receiver have at that moment, or fails
without running anything. Which definition that is depends on the innermost
frame of this receiver and name, and on no other frame.
-/
namespace ObjectModel
variable {Code σ : Type}

/-- The side of the methods that a receiver answers with. -/
def Receiver.side : Receiver → Side
  | ofInstance _ => .instanceSide
  | ofClass _ => .classSide

namespace World
variable {w : World Code σ} {on : Receiver} {name : String} {level : Level} {d : Definition Code}

/-- What is nearest stands on one of the levels. -/
theorem definitionOn?_of_nearest? (h : w.nearest? on name = some d) :
    ∃ level, w.definitionOn? on name level = some d := by
  rw [← findSome?_levels] at h
  obtain ⟨level, _, hl⟩ := List.exists_of_findSome?_eq_some h
  exact ⟨level, hl⟩

theorem definitionOn?_of_superDefinition? (h : w.superDefinition? on name = some d) :
    ∃ level, w.definitionOn? on name level = some d := by
  obtain ⟨start, _, hd⟩ := Option.bind_eq_some_iff.mp h
  obtain ⟨level, _, hl⟩ := List.exists_of_findSome?_eq_some hd
  exact ⟨level, hl⟩

/-- Methods are found under their own names, and on the side of their receiver. -/
theorem Named.of_definitionOn? (hw : w.Named) (h : w.definitionOn? on name level = some d) :
    d.method.name = name ∧ d.method.side = on.side := by
  have hm := (definitionOn?_eq_some.mp h).2
  cases on with
  | ofInstance i =>
    cases level with
    | singleton => exact (hw.states i).2 name _ hm
    | own => exact (hw.states i).1 name _ hm
    | ofClass k => exact hw.classes k .instanceSide name _ hm
  | ofClass c =>
    cases level with
    | ofClass k => exact hw.classes k .classSide name _ hm
    | _ => contradiction

theorem Named.of_nearest? (hw : w.Named) (h : w.nearest? on name = some d) :
    d.method.name = name ∧ d.method.side = on.side :=
  (definitionOn?_of_nearest? h).elim fun _ => hw.of_definitionOn?

theorem Named.of_superDefinition? (hw : w.Named) (h : w.superDefinition? on name = some d) :
    d.method.name = name ∧ d.method.side = on.side :=
  (definitionOn?_of_superDefinition? h).elim fun _ => hw.of_definitionOn?

theorem Named.name_of_nearest? (hw : w.Named) (h : w.nearest? on name = some d) :
    d.method.name = name :=
  (hw.of_nearest? h).1

theorem Named.name_of_superDefinition? (hw : w.Named) (h : w.superDefinition? on name = some d) :
    d.method.name = name :=
  (hw.of_superDefinition? h).1

/-- The frames that a super call looks at. -/
def framesOf (w : World Code σ) (on : Receiver) (name : String) : List Frame :=
  w.frames.filter fun f => f.receiver = on ∧ f.method = name

theorem runningLevel?_eq_head? (w : World Code σ) (on : Receiver) (name : String) :
    w.runningLevel? on name = (w.framesOf on name).head?.map (·.level) := by
  rw [runningLevel?, framesOf, List.head?_filter]

/-- Frames of other receivers and other names do not count. -/
theorem superDefinition?_of_framesOf (w : World Code σ) {frames : List Frame}
    (h : ({ w with frames } : World Code σ).framesOf on name = w.framesOf on name) :
    ({ w with frames } : World Code σ).superDefinition? on name = w.superDefinition? on name := by
  have hl := levels_of_records (v := { w with frames }) (w := w) rfl rfl
  have hd := definitionOn?_of_records (v := { w with frames }) (w := w) rfl rfl
  simp only [superDefinition?, startLevel?, levelsAfter, runningLevel?_eq_head?, h, hl, hd]

/-- The level that a super call starts from. That is the one of the innermost running body of this
receiver and name. When no such body is running, it is the nearest level that defines the name. -/
inductive StartsFrom (w : World Code σ) (on : Receiver) (name : String) : Level → Prop
  | running {inner outer : List Frame} {level : Level}
      (frames : w.frames = inner ++ ⟨on, name, level⟩ :: outer)
      (innermost : ∀ f ∈ inner, ¬ (f.receiver = on ∧ f.method = name)) :
      StartsFrom w on name level
  | idle {below above : List Level} {level : Level}
      (frames : ∀ f ∈ w.frames, ¬ (f.receiver = on ∧ f.method = name))
      (levels : w.levels on = below ++ level :: above)
      (nearest : ∀ l ∈ below, w.definitionOn? on name l = none)
      (defined : (w.definitionOn? on name level).isSome = true) : StartsFrom w on name level

/-- What a super call goes on with: the first definition strictly after the level that it
starts from. -/
inductive Resumes (w : World Code σ) (on : Receiver) (name : String) : Definition Code → Prop
  | intro {start : Level} {below between above : List Level} {d : Definition Code}
      (starts : w.StartsFrom on name start)
      (levels : w.levels on = below ++ start :: (between ++ d.level :: above))
      (first : ∀ l ∈ between, w.definitionOn? on name l = none)
      (defined : w.definitionOn? on name d.level = some d) : Resumes w on name d

theorem runningLevel?_eq_some :
    w.runningLevel? on name = some level ↔
      ∃ inner outer, w.frames = inner ++ ⟨on, name, level⟩ :: outer ∧
        ∀ f ∈ inner, ¬ (f.receiver = on ∧ f.method = name) := by
  rw [runningLevel?, Option.map_eq_some_iff]
  constructor
  · rintro ⟨⟨receiver, method, place⟩, found, rfl⟩
    obtain ⟨same, inner, outer, frames, before⟩ := List.find?_eq_some_iff_append.mp found
    obtain ⟨rfl, rfl⟩ : receiver = on ∧ method = name := by simpa using same
    refine ⟨inner, outer, frames, fun f hf => ?_⟩
    simpa only [Bool.not_eq_true', decide_eq_false_iff_not] using before f hf
  · rintro ⟨inner, outer, frames, before⟩
    refine ⟨⟨on, name, level⟩, List.find?_eq_some_iff_append.mpr ?_, rfl⟩
    refine ⟨by simp, inner, outer, frames, fun f hf => ?_⟩
    simpa only [Bool.not_eq_true', decide_eq_false_iff_not] using before f hf

theorem runningLevel?_eq_none :
    w.runningLevel? on name = none ↔ ∀ f ∈ w.frames, ¬ (f.receiver = on ∧ f.method = name) := by
  simp [runningLevel?]

/-- The first of some levels with a definition. -/
theorem findSome?_definitionOn?_eq_some {levels : List Level} :
    levels.findSome? (w.definitionOn? on name) = some d ↔
      ∃ below above, levels = below ++ d.level :: above ∧
        (∀ l ∈ below, w.definitionOn? on name l = none) ∧
        w.definitionOn? on name d.level = some d := by
  rw [List.findSome?_eq_some_iff]
  constructor
  · rintro ⟨below, l, above, levels, defined, first⟩
    obtain rfl : d.level = l := (definitionOn?_eq_some.mp defined).1
    exact ⟨below, above, levels, first, defined⟩
  · rintro ⟨below, above, levels, first, defined⟩
    exact ⟨below, d.level, above, levels, defined, first⟩

theorem startLevel?_eq_some : w.startLevel? on name = some level ↔ w.StartsFrom on name level := by
  rw [startLevel?, Option.or_eq_some_iff, runningLevel?_eq_some, runningLevel?_eq_none]
  constructor
  · rintro (⟨inner, outer, frames, innermost⟩ | ⟨frames, nearest⟩)
    · exact .running frames innermost
    · obtain ⟨d, found, rfl⟩ := Option.map_eq_some_iff.mp nearest
      obtain ⟨below, above, levels, first, defined⟩ := findSome?_definitionOn?_eq_some.mp found
      exact .idle frames levels first (by rw [defined]; rfl)
  · intro h
    cases h with
    | running frames innermost => exact .inl ⟨_, _, frames, innermost⟩
    | idle frames levels nearest defined =>
      obtain ⟨d, hd⟩ := Option.isSome_iff_exists.mp defined
      obtain rfl : d.level = level := (definitionOn?_eq_some.mp hd).1
      refine .inr ⟨frames, Option.map_eq_some_iff.mpr ⟨d, ?_, rfl⟩⟩
      exact findSome?_definitionOn?_eq_some.mpr ⟨_, _, levels, nearest, hd⟩

/-- What comes after a level is what stands behind it. -/
theorem Rooted.levelsAfter_eq (hw : w.Rooted) {below above : List Level}
    (h : w.levels on = below ++ level :: above) : w.levelsAfter on level = above := by
  have nodup := hw.nodup_levels on
  rw [h, List.nodup_append] at nodup
  have before : ∀ l ∈ below, l ≠ level := fun l hl => nodup.2.2 l hl level List.mem_cons_self
  rw [levelsAfter, h, List.dropWhile_append_of_pos (fun l hl => by simpa using before l hl),
    List.dropWhile_cons_of_neg (by simp)]
  rfl

/-- A level with others after it is one of those of the receiver. -/
theorem Rooted.levels_of_levelsAfter (hw : w.Rooted) (h : w.levelsAfter on level ≠ []) :
    ∃ below, w.levels on = below ++ level :: w.levelsAfter on level := by
  have mem : level ∈ w.levels on := by
    by_contra absent
    have passed : (w.levels on).dropWhile (· ≠ level) = [] := by
      refine List.dropWhile_eq_nil_iff.mpr fun l hl => ?_
      simpa using ne_of_mem_of_not_mem hl absent
    rw [levelsAfter, passed] at h
    exact h rfl
  obtain ⟨below, above, split⟩ := List.append_of_mem mem
  exact ⟨below, by rw [hw.levelsAfter_eq split, split]⟩

/-- What a super call goes on with is the first definition after the level it starts from. -/
theorem Rooted.superDefinition?_eq_some (hw : w.Rooted) :
    w.superDefinition? on name = some d ↔ w.Resumes on name d := by
  rw [superDefinition?, Option.bind_eq_some_iff]
  constructor
  · rintro ⟨start, starts, found⟩
    obtain ⟨between, above, after, first, defined⟩ := findSome?_definitionOn?_eq_some.mp found
    obtain ⟨below, levels⟩ := hw.levels_of_levelsAfter (by rw [after]; simp)
    rw [after] at levels
    exact .intro (startLevel?_eq_some.mp starts) levels first defined
  · rintro ⟨starts, levels, first, defined⟩
    refine ⟨_, startLevel?_eq_some.mpr starts, ?_⟩
    rw [hw.levelsAfter_eq levels]
    exact findSome?_definitionOn?_eq_some.mpr ⟨_, _, rfl, first, defined⟩

end World

namespace Run
variable {w : World Code σ}

/-- A super call runs what its lookup has found, in the world that the lookup leaves. -/
theorem callSuper_eq (host : Host Code σ) (performer : Performer Code σ) (on : Receiver)
    (name : String) (args : List (Value Code)) (w : World Code σ) :
    callSuper host performer on name args w =
      (match (w.lookUpSuper on name).1 with
        | some d => invokeFound host performer d on args
        | none => do return .error (.noSuperMethod name ((← get).receiverName on)))
        (w.lookUpSuper on name).2 := rfl

/-- What a super call does to a sound world. -/
theorem callSuper_of_sound (hw : w.Sound) (hn : w.Named) (host : Host Code σ)
    (performer : Performer Code σ) (on : Receiver) (name : String) (args : List (Value Code)) :
    ∃ v : World Code σ, World.Recalled w v ∧
      callSuper host performer on name args w =
        match w.superDefinition? on name with
        | some d => (do
            let outcome ← invoke host performer d.method on args
            modify World.popFrame
            return outcome : Run Code σ _) (v.pushFrame ⟨on, name, d.level⟩)
        | none => .ok (.error (.noSuperMethod name (w.receiverName on)), v) := by
  have hr := World.recalled_lookUpSuper w on name
  have hd := hw.lookUpSuper_fst on name
  refine ⟨(w.lookUpSuper on name).2, hr, ?_⟩
  rw [callSuper_eq, hd]
  cases h : w.superDefinition? on name with
  | some d =>
    have hname := hn.name_of_superDefinition? h
    subst hname
    rfl
  | none =>
    rw [← World.bare_receiverName hr.same on]
    rfl

/-- What a super call does that starts in one world and has looked its definition up in another. -/
structure Resumption (host : Host Code σ) (performer : Performer Code σ) (on : Receiver)
    (name : String) (args : List (Value Code)) (w v : World Code σ) : Prop where
  /-- The lookup changes nothing but what is remembered. -/
  same : v.bare = w.bare
  trace : v.trace = w.trace
  found d : w.superDefinition? on name = some d ↔ w.Resumes on name d
  resumed d (next : w.Resumes on name d) :
    ∃ ended, Invoked host performer d.method on args (v.pushFrame ⟨on, name, d.level⟩) ended ∧
      callSuper host performer on name args w = unframed ended
  failed (none : ∀ d, ¬ w.Resumes on name d) :
    callSuper host performer on name args w =
      .ok (.error (.noSuperMethod name (w.receiverName on)), v)
  /-- Frames of other receivers or other names make no difference. -/
  others frames (alike : ({ w with frames } : World Code σ).framesOf on name = w.framesOf on name) d :
    ({ w with frames } : World Code σ).Resumes on name d ↔ w.Resumes on name d

/-- Wherever a run has got, a super call runs the first definition of the name
strictly after the level it starts from, in a frame of that definition's level,
and takes the frame away again. When there is none it fails, and nothing has
run. Frames of other receivers or names make no difference. -/
theorem callSuper_resumes (h : σ) (past : List (Step Code σ)) (host : Host Code σ)
    (performer : Performer Code σ) (on : Receiver) (name : String) (args : List (Value Code)) :
    ∃ v, Resumption host performer on name args ((World.initial h).after past) v := by
  generalize hpast : (World.initial h).after past = w
  have hw : w.Sound := hpast ▸ World.sound_after h past
  have hn : w.Named := hpast ▸ World.named_after h past
  obtain ⟨v, hv, hcall⟩ := callSuper_of_sound hw hn host performer on name args
  have found : ∀ d, w.superDefinition? on name = some d ↔ w.Resumes on name d :=
    fun _ => hw.rooted.superDefinition?_eq_some
  refine ⟨v, hv.same, congrArg (·.trace) hv.same, found, fun d next => ?_, fun none => ?_,
    fun frames alike d => ?_⟩
  · rw [(found d).mpr next] at hcall
    exact ⟨_, invoked_iff.mpr rfl, hcall.trans (popFrame_eq_unframed _ _)⟩
  · have nothing : w.superDefinition? on name = Option.none :=
      Option.eq_none_iff_forall_ne_some.mpr fun d hd => none d ((found d).mp hd)
    rwa [nothing] at hcall
  · have rooted : ({ w with frames } : World Code σ).Rooted := hw.rooted
    rw [← found, ← rooted.superDefinition?_eq_some, World.superDefinition?_of_framesOf w alike]

end Run
end ObjectModel
