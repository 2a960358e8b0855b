import ObjectModel.Proofs.Lookup.Validity
import Mathlib.Data.List.TakeWhile

/-!
# The order of levels

The levels of a receiver, nearest first, and what each of them defines. The
nearest definition is the first one in this order. What a super call runs is
the first one after the level it starts from.
-/
namespace ObjectModel

/-- On a path the part that starts with a class is the path of that class. -/
theorem Chain.dropWhile_ne {parent : ClassId → Option ClassId} {c k : ClassId} {l : List ClassId}
    (hl : Chain parent c l) (hk : k ∈ l) : Chain parent k (l.dropWhile (· ≠ k)) := by
  induction hl with
  | @root c h =>
    obtain rfl := List.mem_singleton.mp hk
    simpa using Chain.root h
  | @link c p l h above ih =>
    by_cases hc : c = k
    · subst hc
      simpa using Chain.link h above
    · rw [List.dropWhile_cons_of_pos (by simpa using hc)]
      exact ih ((List.mem_cons.mp hk).resolve_left (Ne.symm hc))

namespace World
variable {Code σ : Type} {w v : World Code σ}

/-- The levels of a receiver, nearest first. -/
def levels (w : World Code σ) : Receiver → List Level
  | .ofInstance i => .singleton :: .own :: (w.lineage (w.instanceAt i).classId).map .ofClass
  | .ofClass k => (w.lineage k).map .ofClass

/-- The methods that a receiver has on a level. -/
def tableOn (w : World Code σ) : Receiver → Level → MethodDictionary Code
  | .ofInstance i, .singleton => (w.stateAt i).singletonMethods
  | .ofInstance i, .own => (w.stateAt i).methods
  | .ofInstance _, .ofClass k => (w.classAt k).methods
  | .ofClass _, .ofClass k => (w.classAt k).classMethods
  | .ofClass _, _ => {}

/-- What a receiver's level defines under a name. -/
def definitionOn? (w : World Code σ) (on : Receiver) (name : String) (level : Level) :
    Finding Code :=
  ((w.tableOn on level).find? name).map fun m => ⟨m, level⟩

/-- The levels of a receiver strictly after one of them; none when it is not
one of them. -/
def levelsAfter (w : World Code σ) (on : Receiver) (level : Level) : List Level :=
  ((w.levels on).dropWhile (· ≠ level)).drop 1

/-- The level that a super call starts from: that of the innermost running body
of this receiver and name, or else the nearest one with a definition. -/
def startLevel? (w : World Code σ) (on : Receiver) (name : String) : Option Level :=
  (w.runningLevel? on name).or (((w.levels on).findSome? (w.definitionOn? on name)).map (·.level))

/-- The first definition strictly after the level that a super call starts
from. -/
def superDefinition? (w : World Code σ) (on : Receiver) (name : String) : Finding Code :=
  (w.startLevel? on name).bind fun level =>
    (w.levelsAfter on level).findSome? (w.definitionOn? on name)

theorem findSome?_lineage_instance (w : World Code σ) (i : InstanceId) (l : List ClassId)
    (name : String) :
    (l.map Level.ofClass).findSome? (w.definitionOn? (.ofInstance i) name) =
      l.findSome? fun a => ((w.classAt a).methods.find? name).map fun m => ⟨m, .ofClass a⟩ := by
  rw [List.findSome?_map]
  rfl

theorem findSome?_lineage_class (w : World Code σ) (c : ClassId) (l : List ClassId)
    (name : String) :
    (l.map Level.ofClass).findSome? (w.definitionOn? (.ofClass c) name) =
      l.findSome? fun a => ((w.classAt a).classMethods.find? name).map fun m => ⟨m, .ofClass a⟩ := by
  rw [List.findSome?_map]
  rfl

/-- The nearest definition is the first one in the order of levels. -/
theorem findSome?_levels (w : World Code σ) (on : Receiver) (name : String) :
    (w.levels on).findSome? (w.definitionOn? on name) = w.nearest? on name := by
  cases on with
  | ofInstance i =>
    simp only [levels, List.findSome?_cons, findSome?_lineage_instance, nearest?, ownMethod?,
      definitionOn?, tableOn]
    cases (w.stateAt i).singletonMethods.find? name with
    | some m => rfl
    | none => cases (w.stateAt i).methods.find? name <;> rfl
  | ofClass k => exact findSome?_lineage_class w k _ name

/-- After a class of a lineage comes the lineage of its parent. -/
theorem Rooted.lineage_after (hw : w.Rooted) (c k : ClassId) :
    ((w.lineage c).dropWhile (· ≠ k)).drop 1 = ((w.parentWithin? c k).map w.lineage).getD [] := by
  unfold parentWithin?
  by_cases hk : k ∈ w.lineage c
  · rw [if_pos (descendsFrom_iff.mpr hk)]
    have above := (hw.chain c).dropWhile_ne hk
    revert above
    generalize (w.lineage c).dropWhile (· ≠ k) = l
    intro above
    cases above with
    | root h =>
      have hp : (w.classAt k).parent = none := h
      rw [hp]
      rfl
    | link h above =>
      have hp : (w.classAt k).parent = some _ := h
      rw [hp]
      exact (lineage_eq above).symm
  · rw [if_neg (mt descendsFrom_iff.mp hk)]
    have hnone : (w.lineage c).dropWhile (· ≠ k) = [] := by
      refine List.dropWhile_eq_nil_iff.mpr fun a ha => ?_
      simpa using fun he : a = k => hk (he ▸ ha)
    rw [hnone]
    rfl

theorem dropWhile_map_ofClass (l : List ClassId) (k : ClassId) :
    (l.map Level.ofClass).dropWhile (· ≠ .ofClass k) = (l.dropWhile (· ≠ k)).map .ofClass := by
  rw [List.dropWhile_map]
  congr 2
  funext a
  simp

/-- After the level of a class come the levels of its parent's lineage. -/
theorem Rooted.levelsAfter_ofClass (hw : w.Rooted) (on : Receiver) (k : ClassId) :
    w.levelsAfter on (.ofClass k) =
      (((w.parentWithin? (w.classOf on) k).map w.lineage).getD []).map .ofClass := by
  rw [← hw.lineage_after, levelsAfter, List.map_drop, ← dropWhile_map_ofClass]
  cases on with
  | ofInstance i =>
    rw [levels, List.dropWhile_cons_of_pos (by simp), List.dropWhile_cons_of_pos (by simp)]
    rfl
  | ofClass c => rfl

theorem levelsAfter_own (w : World Code σ) (i : InstanceId) :
    w.levelsAfter (.ofInstance i) .own = (w.lineage (w.instanceAt i).classId).map .ofClass := rfl

theorem levelsAfter_singleton (w : World Code σ) (i : InstanceId) :
    w.levelsAfter (.ofInstance i) .singleton =
      .own :: (w.lineage (w.instanceAt i).classId).map .ofClass := rfl

/-- No other level of a class than that of a class is one of its levels. -/
theorem levelsAfter_class {k : ClassId} {level : Level} (h : ∀ a, level ≠ .ofClass a) :
    w.levelsAfter (.ofClass k) level = [] := by
  have hnone : (w.levels (.ofClass k)).dropWhile (· ≠ level) = [] := by
    refine List.dropWhile_eq_nil_iff.mpr fun l hl => ?_
    obtain ⟨a, _, rfl⟩ := List.mem_map.mp hl
    simpa using (h a).symm
  rw [levelsAfter, hnone]
  rfl

/-- No level comes twice. -/
theorem Rooted.nodup_levels (hw : w.Rooted) (on : Receiver) : (w.levels on).Nodup := by
  have hline : ∀ k, ((w.lineage k).map Level.ofClass).Nodup := by
    intro k
    refine List.Pairwise.map _ ?_ (hw.chain k).nodup
    intro a b hne he
    exact hne (Level.ofClass.inj he)
  cases on with
  | ofInstance i => simp [levels, hline]
  | ofClass k => exact hline k

/-- A level that defines a name gives its own place as that of the definition. -/
theorem definitionOn?_eq_some {on : Receiver} {name : String} {level : Level}
    {d : Definition Code} :
    w.definitionOn? on name level = some d ↔
      d.level = level ∧ (w.tableOn on level).find? name = some d.method := by
  rw [definitionOn?, Option.map_eq_some_iff]
  constructor
  · rintro ⟨m, hm, rfl⟩
    exact ⟨rfl, hm⟩
  · rintro ⟨rfl, hm⟩
    exact ⟨d.method, hm, rfl⟩

/-- What is defined after the level of a definition is what comes after that
definition. -/
theorem filterMap_after {f : Level → Finding Code} (hf : ∀ a d, f a = some d → d.level = a)
    {l : List Level} (hl : l.Nodup) {before after : List (Definition Code)} {d : Definition Code}
    (h : l.filterMap f = before ++ d :: after) :
    ((l.dropWhile (· ≠ d.level)).drop 1).filterMap f = after := by
  induction l generalizing before with
  | nil => simp at h
  | cons a l ih =>
    obtain ⟨ha, hl⟩ := List.nodup_cons.mp hl
    -- Unless `a` is the level itself, the definition is found among the later ones.
    have skip : ∀ before', l.filterMap f = before' ++ d :: after →
        (((a :: l).dropWhile (· ≠ d.level)).drop 1).filterMap f = after := by
      intro before' h'
      have hd : d ∈ l.filterMap f := by
        rw [h']
        exact List.mem_append_right _ List.mem_cons_self
      obtain ⟨b, hb, hfb⟩ := List.mem_filterMap.mp hd
      have hne : a ≠ d.level := by
        rintro rfl
        rw [hf b d hfb] at ha
        exact ha hb
      rw [List.dropWhile_cons_of_pos (by simpa using hne)]
      exact ih hl h'
    rw [List.filterMap_cons] at h
    cases hfa : f a with
    | none =>
      rw [hfa] at h
      exact skip before h
    | some e =>
      rw [hfa] at h
      cases before with
      | nil =>
        obtain ⟨rfl, rfl⟩ := List.cons.inj h
        rw [List.dropWhile_cons_of_neg (by simp [hf a e hfa])]
        rfl
      | cons b before => exact skip before (List.cons.inj h).2

/-- Definitions found on different levels have different levels. -/
theorem nodup_level_filterMap {f : Level → Finding Code} (hf : ∀ a d, f a = some d → d.level = a)
    {l : List Level} (hl : l.Nodup) : ((l.filterMap f).map (·.level)).Nodup := by
  have hsub : ((l.filterMap f).map (·.level)).Sublist l := by
    clear hl
    induction l with
    | nil => exact .slnil
    | cons a l ih =>
      rw [List.filterMap_cons]
      cases hfa : f a with
      | none => exact ih.cons a
      | some d =>
        rw [List.map_cons, hf a d hfa]
        exact ih.cons_cons a
  exact hl.sublist hsub

theorem lineage_of_classes (h : v.classes = w.classes) : v.lineage = w.lineage := by
  have at_eq : v.classAt = w.classAt := by
    funext k
    rw [classAt, h, classAt]
  have climb_eq : ∀ steps k, v.climb steps k = w.climb steps k := by
    intro steps
    induction steps with
    | zero => intro k; rfl
    | succ steps ih =>
      intro k
      simp only [climb, at_eq, ih]
  funext k
  rw [lineage, h, climb_eq, lineage]

theorem levels_of_records (hc : v.classes = w.classes) (hi : v.instances = w.instances) :
    v.levels = w.levels := by
  funext on
  cases on with
  | ofInstance i => rw [levels, levels, lineage_of_classes hc, instanceAt, hi, instanceAt]
  | ofClass k => rw [levels, levels, lineage_of_classes hc]

theorem definitionOn?_of_records (hc : v.classes = w.classes) (hi : v.instances = w.instances) :
    v.definitionOn? = w.definitionOn? := by
  have table : v.tableOn = w.tableOn := by
    funext on level
    cases on <;> cases level <;> simp only [tableOn, stateAt, instanceAt, classAt, hc, hi]
  funext on name level
  rw [definitionOn?, table, definitionOn?]

theorem receiverName_of_records (hc : v.classes = w.classes) (hi : v.instances = w.instances) :
    v.receiverName = w.receiverName := by
  funext on
  cases on <;> simp only [receiverName, instanceAt, classAt, hc, hi]

theorem hookLevels_of_records (hc : v.classes = w.classes) (hi : v.instances = w.instances) :
    v.hookLevels = w.hookLevels := by
  funext on
  cases on <;> simp only [hookLevels, lineage_of_classes hc, stateAt, instanceAt, classAt, hc, hi]

@[simp] theorem levels_behind {veil : Veil} (w : World Code σ) (on : Receiver) :
    (w.behind veil).levels on = w.levels on := by
  cases on with
  | ofInstance i =>
    simp only [levels, lineage_behind, instanceAt_behind]
    rfl
  | ofClass k => rw [levels, lineage_behind, levels]

@[simp] theorem definitionOn?_behind {veil : Veil} (w : World Code σ) (on : Receiver)
    (name : String) (level : Level) :
    (w.behind veil).definitionOn? on name level = w.definitionOn? on name level := by
  have table : (w.behind veil).tableOn on level = w.tableOn on level := by
    cases on <;> cases level <;> simp only [tableOn, stateAt_behind, classAt_behind] <;> rfl
  rw [definitionOn?, table, definitionOn?]

@[simp] theorem levels_bare (w : World Code σ) (on : Receiver) : w.bare.levels on = w.levels on := by
  rw [bare_eq_behind, levels_behind]

@[simp] theorem definitionOn?_bare (w : World Code σ) (on : Receiver) (name : String)
    (level : Level) : w.bare.definitionOn? on name level = w.definitionOn? on name level := by
  rw [bare_eq_behind, definitionOn?_behind]

theorem bare_definitionOn? (h : v.bare = w.bare) (on : Receiver) (name : String) :
    v.definitionOn? on name = w.definitionOn? on name := by
  funext level
  rw [← definitionOn?_bare, h, definitionOn?_bare]

@[simp] theorem startLevel?_bare (w : World Code σ) (on : Receiver) (name : String) :
    w.bare.startLevel? on name = w.startLevel? on name := by
  rw [startLevel?, runningLevel?_bare, levels_bare, bare_definitionOn? (bare_bare w), startLevel?]

theorem bare_startLevel? (h : v.bare = w.bare) (on : Receiver) (name : String) :
    v.startLevel? on name = w.startLevel? on name := by
  rw [← startLevel?_bare, h, startLevel?_bare]

@[simp] theorem superDefinition?_bare (w : World Code σ) (on : Receiver) (name : String) :
    w.bare.superDefinition? on name = w.superDefinition? on name := by
  simp only [superDefinition?, startLevel?_bare, levelsAfter, levels_bare,
    bare_definitionOn? (bare_bare w)]

theorem bare_superDefinition? (h : v.bare = w.bare) (on : Receiver) :
    v.superDefinition? on = w.superDefinition? on := by
  funext name
  rw [← superDefinition?_bare, h, superDefinition?_bare]

theorem recalled_lookUp (w : World Code σ) (on : Receiver) (name : String) :
    Recalled w (w.lookUp on name).2 := by
  cases on with
  | ofInstance i => exact recalled_lookUpInstance w i name
  | ofClass k => exact recalled_lookUpFrom w _ k name

theorem Sound.lookUp_fst (hw : w.Sound) (on : Receiver) (name : String) :
    (w.lookUp on name).1 = w.nearest? on name := by
  cases on with
  | ofInstance i => exact hw.lookUpInstance_fst i name
  | ofClass k => exact hw.lookUpFrom_fst _ k name

theorem recalled_lookUpAboveClass (w : World Code σ) (side : Side) (k above : ClassId)
    (name : String) : Recalled w (w.lookUpAboveClass side k above name).2 := by
  unfold lookUpAboveClass
  split
  · exact recalled_lookUpFrom w _ _ _
  · exact .refl w

theorem Sound.lookUpAboveClass_fst (hw : w.Sound) (side : Side) (k above : ClassId)
    (name : String) :
    (w.lookUpAboveClass side k above name).1 =
      (w.parentWithin? k above).bind fun p => w.definition? side p name := by
  unfold lookUpAboveClass
  cases w.parentWithin? k above with
  | some p => exact hw.lookUpFrom_fst side p name
  | none => rfl

theorem recalled_lookUpAbove (w : World Code σ) (on : Receiver) (level : Level) (name : String) :
    Recalled w (w.lookUpAbove on level name).2 := by
  unfold lookUpAbove
  split
  · split
    · exact .refl w
    · exact recalled_lookUpFrom w _ _ _
  · exact recalled_lookUpFrom w _ _ _
  · exact recalled_lookUpAboveClass w _ _ _ _
  · exact recalled_lookUpAboveClass w _ _ _ _
  · exact .refl w

/-- A lookup above a level finds the first definition after it. -/
theorem Sound.lookUpAbove_fst (hw : w.Sound) (on : Receiver) (level : Level) (name : String) :
    (w.lookUpAbove on level name).1 =
      (w.levelsAfter on level).findSome? (w.definitionOn? on name) := by
  cases on with
  | ofInstance i =>
    cases level with
    | singleton =>
      rw [levelsAfter_singleton, List.findSome?_cons, findSome?_lineage_instance, lookUpAbove,
        definitionOn?, tableOn]
      cases (w.stateAt i).methods.find? name with
      | some m => rfl
      | none => exact hw.lookUpFrom_fst _ _ _
    | own =>
      rw [levelsAfter_own, findSome?_lineage_instance]
      exact hw.lookUpFrom_fst _ _ _
    | ofClass k =>
      rw [hw.rooted.levelsAfter_ofClass, findSome?_lineage_instance]
      refine (hw.lookUpAboveClass_fst _ _ _ _).trans ?_
      rw [classOf]
      cases w.parentWithin? (w.instanceAt i).classId k <;> rfl
  | ofClass c =>
    cases level with
    | singleton =>
      rw [levelsAfter_class fun _ h => by contradiction]
      rfl
    | own =>
      rw [levelsAfter_class fun _ h => by contradiction]
      rfl
    | ofClass k =>
      rw [hw.rooted.levelsAfter_ofClass, findSome?_lineage_class]
      refine (hw.lookUpAboveClass_fst _ _ _ _).trans ?_
      rw [classOf]
      cases w.parentWithin? c k <;> rfl

theorem recalled_superLevel (w : World Code σ) (on : Receiver) (name : String) :
    Recalled w (w.superLevel on name).2 := by
  unfold superLevel
  split
  · exact .refl w
  · exact recalled_lookUp w on name

theorem Sound.superLevel_fst (hw : w.Sound) (on : Receiver) (name : String) :
    (w.superLevel on name).1 = w.startLevel? on name := by
  unfold superLevel startLevel?
  cases w.runningLevel? on name with
  | some level => rfl
  | none =>
    change (w.lookUp on name).1.map _ = _
    rw [hw.lookUp_fst, findSome?_levels, Option.none_or]

theorem recalled_lookUpSuper (w : World Code σ) (on : Receiver) (name : String) :
    Recalled w (w.lookUpSuper on name).2 := by
  have h := recalled_superLevel w on name
  unfold lookUpSuper
  generalize w.superLevel on name = r at h
  obtain ⟨_ | level, v⟩ := r
  · exact h
  · exact h.trans (recalled_lookUpAbove v on level name)

/-- A super call runs the first definition after the level it starts from. -/
theorem Sound.lookUpSuper_fst (hw : w.Sound) (on : Receiver) (name : String) :
    (w.lookUpSuper on name).1 = w.superDefinition? on name := by
  have h := recalled_superLevel w on name
  have hs := hw.superLevel_fst on name
  rw [← bare_superDefinition? h.same]
  rw [lookUpSuper, superDefinition?, bare_startLevel? h.same, ← hs]
  generalize w.superLevel on name = r at h
  obtain ⟨_ | level, v⟩ := r
  · rfl
  · exact (h.sound hw).lookUpAbove_fst on level name

end World
end ObjectModel
