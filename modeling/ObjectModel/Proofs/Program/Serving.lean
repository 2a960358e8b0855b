import ObjectModel.Proofs.Lineage.Stamps
import ObjectModel.Proofs.Lookup.Asking
import Mathlib.Data.List.Induction

/-!
# What caches serve along a run

A run is taken apart into moves: a move asks one cache, or is a step that looks
nothing up. So the history of a cache says what it can answer. These are the
names that it has been asked for since its owner was made, as long as nothing in
the lineage of the owner has been mutated after that.
-/
namespace ObjectModel
variable {Code σ : Type}

open Relation (ReflTransGen TransGen)

namespace World
variable {w v : World Code σ} {c : CacheRef} {on : Receiver} {spared : Option InstanceId}

theorem cacheAt_of_not_has (h : ¬ w.Has c.owner) : w.cacheAt c = {} := by
  cases c with
  | ofClass side k =>
    rw [cacheAt, classAt_of_not_has h]
    cases side <;> rfl
  | ofInstance i =>
    rw [cacheAt, stateAt, instanceAt_of_not_has h]
    rfl

theorem Quiet.cacheAt (h : Quiet w v) (c : CacheRef) : v.cacheAt c = w.cacheAt c := by
  cases c with
  | ofClass side k => exact (classAt_congr (h.classes k)).2.2.1 side
  | ofInstance i => exact congrArg (·.state.cache) (h.instances i)

theorem Redefined.cacheAt (h : Redefined on w v) (hc : c.owner ≠ on) :
    v.cacheAt c = w.cacheAt c := by
  cases c with
  | ofClass side k => exact (classAt_congr (h.classes k hc)).2.2.1 side
  | ofInstance i => exact congrArg (·.state.cache) (h.instances i hc)

theorem Redefined.standing (h : Redefined on w v) (c : CacheRef) :
    (v.cacheAt c).standing = (w.cacheAt c).standing := by
  cases c with
  | ofClass side k => exact h.classCache k side
  | ofInstance i => exact h.stateCache i

theorem Redefined.entries (h : Redefined on w v) (hc : c.owner = on) :
    (v.cacheAt c).entries = {} := by
  cases c with
  | ofClass side k => exact h.classBlank k side hc
  | ofInstance i => exact h.stateBlank i hc

theorem Renewed.cacheAt {i : InstanceId} (h : Renewed i w v) (hc : c.owner ≠ .ofInstance i) :
    v.cacheAt c = w.cacheAt c := by
  cases c with
  | ofClass side k => exact (classAt_congr (h.classes k)).2.2.1 side
  | ofInstance j => exact congrArg (·.state.cache) (h.instances j fun he => hc (congrArg _ he))

theorem standing_of_touched (h : ReflTransGen (Touched on) w v) (c : CacheRef) :
    (v.cacheAt c).standing = (w.cacheAt c).standing := by
  induction h with
  | refl => rfl
  | @tail v u _ hstep ih =>
    by_cases ho : v.Has on
    · exact ((hstep.redefined ho).standing c).trans ih
    · rw [(hstep.quiet ho).cacheAt, ih]

/-- Redefinitions put nothing into a cache. -/
theorem entries_of_touched (h : ReflTransGen (Touched on) w v) (c : CacheRef) :
    (v.cacheAt c).entries = (w.cacheAt c).entries ∨ (v.cacheAt c).entries = {} := by
  induction h with
  | refl => exact .inl rfl
  | @tail v u _ hstep ih =>
    by_cases ho : v.Has on
    · by_cases hc : c.owner = on
      · exact .inr ((hstep.redefined ho).entries hc)
      · rwa [(hstep.redefined ho).cacheAt hc]
    · rwa [(hstep.quiet ho).cacheAt]

/-- Only what is redefined, and is there, forgets. -/
theorem cacheAt_of_touched (h : ReflTransGen (Touched on) w v) (hc : c.owner = on → ¬ w.Has on) :
    v.cacheAt c = w.cacheAt c := by
  induction h with
  | refl => rfl
  | @tail v u hrest hstep ih =>
    by_cases ho : v.Has on
    · have other : c.owner ≠ on := fun he => hc he ((has_of_touched hrest on).mp ho)
      exact ((hstep.redefined ho).cacheAt other).trans ih
    · exact ((hstep.quiet ho).cacheAt c).trans ih

theorem cacheAt_of_calm (h : ReflTransGen (Calm spared) w v)
    (hc : ∀ i, spared = some i → c.owner ≠ .ofInstance i) : v.cacheAt c = w.cacheAt c := by
  induction h with
  | refl => rfl
  | tail _ hstep ih =>
    cases hstep with
    | quiet h => exact (h.cacheAt c).trans ih
    | renewed i hi h => exact (h.cacheAt (hc i hi)).trans ih

theorem kept_or_blank_of_calm (h : ReflTransGen (Calm spared) w v) (c : CacheRef) :
    v.cacheAt c = w.cacheAt c ∨ v.cacheAt c = {} := by
  induction h with
  | refl => exact .inl rfl
  | tail _ hstep ih =>
    cases hstep with
    | quiet h =>
      rw [h.cacheAt c]
      exact ih
    | renewed i hi h =>
      by_cases ho : c.owner = .ofInstance i
      · cases c with
        | ofClass side k => contradiction
        | ofInstance j =>
          obtain rfl := Receiver.ofInstance.inj ho
          exact .inr (congrArg (·.cache) h.state)
      · rw [h.cacheAt ho]
        exact ih

theorem blank_of_calm (h : ReflTransGen (Calm spared) w v) (hc : w.cacheAt c = {}) :
    v.cacheAt c = {} :=
  (kept_or_blank_of_calm h c).elim (·.trans hc) id

theorem cacheAt_retire (w : World Code σ) (i : InstanceId) :
    (w.retire i).2.cacheAt (.ofInstance i) = {} := by
  have blank := congrArg (·.cache) (renewed_modifyInstance w i).state
  simp only [retire]
  split <;> exact blank

end World

namespace Step
variable {w : World Code σ} {s : Step Code σ} {c : CacheRef}

open World (Calm)

/-- Whether a step looks a method up. -/
def looksUp : Step Code σ → Bool
  | perform op => op.looksUp
  | lookUp _ _ | lookUpSuper _ _ => true
  | _ => false

theorem calm_next (h : s.redefines? w = none) (hl : s.looksUp = false) :
    ReflTransGen (Calm (s.renews? w)) w (s.next w) := by
  cases s with
  | perform op => exact Operation.calm_apply h hl
  | assign i name v =>
    let f : ObjectState Code → ObjectState Code := fun s => { s with vars := s.vars.insert name v }
    have hf : ∀ s, (f s).lookupPart = s.lookupPart := fun _ => rfl
    exact .single (.quiet (World.quiet_modifyState hf w i))
  | record e => exact .single (.quiet (World.quiet_of_records rfl rfl rfl))
  | push f => exact .single (.quiet (World.quiet_of_records rfl rfl rfl))
  | pop => exact .single (.quiet (World.quiet_of_records rfl rfl rfl))
  | _ => contradiction

/-- A cache is the same after a step that looks nothing up, unless its owner is
mutated or given up. -/
theorem cacheAt_next (hw : w.Sound) (hl : s.looksUp = false) (hx : w.Has c.owner)
    (hm : ¬ s.Mutates w c.owner) (hr : ¬ s.Retires c.owner) :
    (s.next w).cacheAt c = w.cacheAt c := by
  cases h : s.redefines? w with
  | some on =>
    refine World.cacheAt_of_touched (touched_next hw h).to_reflTransGen fun he _ => hm ⟨hx, ?_⟩
    rw [he, h]
  | none => exact World.cacheAt_of_calm (calm_next h hl) (World.renews_ne hx hr)

theorem standing_next (hw : w.Sound) (hl : s.looksUp = false) (hx : w.Has c.owner)
    (hr : ¬ s.Retires c.owner) : ((s.next w).cacheAt c).standing = (w.cacheAt c).standing := by
  cases h : s.redefines? w with
  | some on => exact World.standing_of_touched (touched_next hw h).to_reflTransGen c
  | none => rw [World.cacheAt_of_calm (calm_next h hl) (World.renews_ne hx hr)]

/-- A cache starts blank. -/
theorem cacheAt_next_of_not_has (hw : w.Sound) (hl : s.looksUp = false) (hx : ¬ w.Has c.owner) :
    (s.next w).cacheAt c = {} := by
  have before := World.cacheAt_of_not_has hx
  cases h : s.redefines? w with
  | some on =>
    refine (World.cacheAt_of_touched (touched_next hw h).to_reflTransGen ?_).trans before
    rintro rfl
    exact hx
  | none => exact World.blank_of_calm (calm_next h hl) before

theorem cacheAt_next_of_retires (hr : s.Retires c.owner) : (s.next w).cacheAt c = {} := by
  obtain ⟨i, rfl, hi⟩ := hr
  cases c with
  | ofClass side k => contradiction
  | ofInstance j =>
    obtain rfl := Receiver.ofInstance.inj hi
    exact World.cacheAt_retire w j

end Step

/-- A part of a run that asks one cache, or none. -/
inductive Move (Code σ : Type) where
  | ask (c : CacheRef) (name : String)
  | step (s : Step Code σ)

namespace Move
variable {w : World Code σ}

/-- The world after a move. -/
def next (w : World Code σ) : Move Code σ → World Code σ
  | ask c name => w.ask c name
  | step s => s.next w

/-- A move changes what somebody in the lineage of a receiver defines, renames or
descends from, or gives the receiver up. -/
def Outdates (w : World Code σ) (x : Receiver) : Move Code σ → Prop
  | ask _ _ => False
  | step s => (∃ on, s.Mutates w on ∧ w.Inherits x on) ∨ s.Retires x

def Retires (x : Receiver) : Move Code σ → Prop
  | ask _ _ => False
  | step s => s.Retires x

/-- Whether a move asks a cache. -/
def asks (c : CacheRef) : Move Code σ → Bool
  | ask other _ => other = c
  | step _ => false

/-- A move that is not a question looks nothing up. -/
def Plain : Move Code σ → Prop
  | ask _ _ => True
  | step s => s.looksUp = false

/-- Questions to caches, one after another. -/
def asking (caches : List CacheRef) (name : String) : List (Move Code σ) :=
  caches.map (ask · name)

end Move

/-- The moves of a step: the questions that a lookup asks, or the step itself. -/
def Step.moves (w : World Code σ) : Step Code σ → List (Move Code σ)
  | perform (.responds (.ofInstance i) name) =>
    Move.asking (w.asksInstance i (w.target (.ofInstance i) name)) (w.target (.ofInstance i) name)
  | perform (.responds (.ofClass k) name) => Move.asking (w.asksFrom .classSide k) name
  | perform (.resolve i name) =>
    Move.asking (w.asksInstance i (w.target (.ofInstance i) name)) (w.target (.ofInstance i) name)
  | lookUp on name => Move.asking (w.asks on name) name
  | lookUpSuper on name => Move.asking (w.asksSuper on name) name
  | s => [.step s]

namespace World
variable {start w v : World Code σ} {past : List (Move Code σ)} {m : Move Code σ}
  {c : CacheRef} {name : String} {x : Receiver}

/-- The world after moves. -/
def play (w : World Code σ) (moves : List (Move Code σ)) : World Code σ :=
  moves.foldl Move.next w

/-- The moves of a run. -/
def moves (w : World Code σ) : List (Step Code σ) → List (Move Code σ)
  | [] => []
  | s :: steps => s.moves w ++ (s.next w).moves steps

@[simp] theorem play_nil (w : World Code σ) : w.play [] = w := rfl

@[simp] theorem play_cons (w : World Code σ) (m : Move Code σ) (rest : List (Move Code σ)) :
    w.play (m :: rest) = (m.next w).play rest := rfl

theorem play_append (w : World Code σ) (a b : List (Move Code σ)) :
    w.play (a ++ b) = (w.play a).play b :=
  List.foldl_append

theorem play_concat (w : World Code σ) (past : List (Move Code σ)) (m : Move Code σ) :
    w.play (past ++ [m]) = m.next (w.play past) :=
  play_append w past [m]

theorem play_asking (w : World Code σ) (caches : List CacheRef) (name : String) :
    w.play (Move.asking caches name) = w.askAll caches name :=
  List.foldl_map

/-- A step that looks something up asks caches for a name, and any other step is a move by
itself. -/
theorem moves_cases (w : World Code σ) (s : Step Code σ) :
    (s.moves w = [.step s] ∧ s.looksUp = false) ∨
      ∃ caches name, s.moves w = Move.asking caches name ∧
        (w.Sound → s.next w = w.askAll caches name) := by
  cases s with
  | lookUp on name => exact .inr ⟨_, _, rfl, fun hw => hw.lookUp_snd on name⟩
  | lookUpSuper on name => exact .inr ⟨_, _, rfl, fun hw => hw.lookUpSuper_snd on name⟩
  | perform op =>
    cases op with
    | responds on name =>
      cases on with
      | ofInstance i => exact .inr ⟨_, _, rfl, fun hw => hw.lookUpInstance_snd i _⟩
      | ofClass k => exact .inr ⟨_, _, rfl, fun _ => lookUpFrom_snd w .classSide k name⟩
    | resolve i name => exact .inr ⟨_, _, rfl, fun hw => hw.lookUpInstance_snd i _⟩
    | _ => exact .inl ⟨rfl, rfl⟩
  | _ => exact .inl ⟨rfl, rfl⟩

theorem Sound.play_step (hw : w.Sound) (s : Step Code σ) : w.play (s.moves w) = s.next w := by
  rcases moves_cases w s with ⟨itself, -⟩ | ⟨caches, name, asked, next⟩
  · rw [itself]
    rfl
  · rw [asked, play_asking, next hw]

theorem Sound.play_moves (hw : w.Sound) (steps : List (Step Code σ)) :
    w.play (w.moves steps) = w.after steps := by
  induction steps generalizing w with
  | nil => rfl
  | cons s steps ih => rw [moves, play_append, hw.play_step, ih (hw.next s), after_cons]

theorem plain_asking (caches : List CacheRef) (name : String) :
    ∀ m ∈ (Move.asking caches name : List (Move Code σ)), m.Plain := by
  intro m hm
  obtain ⟨c, -, rfl⟩ := List.mem_map.mp hm
  trivial

theorem plain_step (w : World Code σ) (s : Step Code σ) : ∀ m ∈ s.moves w, m.Plain := by
  rcases moves_cases w s with ⟨itself, plain⟩ | ⟨caches, name, asked, -⟩
  · rw [itself]
    intro m hm
    obtain rfl := List.mem_singleton.mp hm
    exact plain
  · rw [asked]
    exact plain_asking caches name

theorem plain_moves (w : World Code σ) (steps : List (Step Code σ)) :
    ∀ m ∈ w.moves steps, m.Plain := by
  induction steps generalizing w with
  | nil => exact fun _ hm => by contradiction
  | cons s steps ih =>
    intro m hm
    rcases List.mem_append.mp hm with hm | hm
    · exact plain_step w s m hm
    · exact ih (s.next w) m hm

theorem Sound.move (hw : w.Sound) (m : Move Code σ) : (m.next w).Sound := by
  cases m with
  | ask c name => exact (recalled_ask w c name).sound hw
  | step s => exact hw.next s

theorem Sound.play (hw : w.Sound) (moves : List (Move Code σ)) : (w.play moves).Sound := by
  induction moves generalizing w with
  | nil => exact hw
  | cons m rest ih => exact ih (hw.move m)

theorem Sound.has_move (hw : w.Sound) (hx : w.Has x) (m : Move Code σ) : (m.next w).Has x := by
  cases m with
  | ask c name => exact (recalled_ask w c name).has x hx
  | step s => exact hw.has_next hx s

theorem Sound.has_play (hw : w.Sound) (hx : w.Has x) (moves : List (Move Code σ)) :
    (w.play moves).Has x := by
  induction moves generalizing w with
  | nil => exact hx
  | cons m rest ih => exact ih (hw.move m) (hw.has_move hx m)

/-- A cache has been asked for a name after its owner was made, and nothing has
outdated its answer in between. -/
def AskedSince (start : World Code σ) (past : List (Move Code σ)) (c : CacheRef)
    (name : String) : Prop :=
  ∃ before between, past = before ++ .ask c name :: between ∧ (start.play before).Has c.owner ∧
    ∀ earlier m later, between = earlier ++ m :: later →
      ¬ m.Outdates (start.play (before ++ .ask c name :: earlier)) c.owner

theorem not_askedSince_nil : ¬ start.AskedSince [] c name := by
  rintro ⟨before, between, h, -⟩
  simp at h

/-- A question is remembered until it is outdated. -/
theorem askedSince_concat :
    start.AskedSince (past ++ [m]) c name ↔
      (m = .ask c name ∧ (start.play past).Has c.owner) ∨
        (start.AskedSince past c name ∧ ¬ m.Outdates (start.play past) c.owner) := by
  constructor
  · rintro ⟨before, between, h, hx, kept⟩
    rcases List.eq_nil_or_concat' between with rfl | ⟨between, last, rfl⟩
    · obtain ⟨rfl, hm⟩ := List.append_inj' h rfl
      exact .inl ⟨List.singleton_inj.mp hm, hx⟩
    · rw [← List.cons_append, ← List.append_assoc] at h
      obtain ⟨rfl, hm⟩ := List.append_inj' h rfl
      obtain rfl := List.singleton_inj.mp hm
      refine .inr ⟨⟨before, between, rfl, hx, fun earlier m' later hb => ?_⟩, ?_⟩
      · exact kept earlier m' (later ++ [m]) (by rw [hb]; simp)
      · exact kept between m [] rfl
  · rintro (⟨rfl, hx⟩ | ⟨⟨before, between, rfl, hx, kept⟩, hm⟩)
    · refine ⟨past, [], rfl, hx, fun earlier m' later hb => ?_⟩
      simp at hb
    · refine ⟨before, between ++ [m], by simp, hx, fun earlier m' later hb => ?_⟩
      rcases List.eq_nil_or_concat' later with rfl | ⟨later, last, rfl⟩
      · obtain ⟨rfl, hl⟩ := List.append_inj' hb rfl
        obtain rfl := List.singleton_inj.mp hl
        exact hm
      · rw [← List.cons_append, ← List.append_assoc] at hb
        obtain ⟨hb, -⟩ := List.append_inj' hb rfl
        exact kept earlier m' later hb

theorem AskedSince.has (h : start.AskedSince past c name) (hs : start.Sound) :
    (start.play past).Has c.owner := by
  obtain ⟨before, between, rfl, hx, -⟩ := h
  rw [play_append]
  exact (hs.play before).has_play hx _

/-- A cache is not ahead of its owner, and it can answer exactly what it has been
asked for and what is not outdated. -/
structure Remembers (start : World Code σ) (past : List (Move Code σ)) (c : CacheRef) : Prop where
  observed : ((start.play past).cacheAt c).validAt ≤ (start.play past).stampOf c.owner
  answers : ∀ name, (((start.play past).cacheAt c).peek name
    ((start.play past).stampOf c.owner)).isSome ↔ start.AskedSince past c name

theorem cacheAt_ask_self (h : w.Has c.owner) (name : String) :
    (w.ask c name).cacheAt c = (w.cacheAt c).ask name (w.stampOf c.owner) (w.found? c name) :=
  cacheAt_putCache_self h _

theorem cacheAt_ask_of_ne {other : CacheRef} (h : ¬ (other = c ∧ w.Has c.owner)) (name : String) :
    (w.ask other name).cacheAt c = w.cacheAt c := by
  by_cases he : other = c
  · subst he
    rw [ask, putCache_of_not_has fun hx => h ⟨rfl, hx⟩]
  · exact cacheAt_putCache_of_ne (Ne.symm he) _

theorem stampOf_ask (w : World Code σ) (c : CacheRef) (name : String) (x : Receiver) :
    (w.ask c name).stampOf x = w.stampOf x :=
  bare_stampOf (recalled_ask w c name).same x

/-- A blank cache answers nothing, and has observed nothing. -/
theorem Remembers.of_blank (h : (start.play past).cacheAt c = {})
    (hn : ∀ name, ¬ start.AskedSince past c name) : Remembers start past c := by
  refine ⟨by rw [h]; exact Nat.zero_le _, fun name => ?_⟩
  rw [h, iff_false_right (hn name), Option.not_isSome_iff_eq_none]
  unfold LookupCache.peek
  split <;> rfl

namespace Remembers

theorem ask (h : Remembers start past c) (other : CacheRef) (name : String) :
    Remembers start (past ++ [.ask other name]) c := by
  by_cases hself : other = c ∧ (start.play past).Has c.owner
  · obtain ⟨rfl, hx⟩ := hself
    refine ⟨?_, fun n => ?_⟩ <;>
      rw [play_concat, Move.next, stampOf_ask, cacheAt_ask_self hx]
    · exact LookupCache.validAt_ask h.observed
    · rw [LookupCache.peek_ask h.observed, askedSince_concat, h.answers]
      simp [hx, Move.Outdates]
  · refine ⟨?_, fun n => ?_⟩ <;>
      rw [play_concat, Move.next, stampOf_ask, cacheAt_ask_of_ne hself]
    · exact h.observed
    · rw [askedSince_concat, h.answers]
      have different : ¬ ((Move.ask other name : Move Code σ) = .ask c n ∧
          (start.play past).Has c.owner) := by
        rintro ⟨he, hx⟩
        injection he with hc
        exact hself ⟨hc, hx⟩
      rw [or_iff_right different]
      exact (and_iff_left id).symm

/-- What a mutation in the lineage leaves of a cache is from before it. -/
theorem mutated (h : Remembers start past c) (hs : start.Sound) {s : Step Code σ} {on : Receiver}
    (hm : s.Mutates (start.play past) on) (hi : (start.play past).Inherits c.owner on) :
    Remembers start (past ++ [.step s]) c := by
  have hw := hs.play past
  have same : ((s.next (start.play past)).cacheAt c).standing =
      ((start.play past).cacheAt c).standing :=
    standing_of_touched (Step.touched_next hw hm.2).to_reflTransGen c
  have observed : ((s.next (start.play past)).cacheAt c).validAt ≤ (start.play past).clock.latest :=
    calc
      ((s.next (start.play past)).cacheAt c).validAt
      _ = ((start.play past).cacheAt c).validAt := congrArg (·.validAt) same
      _ ≤ (start.play past).stampOf c.owner := h.observed
      _ ≤ (start.play past).clock.latest := hw.stampOf_le _
  have later := hw.stampOf_mutated hm hi
  refine ⟨?_, fun name => ?_⟩ <;> rw [play_concat, Move.next]
  · exact Nat.le_of_lt (Nat.lt_of_le_of_lt observed later)
  · have outdated : (Move.step s).Outdates (start.play past) c.owner := .inl ⟨on, hm, hi⟩
    rw [askedSince_concat, LookupCache.peek, if_neg (by omega)]
    simp [outdated]

/-- Other steps leave a cache alone. -/
theorem kept (h : Remembers start past c) (hs : start.Sound) {s : Step Code σ}
    (hl : s.looksUp = false) (hx : (start.play past).Has c.owner)
    (ho : ¬ (Move.step s).Outdates (start.play past) c.owner) :
    Remembers start (past ++ [.step s]) c := by
  have hw := hs.play past
  have hr : ¬ s.Retires c.owner := fun hr => ho (.inr hr)
  have cache : (s.next (start.play past)).cacheAt c = (start.play past).cacheAt c :=
    Step.cacheAt_next hw hl hx (fun hm => ho (.inl ⟨_, hm, .inl rfl⟩)) hr
  have stamp : (s.next (start.play past)).stampOf c.owner = (start.play past).stampOf c.owner := by
    by_cases hm : ∃ on, s.Mutates (start.play past) on
    · obtain ⟨on, hm⟩ := hm
      exact hw.stampOf_elsewhere hm fun hi => ho (.inl ⟨on, hm, hi⟩)
    · exact hw.stampOf_idle (fun on hon => hm ⟨on, hon⟩) hx hr
  refine ⟨?_, fun name => ?_⟩ <;> rw [play_concat, Move.next, cache, stamp]
  · exact h.observed
  · rw [askedSince_concat, h.answers]
    simp [ho]

theorem concat (h : Remembers start past c) (hs : start.Sound) {m : Move Code σ} (hm : m.Plain) :
    Remembers start (past ++ [m]) c := by
  cases m with
  | ask other name => exact h.ask other name
  | step s =>
    have hw := hs.play past
    by_cases hx : (start.play past).Has c.owner
    · by_cases ho : (Move.step s).Outdates (start.play past) c.owner
      · rcases ho with ⟨on, hmut, hi⟩ | hr
        · exact h.mutated hs hmut hi
        · refine .of_blank ?_ fun name hn => ?_
          · rw [play_concat]
            exact Step.cacheAt_next_of_retires hr
          · rcases askedSince_concat.mp hn with ⟨he, -⟩ | ⟨-, hk⟩
            · contradiction
            · exact hk (.inr hr)
      · exact h.kept hs hm hx ho
    · refine .of_blank ?_ fun name hn => ?_
      · rw [play_concat]
        exact Step.cacheAt_next_of_not_has hw hm hx
      · rcases askedSince_concat.mp hn with ⟨he, -⟩ | ⟨hk, -⟩
        · contradiction
        · exact hx (hk.has hs)

end Remembers

theorem remembers_play (h : σ) (hp : ∀ m ∈ past, m.Plain) (c : CacheRef) :
    Remembers (initial h : World Code σ) past c := by
  induction past using List.reverseRecOn with
  | nil =>
    refine .of_blank ?_ fun _ => not_askedSince_nil
    cases c with
    | ofClass side k =>
      rw [play_nil, cacheAt, classAt_initial]
      cases side <;> rfl
    | ofInstance i =>
      rw [play_nil, cacheAt, stateAt_initial]
      rfl
  | append_singleton past m ih =>
    refine (ih fun m' hm' => hp m' (List.mem_append_left _ hm')).concat (sound_initial h) ?_
    exact hp m (List.mem_append_right _ List.mem_cons_self)

/-- The number of questions that a cache has counted. -/
def timesAsked (w : World Code σ) (c : CacheRef) : Nat :=
  (w.cacheAt c).counters.hits + (w.cacheAt c).counters.misses

theorem Sound.timesAsked_move (hw : w.Sound) (hx : w.Has c.owner) (hm : m.Plain)
    (hr : ¬ m.Retires c.owner) :
    (m.next w).timesAsked c = w.timesAsked c + if m.asks c then 1 else 0 := by
  unfold timesAsked
  cases m with
  | ask other name =>
    by_cases he : other = c
    · subst he
      rw [Move.next, cacheAt_ask_self hx, LookupCache.counters_ask]
      simp [Move.asks]
    · rw [Move.next, cacheAt_ask_of_ne fun h => he h.1]
      simp [Move.asks, he]
  | step s =>
    have same := Step.standing_next hw hm hx hr
    have hits : ((s.next w).cacheAt c).counters.hits = (w.cacheAt c).counters.hits :=
      congrArg (·.counters.hits) same
    have misses : ((s.next w).cacheAt c).counters.misses = (w.cacheAt c).counters.misses :=
      congrArg (·.counters.misses) same
    rw [Move.next, hits, misses]
    rfl

theorem Sound.timesAsked_play (hw : w.Sound) (hx : w.Has c.owner) {life : List (Move Code σ)}
    (hp : ∀ m ∈ life, m.Plain) (hr : ∀ m ∈ life, ¬ m.Retires c.owner) :
    (w.play life).timesAsked c = w.timesAsked c + life.countP (·.asks c) := by
  induction life generalizing w with
  | nil => rfl
  | cons m life ih =>
    have first := hw.timesAsked_move hx (hp m List.mem_cons_self) (hr m List.mem_cons_self)
    have rest := ih (hw.move m) (hw.has_move hx m) (fun t ht => hp t (List.mem_cons_of_mem _ ht))
      fun t ht => hr t (List.mem_cons_of_mem _ ht)
    rw [play_cons, rest, first, List.countP_cons]
    omega

/-- Nothing has been asked of what is just made. -/
theorem Sound.timesAsked_birth (hw : w.Sound) (hm : m.Plain) (hx : ¬ w.Has c.owner)
    (hb : (m.next w).Has c.owner) : (m.next w).timesAsked c = 0 := by
  cases m with
  | ask other name =>
    rw [Move.next, ← has_bare, (recalled_ask w other name).same, has_bare] at hb
    contradiction
  | step s =>
    rw [timesAsked, Move.next, Step.cacheAt_next_of_not_has hw hm hx]
    rfl

/-- A run is its moves, and wherever it has got, the stamp that a cache has observed
is not ahead of its owner. A question to a cache is a hit if the cache has been asked
for the name since its owner was made, and nobody in the lineage of the owner, as it
was then, has been mutated in between; a hit only counts. Otherwise the question is a
miss, and what is found is remembered. Hits and misses together are the questions
that have been asked since the owner was made. -/
theorem caches_serve_until_outdated (h : σ) (steps : List (Step Code σ)) :
    let start : World Code σ := initial h
    start.play (start.moves steps) = start.after steps ∧
    ∀ past rest, start.moves steps = past ++ rest → ∀ c,
      let w := start.play past
      (w.cacheAt c).validAt ≤ w.stampOf c.owner ∧
      (w.Has c.owner → ∀ name,
        let v := w.ask c name
        (start.AskedSince past c name → v.cacheAt c = (w.cacheAt c).count true) ∧
        (¬ start.AskedSince past c name →
          (v.cacheAt c).counters.hits = (w.cacheAt c).counters.hits ∧
          (v.cacheAt c).counters.misses = (w.cacheAt c).counters.misses + 1 ∧
          (v.cacheAt c).peek name (v.stampOf c.owner) = some (w.found? c name))) ∧
      ∀ before birth life, past = before ++ birth :: life → ¬ (start.play before).Has c.owner →
        (start.play (before ++ [birth])).Has c.owner → (∀ m ∈ life, ¬ m.Retires c.owner) →
        (w.cacheAt c).counters.hits + (w.cacheAt c).counters.misses = life.countP (·.asks c) := by
  intro start
  have hs : start.Sound := sound_initial h
  refine ⟨hs.play_moves steps, fun past rest hmoves c => ?_⟩
  have plain : ∀ m ∈ past, m.Plain := fun m hm =>
    plain_moves start steps m (by rw [hmoves]; exact List.mem_append_left _ hm)
  have hr : Remembers start past c := remembers_play h plain c
  refine ⟨hr.observed, fun hx name => ⟨fun asked => ?_, fun fresh => ?_⟩, ?_⟩
  · rw [cacheAt_ask_self hx, LookupCache.ask_of_hit ((hr.answers name).mpr asked)]
  · have miss : ((start.play past).cacheAt c).peek name ((start.play past).stampOf c.owner) = none :=
      Option.not_isSome_iff_eq_none.mp (mt (hr.answers name).mp fresh)
    rw [stampOf_ask, cacheAt_ask_self hx, LookupCache.ask_of_miss miss]
    refine ⟨LookupCache.counters_remember.1, LookupCache.counters_remember.2, ?_⟩
    rw [LookupCache.peek_remember (c := ((start.play past).cacheAt c).count false) hr.observed,
      if_pos rfl]
  · rintro before birth life rfl hbefore hbirth alive
    rw [play_concat] at hbirth
    have hw := hs.play before
    have born := hw.timesAsked_birth (plain birth (by simp)) hbefore hbirth
    have lived := (hw.move birth).timesAsked_play hbirth (fun m hm => plain m (by simp [hm])) alive
    rw [born, Nat.zero_add] at lived
    rw [play_append, play_cons]
    exact lived

/-- A class remembers that it does not have a method while another class changes. -/
theorem class_remembers_beside_mutation :
    let start : World Unit Unit := initial ()
    let c : CacheRef := .ofClass .classSide ⟨1⟩
    let past : List (Move Unit Unit) :=
      [.step (.perform (.newClass "A" {})), .step (.perform (.newClass "B" {})), .ask c "f",
        .step (.perform (.addAlias (.ofClass ⟨2⟩) "g" "f"))]
    let w := start.play past
    start.AskedSince past c "f" ∧ (w.ask c "f").cacheAt c = (w.cacheAt c).count true ∧
      (w.cacheAt c).counters.hits + (w.cacheAt c).counters.misses = 1 := by
  intro start c past w
  let change : Step Unit Unit := .perform (.addAlias (.ofClass ⟨2⟩) "g" "f")
  let made : List (Move Unit Unit) :=
    [.step (.perform (.newClass "A" {})), .step (.perform (.newClass "B" {}))]
  have there : (start.play made).Has c.owner := rfl
  have outside : ¬ (Move.step change).Outdates (start.play (made ++ [.ask c "f"])) c.owner := by
    rintro (⟨on, ⟨-, hm⟩, he | ⟨k, hk, rfl⟩⟩ | ⟨i, -, hi⟩)
    · obtain rfl := Option.some.inj hm
      have same : (⟨2⟩ : ClassId) = ⟨1⟩ := Receiver.ofClass.inj he
      contradiction
    · obtain rfl : ⟨2⟩ = k := Receiver.ofClass.inj (Option.some.inj hm)
      revert hk
      decide
    · contradiction
  have asked : start.AskedSince past c "f" :=
    askedSince_concat.mpr (.inr ⟨askedSince_concat.mpr (.inl ⟨rfl, there⟩), outside⟩)
  have serve := (caches_serve_until_outdated () [.perform (.newClass "A" {}),
    .perform (.newClass "B" {}), .lookUp (.ofClass ⟨1⟩) "f", change]).2 past [] rfl c
  refine ⟨asked, (serve.2.1 rfl "f").1 asked, serve.2.2 [] _ _ rfl Bool.false_ne_true rfl ?_⟩
  rintro m hm hr
  cases m with
  | ask other name => exact hr
  | step s =>
    obtain ⟨i, -, hi⟩ := hr
    contradiction

end World
end ObjectModel
