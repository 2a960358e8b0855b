import ObjectModel.Proofs.Lookup.Exposure
import ObjectModel.Proofs.Program.Accounting
import ObjectModel.Proofs.Program.Arity
import ObjectModel.Proofs.Program.Running
import ObjectModel.Proofs.Program.Serving

/-!
# Methods and their names

A method takes the name and the side of the table that it is put into, wherever it comes
from. So what a lookup finds, in a table or in a cache, has the name that was looked up,
and the frame of a body has this name too.
-/
namespace ObjectModel
variable {Code σ : Type}

open Relation (ReflTransGen)

/-- If something has been found for a name, then it is a method of this name and side. -/
def Finding.Named (r : Finding Code) (name : String) (side : Side) : Prop :=
  ∀ d, r = some d → d.method.name = name ∧ d.method.side = side

/-- The side of the methods in a place. -/
def Place.side : Place → Side
  | singleton _ | own _ => .instanceSide
  | ofClass side _ => side

/-- The side of the methods that a seeker looks for. -/
def Seeker.side : Seeker → Side
  | ofInstance _ => .instanceSide
  | ofClass side _ => side

/-- The side of the findings that a cache remembers. -/
def CacheRef.side : CacheRef → Side
  | ofClass side _ => side
  | ofInstance _ => .instanceSide

namespace World
variable {w : World Code σ}

theorem Named.methodsIn (hn : w.Named) (p : Place) : (w.methodsIn p).Named p.side := by
  cases p with
  | singleton i => exact (hn.states i).2
  | own i => exact (hn.states i).1
  | ofClass side k => exact hn.classes k side

/-- A seeker looks into places of its own side only. -/
theorem side_of_mem_order {x : Seeker} {p : Place} (h : p ∈ w.order x) : p.side = x.side := by
  cases x with
  | ofInstance i =>
    simp only [order, List.mem_cons, List.mem_map] at h
    obtain rfl | rfl | ⟨a, -, rfl⟩ := h <;> rfl
  | ofClass side k =>
    obtain ⟨a, -, rfl⟩ := List.mem_map.mp h
    rfl

theorem Named.findSome?_order (hn : w.Named) (x : Seeker) (name : String) :
    Finding.Named ((w.order x).findSome? (w.definedIn name)) name x.side := by
  intro d hd
  obtain ⟨p, hp, hm⟩ := List.exists_of_findSome?_eq_some hd
  obtain ⟨m, find, rfl⟩ := Option.map_eq_some_iff.mp hm
  rw [← side_of_mem_order hp]
  exact hn.methodsIn p name m find

end World

/-- Every finding in a cache is for the name that it is remembered under. -/
def LookupCache.Named (c : LookupCache Code) (side : Side) : Prop :=
  ∀ name r, c.entries.find? name = some r → Finding.Named r name side

namespace LookupCache
variable {c d : LookupCache Code} {side : Side} {name : String} {r : Finding Code}

theorem named_of_empty (h : c.entries = {}) : c.Named side := by
  intro name r hr
  rw [h] at hr
  contradiction

theorem Named.congr (hc : c.Named side) (h : d.entries = c.entries) : d.Named side := by
  rwa [Named, h]

theorem Named.count (hc : c.Named side) (hit : Bool) : (c.count hit).Named side := by
  refine hc.congr ?_
  unfold LookupCache.count
  split <;> rfl

theorem Named.remember (hc : c.Named side) (hr : Finding.Named r name side) (stamp : Nat) :
    (c.remember name stamp r).Named side := by
  have joins : ∀ t : Table (Finding Code),
      (∀ other found, t.find? other = some found → Finding.Named found other side) →
      ∀ other found, (t.insert name r).find? other = some found → Finding.Named found other side := by
    intro t ht other found hf
    rw [Table.find?_insert] at hf
    split at hf
    · next he => exact he ▸ Option.some.inj hf ▸ hr
    · exact ht other found hf
  unfold LookupCache.remember
  split
  · exact hc
  · split
    · exact joins {} fun _ _ hf => by contradiction
    · exact joins c.entries hc

theorem Named.ask (hc : c.Named side) (hr : Finding.Named r name side) (stamp : Nat) :
    (c.ask name stamp r).Named side := by
  cases hp : c.peek name stamp with
  | some found =>
    rw [ask_of_hit (by rw [hp]; rfl)]
    exact hc.count true
  | none =>
    rw [ask_of_miss hp]
    exact (hc.count false).remember hr stamp

end LookupCache

namespace World
variable {w : World Code σ}

/-- What a search finds for a cache is for the name and on the side of the cache. -/
theorem Named.found? (hn : w.Named) (c : CacheRef) (name : String) :
    Finding.Named (w.found? c name) name c.side := by
  cases c with
  | ofInstance i => exact fun d (hd : w.nearest? (.ofInstance i) name = some d) => hn.of_nearest? hd
  | ofClass side k =>
    have line : w.definition? side k name =
        (w.order (.ofClass side k)).findSome? (w.definedIn name) := by
      rw [order, List.findSome?_map]
      rfl
    rw [World.found?, line]
    exact hn.findSome?_order (.ofClass side k) name

end World

/-- A step that looks nothing up puts nothing into a cache. -/
theorem Step.entries_next {s : Step Code σ} {w : World Code σ} (hw : w.Sound)
    (hl : s.looksUp = false) (c : CacheRef) :
    ((s.next w).cacheAt c).entries = (w.cacheAt c).entries ∨
      ((s.next w).cacheAt c).entries = {} := by
  cases h : s.redefines? w with
  | some on => exact World.entries_of_touched (Step.touched_next hw h).to_reflTransGen c
  | none =>
    exact (World.kept_or_blank_of_calm (Step.calm_next h hl) c).imp (congrArg LookupCache.entries)
      (congrArg LookupCache.entries)

namespace World
variable {w : World Code σ}

/-- Every cache has its findings under their names. -/
def CachesNamed (w : World Code σ) : Prop := ∀ c, (w.cacheAt c).Named c.side

theorem Named.move (hw : w.Sound) (hn : w.Named) (m : Move Code σ) : (m.next w).Named := by
  cases m with
  | ask c name => exact (recalled_ask w c name).named hn
  | step s => exact hn.next hw s

theorem CachesNamed.move (hc : w.CachesNamed) (hw : w.Sound) (hn : w.Named) {m : Move Code σ}
    (hm : m.Plain) : (m.next w).CachesNamed := by
  intro c
  cases m with
  | ask other name =>
    -- Only the cache that is asked changes, and what it is given comes from the tables.
    by_cases hself : other = c ∧ w.Has c.owner
    · obtain ⟨rfl, hx⟩ := hself
      rw [Move.next, cacheAt_ask_self hx]
      exact (hc other).ask (hn.found? other name) _
    · rw [Move.next, cacheAt_ask_of_ne hself]
      exact hc c
  | step s =>
    rcases s.entries_next hw hm c with same | blank
    · exact (hc c).congr same
    · exact LookupCache.named_of_empty blank

theorem CachesNamed.play (hc : w.CachesNamed) (hw : w.Sound) (hn : w.Named)
    {moves : List (Move Code σ)} (hm : ∀ m ∈ moves, m.Plain) : (w.play moves).CachesNamed := by
  induction moves generalizing w with
  | nil => exact hc
  | cons m rest ih =>
    exact ih (hc.move hw hn (hm m List.mem_cons_self)) (hw.move m) (hn.move hw m)
      fun m' hm' => hm m' (List.mem_cons_of_mem m hm')

theorem cachesNamed_initial (h : σ) : (initial h : World Code σ).CachesNamed := by
  intro c
  apply LookupCache.named_of_empty
  cases c with
  | ofClass side k =>
    rw [cacheAt, classAt_initial]
    cases side <;> rfl
  | ofInstance i =>
    rw [cacheAt, stateAt_initial]
    rfl

theorem cachesNamed_after (h : σ) (past : List (Step Code σ)) :
    ((initial h : World Code σ).after past).CachesNamed := by
  rw [← (sound_initial h).play_moves past]
  exact (cachesNamed_initial h).play (sound_initial h) (named_initial h) (plain_moves _ past)

/-- All states in pools are new. -/
def PoolsNew (w : World Code σ) : Prop := w.pools.All fun p => ∀ s ∈ p.free, s = .new

theorem PoolsNew.next (hp : w.PoolsNew) (s : Step Code σ) : (s.next w).PoolsNew := by
  by_cases hs : ∃ capacity, s = .perform (.newPool capacity)
  · obtain ⟨capacity, rfl⟩ := hs
    exact hp.add fun s hs => by contradiction
  · rw [PoolsNew, pools_next w s fun capacity he => hs ⟨capacity, he⟩]
    cases s.poolAct? w with
    | none => exact hp
    | some act =>
      obtain ⟨p, a⟩ := act
      refine hp.modify (fun pool new => ?_) p.number
      cases a with
      | take => exact fun s hs => new s (List.mem_of_mem_tail (pool.free_acquire ▸ hs))
      | give => exact fun s hs => (Pool.mem_free_release hs).elim (new s) id
      | clear _ => exact fun s hs => by contradiction

theorem poolsNew_after (h : σ) (past : List (Step Code σ)) :
    ((initial h : World Code σ).after past).PoolsNew := by
  induction past using List.reverseRecOn with
  | nil => exact Registry.all_empty _
  | append_singleton past s ih =>
    rw [after_append]
    exact ih.next s

end World

/-- The frames of a task bear names that were looked up. A body that was found by lookup has
one frame, with the receiver of its message, and under its own name, which is the name that
the message looked for. Other code has none. -/
inductive Task.Names (t : Task Code σ) : List Frame → Prop
  | found {m : Method Code} {on : Receiver} {args : List (Value Code)} {frames : List Frame}
      {level : Level} (code : t.code = .body m on args frames)
      (receiver : t.message.receiver = on)
      (sought : t.sent.sought? t.message = some m.name) (side : m.side = on.side) :
      Names t [⟨on, m.name, level⟩]
  | direct (sought : t.sent.sought? t.message = none) : Names t []
  | aside (code : t.code.isBody = false) : Names t []

theorem Task.Adds.names {t : Task Code σ} {own : List Frame} (h : t.Adds own)
    (hsent : t.sent.Named) (hstarted : t.started.Named) : t.Names own := by
  cases h with
  | called message code found | calledBare message code found =>
    rw [World.findSome?_levels] at found
    obtain ⟨name, side⟩ := hstarted.of_nearest? found
    rw [← name]
    exact .found code (by rw [message]; rfl) (by rw [message, name]; rfl) side
  | calledSuper message code found =>
    obtain ⟨rfl, side⟩ := hsent.of_superDefinition? found
    exact .found code (by rw [message]; rfl) (by rw [message]; rfl) side
  | invoked message _ => exact .direct (by rw [message]; rfl)
  | aside code => exact .aside code

namespace Host
variable {host : Host Code σ} {fuel : Nat} {m : Message Code} {w u : World Code σ}
  {tasks : List (Task Code σ)}

/-- All that is running was sent and started in worlds that have come about by steps. -/
theorem Running.steps (h : host.Running fuel m w tasks u) :
    (∃ steps, u = w.after steps) ∧
      ∀ t ∈ tasks, (∃ steps, t.sent = w.after steps) ∧ ∃ steps, t.started = w.after steps := by
  induction h with
  | @start fuel m w u e starts =>
    obtain ⟨steps, rfl⟩ := starts.steps (host.stepwise_performer fuel)
    refine ⟨Run.kept_steps.trans ⟨steps, rfl⟩ ⟨[.record e], rfl⟩, fun t ht => ?_⟩
    obtain rfl := List.mem_singleton.mp ht
    exact ⟨⟨[], rfl⟩, ⟨steps, rfl⟩⟩
  | @script fuel m w u v e β s rest starts _ reaches =>
    have hp := host.stepwise_performer fuel
    obtain ⟨steps, rfl⟩ := starts.steps hp
    have way := Run.keeps_reaches Run.kept_steps hp reaches
    refine ⟨Run.kept_steps.trans (Run.kept_steps.trans ⟨steps, rfl⟩ ⟨[.record e], rfl⟩) way,
      fun t ht => ?_⟩
    obtain rfl := List.mem_singleton.mp ht
    exact ⟨⟨[], rfl⟩, ⟨steps, rfl⟩⟩
  | @within fuel m m' w u v t e β s next tasks starts _ reaches _ ih =>
    have hp := host.stepwise_performer fuel
    obtain ⟨steps, rfl⟩ := starts.steps hp
    have way := Run.kept_steps.trans (Run.kept_steps.trans ⟨steps, rfl⟩ ⟨[.record e], rfl⟩)
      (Run.keeps_reaches Run.kept_steps hp reaches)
    refine ⟨Run.kept_steps.trans way ih.1, fun task ht => ?_⟩
    rcases List.mem_append.mp ht with inner | outer
    · obtain ⟨sent, started⟩ := ih.2 task inner
      exact ⟨Run.kept_steps.trans way sent, Run.kept_steps.trans way started⟩
    · obtain rfl := List.mem_singleton.mp outer
      exact ⟨⟨[], rfl⟩, ⟨steps, rfl⟩⟩

/-- At every moment of a run the frames of the running tasks bear the names that were looked
up. -/
theorem Running.names (h : host.Running fuel m w tasks u) (hw : w.Sound) (hn : w.Named) :
    ∃ own, List.Forall₂ Task.Names tasks own ∧ u.frames = own.flatten ++ w.frames := by
  obtain ⟨own, adds, hu⟩ := h.frames hw hn
  refine ⟨own, ?_, hu⟩
  -- Each task has found its method in a world of its own, whose tables are named as well.
  have worlds := h.steps.2
  clear h hu
  induction adds with
  | nil => exact .nil
  | @cons t frames tasks own first _ ih =>
    obtain ⟨⟨sent, hsent⟩, ⟨started, hstarted⟩⟩ := worlds t List.mem_cons_self
    refine .cons (first.names ?_ ?_) (ih fun t' ht' => worlds t' (List.mem_cons_of_mem t ht'))
    · rw [hsent]
      exact hn.after hw sent
    · rw [hstarted]
      exact hn.after hw started

end Host

/-- Every method in a world is under its own name, in tables, in pools and in caches, and for
lookups. -/
structure World.KeepsNames (w : World Code σ) : Prop where
  tables p : (w.methodsIn p).Named p.side
  pooled p s (free : s ∈ (w.poolAt p).free) : s.Named
  /-- A definition renames what it puts into a table. -/
  puts (op : Operation Code σ) e (edit : op.edit? w = some e) (has : w.Has e.place.holder) :
    ((op.apply w).2.methodsIn e.place).find? e.name = e.method
  cached c name r (remembered : (w.cacheAt c).entries.find? name = some r) :
    Finding.Named r name c.side
  sought x name : Finding.Named (w.seek x name).1 name x.side
  found on name : Finding.Named (w.lookUp on name).1 name on.side
  next on name : Finding.Named (w.lookUpSuper on name).1 name on.side
  above on level name : Finding.Named (w.lookUpAbove on level name).1 name on.side
  resolved i name m (resolved : (w.resolve? i name).1 = some m) :
    m.name = w.meaning (.ofInstance i) name ∧ m.side = .instanceSide

namespace Host
variable {host : Host Code σ} {fuel : Nat}

/-- Where a program has got to a message, all frames are of bodies that were found by lookup, under
the names that were looked up. -/
structure NamesFrames {γ : Type} (host : Host Code σ) (fuel : Nat) (start : World Code σ)
    (rest : Script Code σ γ) (v : World Code σ) : Prop where
  idle : v.frames = []
  running m next (sends : rest = .send m next) tasks u (running : host.Running fuel m v tasks u) :
    (∃ steps, u = start.after steps) ∧
      ∃ own, List.Forall₂ Task.Names tasks own ∧ u.frames = own.flatten

theorem keepsNames_after (h : σ) (past : List (Step Code σ)) :
    ((World.initial h).after past).KeepsNames := by
  generalize hpast : (World.initial h).after past = w
  have hw : w.Sound := hpast ▸ World.sound_after h past
  have hn : w.Named := hpast ▸ World.named_after h past
  refine
    { tables := hn.methodsIn
      pooled := fun p s hs => ?_
      puts := fun op e he ho => ?_
      cached := hpast ▸ World.cachesNamed_after h past
      sought := fun x name => ?_
      found := fun on name => ?_
      next := fun on name => ?_
      above := fun on level name => ?_
      resolved := fun i name m hm => ?_ }
  · have pools : w.PoolsNew := hpast ▸ World.poolsNew_after h past
    have new : ∀ t ∈ (w.poolAt p).free, t = .new :=
      pools.getD (fun t ht => by contradiction) p.number
    rw [new s hs]
    exact ObjectState.named_new
  · rw [(World.edited_apply hw he ho).methodsIn, if_pos ⟨rfl, rfl⟩]
  · rw [hw.seek_fst]
    exact hn.findSome?_order x name
  · rw [hw.lookUp_fst]
    exact fun d => hn.of_nearest?
  · rw [hw.lookUpSuper_fst]
    exact fun d => hn.of_superDefinition?
  · rw [hw.lookUpAbove_fst]
    intro d hd
    obtain ⟨here, -, defined⟩ := List.exists_of_findSome?_eq_some hd
    exact hn.of_definitionOn? defined
  · change (w.lookUpInstance i (w.target (.ofInstance i) name)).1.map _ = some m at hm
    rw [hw.lookUpInstance_fst, World.target_eq_meaning] at hm
    obtain ⟨d, found, rfl⟩ := Option.map_eq_some_iff.mp hm
    exact hn.of_nearest? found

theorem namesFrames_of_reaches {γ : Type} (h : σ) {script rest : Script Code σ γ}
    {v : World Code σ} (reaches : script.Reaches (host.performer fuel) (World.initial h) rest v) :
    NamesFrames host fuel (World.initial h) rest v := by
  have frames : v.frames = [] :=
    Run.keeps_reaches Run.kept_frames (Run.balanced_performer host fuel) reaches
  obtain ⟨steps, hv⟩ := Run.keeps_reaches Run.kept_steps (host.stepwise_performer fuel) reaches
  refine ⟨frames, fun m next _ tasks u running => ?_⟩
  have sound : v.Sound := hv ▸ World.sound_after h steps
  have named : v.Named := hv ▸ World.named_after h steps
  obtain ⟨own, names, hu⟩ := running.names sound named
  rw [frames, List.append_nil] at hu
  exact ⟨Run.kept_steps.trans ⟨steps, hv⟩ running.steps.1, own, names, hu⟩

/-- Wherever a run has got, every table of methods holds them under their own names, and on
its own side, also the tables of what lies in pools. A definition puts the method there that
it was given, renamed, whatever name it has had. What caches remember for a name, and what
lookups find for it, are methods of this name and side. So at every moment of a program all
frames are of bodies that were found by lookup, and they bear the name that was looked up,
which is that of the method. -/
theorem methods_keep_their_names {γ : Type} (h : σ) (past : List (Step Code σ)) :
    ((World.initial h).after past).KeepsNames ∧
      ∀ (host : Host Code σ) (fuel : Nat) (script rest : Script Code σ γ) (v : World Code σ),
        script.Reaches (host.performer fuel) (World.initial h) rest v →
          NamesFrames host fuel (World.initial h) rest v :=
  ⟨keepsNames_after h past, fun _ _ _ _ _ reaches => namesFrames_of_reaches h reaches⟩

/-- A value holds a method under an old name and for classes. Defined from it, and called by
an alias, the method has its new name in its table, in the cache and in its frame. -/
theorem renamed_method_keeps_its_name :
    let old : Method (Option String) := (Method.ofSignature .receiver none).named "old" .classSide
    let m := old.named "f" .instanceSide
    let script : Script (Option String) Unit Unit :=
      .operate (.newClass "A" {}) fun k =>
        .operate (.defineFromValue k "f" (.object 0 (.method .instanceSide old))) fun _ =>
          .operate (.addAlias (.ofClass k) "g" "f") fun _ =>
            .operate (.instantiate k) fun i =>
              .send (.call (.ofInstance i) "g" []) fun _ => .done ()
    let past : List (Step (Option String) Unit) :=
      [.perform (.newClass "A" {}),
        .perform (.defineFromValue ⟨1⟩ "f" (.object 0 (.method .instanceSide old))),
        .perform (.addAlias (.ofClass ⟨1⟩) "g" "f"), .perform (.instantiate ⟨1⟩)]
    let w := (World.initial ()).after past
    let call : Message (Option String) := .call (.ofInstance ⟨1⟩) "g" []
    let frame : Frame := ⟨.ofInstance ⟨1⟩, "f", .ofClass ⟨1⟩⟩
    let define : Operation (Option String) Unit :=
      .defineFromValue ⟨1⟩ "f" (.object 0 (.method .instanceSide old))
    ((define.apply w).2.methodsIn (.ofClass .instanceSide ⟨1⟩)).find? "f" = some m ∧
      ((w.lookUp (.ofInstance ⟨1⟩) "f").2.cacheAt (.ofInstance ⟨1⟩)).entries.find? "f" =
        some (some ⟨m, .ofClass ⟨1⟩⟩) ∧
      Finding.Named (some ⟨m, .ofClass ⟨1⟩⟩) "f" .instanceSide ∧
      script.Reaches (calling.performer 2) (World.initial ()) (.send call fun _ => .done ()) w ∧
      ∃ task outer u own, calling.Running 2 call w (task :: outer) u ∧
        task.code = .body m (.ofInstance ⟨1⟩) [] [frame] ∧
        List.Forall₂ Task.Names (task :: outer) own ∧ u.frames = own.flatten := by
  intro old m script past w call frame define
  have cached : ((w.lookUp (.ofInstance ⟨1⟩) "f").2.cacheAt (.ofInstance ⟨1⟩)).entries.find? "f" =
      some (some ⟨m, .ofClass ⟨1⟩⟩) := by decide +kernel
  have reaches : script.Reaches (calling.performer 2) (World.initial ())
      (.send call fun _ => .done ()) w := .operate (.operate (.operate (.operate .here)))
  obtain ⟨later, -⟩ :=
    methods_keep_their_names (γ := Unit) () (past ++ [.lookUp (.ofInstance ⟨1⟩) "f"])
  obtain ⟨now, runs⟩ := methods_keep_their_names (γ := Unit) () past
  have put := now.puts define ⟨.ofClass .instanceSide ⟨1⟩, "f", some m⟩ rfl rfl
  have ends : (calling.performer 2 call w).map (fun e => e.2.trace) =
      .ok (w.trace ++ [] ++ .body m (.ofInstance ⟨1⟩) [] [frame] :: []) := by decide +kernel
  refine ⟨put, cached, later.cached (.ofInstance ⟨1⟩) "f" _ cached, reaches, ?_⟩
  cases ran : calling.performer 2 call w with
  | error halt =>
    rw [ran] at ends
    cases ends
  | ok e =>
    rw [ran] at ends
    obtain ⟨u, ⟨task, outer, running, code⟩, -⟩ :=
      moment_of_started (started_innermost ran) (Except.ok.inj ends)
    have moments := runs calling 2 script _ w reaches
    obtain ⟨-, own, names, hu⟩ := moments.running call _ rfl _ u running
    exact ⟨task, outer, u, own, running, code, names, hu⟩

end Host
end ObjectModel
