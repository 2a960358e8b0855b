import ObjectModel.Proofs.Program.Way
import ObjectModel.Proofs.Program.Protocol
import ObjectModel.Proofs.Program.SuperCall
import Mathlib.Data.List.Forall2

/-!
# What is running

At any moment of a run some pieces of code are running, each started by a message
that the one below it has sent. The frames at that moment are those of the bodies
among them that were found by lookup, one for each, on top of those from before the
run. When the run is over these are left. Every event in the trace is the start of a
piece of code that is running at such a moment, so none is missed.
-/
namespace ObjectModel
variable {Code σ α : Type}

open Relation (ReflTransGen)

/-- A piece of code that a message has started: the message and the world it was sent
in, and the event that records the code and the world it started in. -/
structure Task (Code σ : Type) where
  message : Message Code
  sent : World Code σ
  code : Event Code
  started : World Code σ

/-- The tasks that are running in a world on the way of a message, the innermost first,
with messages nested to a given depth. -/
inductive Host.Running (host : Host Code σ) :
    Nat → Message Code → World Code σ → List (Task Code σ) → World Code σ → Prop
  | start {fuel : Nat} {m : Message Code} {w u : World Code σ} {e : Event Code}
      (starts : Run.Starts host (host.performer fuel) w m e u) :
      Running host (fuel + 1) m w [⟨m, w, e, u⟩] (u.record e)
  | script {fuel : Nat} {m : Message Code} {w u v : World Code σ} {e : Event Code} {β : Type}
      {s rest : Script Code σ β} (starts : Run.Starts host (host.performer fuel) w m e u)
      (runs : host.Runs e β s) (reaches : s.Reaches (host.performer fuel) (u.record e) rest v) :
      Running host (fuel + 1) m w [⟨m, w, e, u⟩] v
  | within {fuel : Nat} {m m' : Message Code} {w u v t : World Code σ} {e : Event Code} {β : Type}
      {s : Script Code σ β} {next : Outcome Code → Script Code σ β} {tasks : List (Task Code σ)}
      (starts : Run.Starts host (host.performer fuel) w m e u) (runs : host.Runs e β s)
      (reaches : s.Reaches (host.performer fuel) (u.record e) (.send m' next) v)
      (inner : Running host fuel m' v tasks t) :
      Running host (fuel + 1) m w (tasks ++ [⟨m, w, e, u⟩]) t

/-- Whether the body of a method has started, and not a hook or a handler. -/
def Event.isBody : Event Code → Bool
  | .body _ _ _ _ => true
  | _ => false

/-- What a task adds to the frames. A body that was found by lookup has one frame: its
receiver, the name that was looked up, and the level it was found on. A method that is
invoked directly has none, nor has a hook or a handler. -/
inductive Task.Adds (t : Task Code σ) : List Frame → Prop
  | called {on : Receiver} {name : String} {args : List (Value Code)} {d : Definition Code}
      {frames : List Frame} (message : t.message = .call on name args)
      (code : t.code = .body d.method on args frames)
      (found : (t.started.levels on).findSome?
        (t.started.definitionOn? on (t.sent.meaning on name)) = some d) :
      Adds t [⟨on, t.sent.meaning on name, d.level⟩]
  | calledBare {i : InstanceId} {name : String} {args : List (Value Code)} {d : Definition Code}
      {frames : List Frame} (message : t.message = .callBare i name args)
      (code : t.code = .body d.method (.ofInstance i) args frames)
      (found : (t.started.levels (.ofInstance i)).findSome?
        (t.started.definitionOn? (.ofInstance i) (t.sent.meaning (.ofInstance i) name)) = some d) :
      Adds t [⟨.ofInstance i, t.sent.meaning (.ofInstance i) name, d.level⟩]
  | calledSuper {on : Receiver} {name : String} {args : List (Value Code)} {d : Definition Code}
      {frames : List Frame} (message : t.message = .callSuper on name args)
      (code : t.code = .body d.method on args frames)
      (found : t.sent.superDefinition? on name = some d) :
      Adds t [⟨on, name, d.level⟩]
  | invoked {m : Method Code} {on : Receiver} {args : List (Value Code)} {frames : List Frame}
      (message : t.message = .invoke m on args) (code : t.code = .body m on args frames) :
      Adds t []
  | aside (code : t.code.isBody = false) : Adds t []

namespace Run
variable {host : Host Code σ} {p : Performer Code σ} {w v u : World Code σ} {m : Message Code}
  {on : Receiver} {name : String} {args : List (Value Code)} {e : Event Code}

/-- What the code that answers for a receiver adds to the frames. -/
theorem Answers.frames (hw : w.Sound) (hn : w.Named) (h : Answers on name args w e u) :
    (∃ d frames, e = .body d.method on args frames ∧
        (u.levels on).findSome? (u.definitionOn? on name) = some d ∧
        u.frames = [⟨on, name, d.level⟩] ++ w.frames) ∨
      e.isBody = false ∧ u.frames = w.frames := by
  cases h with
  | @body d v found accepts =>
    have hv : (w.lookUp on name).2 = v := congrArg Prod.snd found
    have recalled : World.Recalled w v := hv ▸ World.recalled_lookUp w on name
    have nearest : w.nearest? on name = some d := by
      rw [← hw.lookUp_fst, found]
    have levels : (v.pushFrame ⟨on, d.method.name, d.level⟩).levels = v.levels :=
      World.levels_of_records rfl rfl
    have defined : (v.pushFrame ⟨on, d.method.name, d.level⟩).definitionOn? = v.definitionOn? :=
      World.definitionOn?_of_records rfl rfl
    refine .inl ⟨d, _, rfl, ?_, ?_⟩
    · rw [levels, defined, World.findSome?_levels, World.bare_nearest? recalled.same, nearest]
    · rw [World.pushFrame, recalled.silent.frames, hn.name_of_nearest? nearest, List.singleton_append]
  | @missing code v found handler =>
    have hv : (w.lookUp on name).2 = u := congrArg Prod.snd found
    have recalled : World.Recalled w u := hv ▸ World.recalled_lookUp w on name
    exact .inr ⟨rfl, recalled.silent.frames⟩

/-- Code starts with what it adds on top of the frames in which its message was sent. -/
theorem Starts.adds (hp : ∀ m, (p m).Stepwise) (hb : ∀ m, Balanced (p m)) (hw : w.Sound)
    (hn : w.Named) (h : Starts host p w m e u) :
    ∃ own, Task.Adds ⟨m, w, e, u⟩ own ∧ u.frames = own ++ w.frames := by
  have befores : ∀ {codes : List Code} {args v}, codes.forM (runBefore host p · args) w = .ok (⟨⟩, v) →
      v.frames = w.frames := fun ran =>
    keeps_forM kept_frames (fun _ => keeps_recorded kept_frames hb _ _) _ _ _ ran
  cases h with
  | invoke _ => exact ⟨[], .invoked rfl rfl, rfl⟩
  | @callSuper on name args d v found _ =>
    have hv : (w.lookUpSuper on name).2 = v := congrArg Prod.snd found
    have recalled : World.Recalled w v := hv ▸ World.recalled_lookUpSuper w on name
    have above : w.superDefinition? on name = some d := by
      rw [← hw.lookUpSuper_fst, found]
    refine ⟨_, .calledSuper rfl rfl above, ?_⟩
    rw [World.pushFrame, recalled.silent.frames, hn.name_of_superDefinition? above,
      List.singleton_append]
  | callBare answers =>
    rw [World.target_eq_meaning] at answers
    obtain ⟨d, frames, rfl, found, hu⟩ | ⟨code, hu⟩ := answers.frames hw hn
    · exact ⟨_, .calledBare rfl rfl found, hu⟩
    · exact ⟨[], .aside code, hu⟩
  | before _ ran => exact ⟨[], .aside rfl, befores ran⟩
  | call before answers =>
    rw [World.target_eq_meaning] at answers
    obtain ⟨steps, hv⟩ := steps_befores hp before
    obtain ⟨d, frames, rfl, found, hu⟩ | ⟨code, hu⟩ :=
      answers.frames (hv ▸ hw.after steps) (hv ▸ hn.after hw steps)
    · exact ⟨_, .called rfl rfl found, by rw [hu, befores before]⟩
    · exact ⟨[], .aside code, hu.trans (befores before)⟩
  | @after on name args _ _ _ x v t u before answer _ ran =>
    have answered : t.frames = v.frames := keeps_dispatch kept_frames hb _ _ _ _ _ _ answer
    have afters : u.frames = t.frames :=
      keeps_forM kept_frames (fun _ => keeps_recorded kept_frames hb _ _) _ _ _ ran
    exact ⟨[], .aside rfl, afters.trans (answered.trans (befores before))⟩

end Run

namespace Host
variable {host : Host Code σ} {fuel : Nat} {m : Message Code} {w v u : World Code σ}
  {tasks : List (Task Code σ)}

/-- At every moment of a run the frames are those that the running tasks have added. -/
theorem Running.frames (h : host.Running fuel m w tasks u) (hw : w.Sound) (hn : w.Named) :
    ∃ own, List.Forall₂ Task.Adds tasks own ∧ u.frames = own.flatten ++ w.frames := by
  induction h with
  | start starts =>
    obtain ⟨own, adds, hu⟩ := starts.adds (host.stepwise_performer _)
      (Run.balanced_performer host _) hw hn
    exact ⟨[own], .cons adds .nil, by rw [List.flatten_singleton]; exact hu⟩
  | script starts _ reaches =>
    obtain ⟨own, adds, hu⟩ := starts.adds (host.stepwise_performer _)
      (Run.balanced_performer host _) hw hn
    have kept := Run.keeps_reaches Run.kept_frames (Run.balanced_performer host _) reaches
    exact ⟨[own], .cons adds .nil, by rw [List.flatten_singleton]; exact kept.trans hu⟩
  | @within fuel m m' w u v t e β s next tasks starts _ reaches _ ih =>
    have hp := host.stepwise_performer fuel
    obtain ⟨own, adds, hu⟩ := starts.adds hp (Run.balanced_performer host fuel) hw hn
    have kept := Run.keeps_reaches Run.kept_frames (Run.balanced_performer host fuel) reaches
    -- The message is sent in a world that has come about by steps in its turn.
    obtain ⟨steps, rfl⟩ := starts.steps hp
    obtain ⟨more, rfl⟩ := Run.keeps_reaches Run.kept_steps hp reaches
    have sound : ((w.after steps).record e).Sound := (hw.after steps).next (.record e)
    have named : ((w.after steps).record e).Named := (hn.after hw steps).next (hw.after steps) (.record e)
    obtain ⟨inner, all, ht⟩ := ih (sound.after more) (named.after sound more)
    refine ⟨inner ++ [own], List.rel_append all (.cons adds .nil), ?_⟩
    rw [ht, kept, List.flatten_append, List.flatten_singleton, List.append_assoc]
    exact congrArg (inner.flatten ++ ·) hu

variable {moment moment' : Event Code → World Code σ → Prop} {e : Event Code}

/-- The code of an event is the innermost that is running. -/
def Innermost (host : Host Code σ) (fuel : Nat) (m : Message Code) (w : World Code σ)
    (e : Event Code) (u : World Code σ) : Prop :=
  ∃ task outer, host.Running fuel m w (task :: outer) u ∧ task.code = e

/-- Nothing has started, or one piece of code has and is at a moment of its own. -/
def Started (moment : Event Code → World Code σ → Prop) (w v : World Code σ) : Prop :=
  v.trace = w.trace ∨ ∃ e, moment e v ∧ v.trace = w.trace ++ [e]

theorem Started.mono (h : ∀ e u, moment e u → moment' e u) (s : Started moment w v) :
    Started moment' w v :=
  s.imp_right fun ⟨e, at_e, trace⟩ => ⟨e, h e v at_e, trace⟩

theorem reports_started : Run.Reports (ReflTransGen (Started moment : World Code σ → _ → Prop)) where
  silent h := .single (.inl h)
  trans := .trans

/-- Every event that has come to the trace has had its moment. -/
theorem moment_of_started (h : ReflTransGen (Started moment) w v) {before later : List (Event Code)}
    (trace : v.trace = w.trace ++ before ++ e :: later) :
    ∃ u, moment e u ∧ u.trace = w.trace ++ before ++ [e] := by
  induction h generalizing later with
  | refl =>
    have lengths := congrArg List.length trace
    simp only [List.length_append, List.length_cons] at lengths
    omega
  | @tail u v _ last ih =>
    obtain same | ⟨e', at_e', grown⟩ := last
    · exact ih (same ▸ trace)
    · obtain rfl | ⟨earlier, x, rfl⟩ := List.eq_nil_or_concat later
      · obtain ⟨_, rfl⟩ := List.append_singleton_inj.mp (grown.symm.trans trace)
        exact ⟨v, at_e', trace⟩
      · rw [grown, List.concat_eq_append, ← List.cons_append, ← List.append_assoc] at trace
        exact ih (List.append_singleton_inj.mp trace).1

/-- All that starts on the way of a message is the innermost code when it starts. -/
theorem started_innermost {outcome : Outcome Code}
    (ran : host.performer fuel m w = .ok (outcome, v)) :
    ReflTransGen (Started (host.Innermost fuel m w)) w v := by
  induction fuel generalizing m w v outcome with
  | zero => cases ran
  | succ fuel ih =>
    refine Run.spans_deliver reports_started (fun e u starts => ⟨?_, fun runs hs => ?_⟩) ran
    · exact .single (.inr ⟨e, ⟨_, [], .start starts, rfl⟩, rfl⟩)
    · refine Run.spans_script reports_started (fun m' next t o t' reaches sent => ?_) hs
      refine ReflTransGen.mono (fun _ _ => Started.mono ?_) _ _ (ih sent)
      rintro e' u' ⟨task, outer, inner, code⟩
      exact ⟨task, _, .within starts runs reaches inner, code⟩

/-- The frames after a message are those before it, however it ends and whatever was
nested in it. At each moment on its way, the frames above these are those of the
bodies that are running and were found by lookup: one for each, with its receiver, the
name that was looked up, and the level it was found on. Hooks, handlers and methods that
are invoked directly add none. Each event in the trace is such a moment. -/
theorem frames_are_of_running_bodies (h : σ) (past : List (Step Code σ)) (host : Host Code σ)
    (fuel : Nat) (m : Message Code) :
    let w := (World.initial h).after past
    (∀ outcome v, host.performer fuel m w = .ok (outcome, v) → v.frames = w.frames ∧
        ∀ before e later, v.trace = w.trace ++ before ++ e :: later →
          ∃ u, host.Innermost fuel m w e u ∧ u.trace = w.trace ++ before ++ [e]) ∧
      ∀ tasks u, host.Running fuel m w tasks u →
        ∃ own, List.Forall₂ Task.Adds tasks own ∧ u.frames = own.flatten ++ w.frames := by
  intro w
  refine ⟨fun outcome v ran => ⟨Run.balanced_performer host fuel m w outcome v ran, ?_⟩, ?_⟩
  · exact fun _ _ _ trace => moment_of_started (started_innermost ran) trace
  · exact fun _ _ running => running.frames (World.sound_after h past) (World.named_after h past)

/-- A host whose bodies call a method, or else go on to the next definition above. -/
def calling : Host (Option String) Unit where
  body code on _ :=
    match code, on with
    | some name, some on => .send (.call on name []) fun outcome => .done (outcome.map .existing)
    | none, some on => .send (.callSuper on "f" []) fun outcome => .done (outcome.map .existing)
    | _, none => .done (.ok .unit)
  before _ _ := .done ()
  after _ _ _ := .done ()
  missing _ _ _ := .done (.ok .nil)

/-- A body that was called by an alias of its name, from within another, fails for want of
a definition above it. -/
theorem frames_are_of_failing_bodies :
    let past : List (Step (Option String) Unit) :=
      [.perform (.newClass "A" {}),
        .perform (.defineMethod (.ofClass ⟨1⟩) "f" (.ofSignature .receiver none)),
        .perform (.defineMethod (.ofClass ⟨1⟩) "e" (.ofSignature .receiver (some "g"))),
        .perform (.addAlias (.ofClass ⟨1⟩) "g" "f"), .perform (.instantiate ⟨1⟩)]
    let w := (World.initial ()).after past
    let m : Message (Option String) := .call (.ofInstance ⟨1⟩) "e" []
    let frames : List Frame :=
      [⟨.ofInstance ⟨1⟩, "f", .ofClass ⟨1⟩⟩, ⟨.ofInstance ⟨1⟩, "e", .ofClass ⟨1⟩⟩]
    ∃ v, calling.performer 3 m w = .ok (.error (.noSuperMethod "f" "A"), v) ∧ v.frames = [] ∧
      ∃ task outer u own, calling.Running 3 m w (task :: outer) u ∧
        task.code = .body ((Method.ofSignature .receiver none).named "f" .instanceSide)
          (.ofInstance ⟨1⟩) [] frames ∧
        List.Forall₂ Task.Adds (task :: outer) own ∧ u.frames = own.flatten := by
  intro past w m frames
  let inner : Event (Option String) :=
    .body ((Method.ofSignature .receiver none).named "f" .instanceSide) (.ofInstance ⟨1⟩) [] frames
  let outer : Event (Option String) :=
    .body ((Method.ofSignature .receiver (some "g")).named "e" .instanceSide) (.ofInstance ⟨1⟩) []
      [⟨.ofInstance ⟨1⟩, "e", .ofClass ⟨1⟩⟩]
  obtain ⟨kept, added⟩ := frames_are_of_running_bodies () past calling 3 m
  have ends : (calling.performer 3 m w).map (fun e => (e.1, e.2.trace)) =
      .ok (.error (.noSuperMethod "f" "A"), w.trace ++ [outer] ++ inner :: []) := by
    decide +kernel
  cases ran : calling.performer 3 m w with
  | error halt =>
    rw [ran] at ends
    cases ends
  | ok e =>
    rw [ran] at ends
    obtain ⟨answer, trace⟩ := Prod.mk.inj (Except.ok.inj ends)
    obtain ⟨same, moments⟩ := kept e.1 e.2 ran
    obtain ⟨u, ⟨task, rest, running, code⟩, -⟩ := moments [outer] inner [] trace
    obtain ⟨own, adds, hu⟩ := added _ u running
    refine ⟨e.2, answer ▸ rfl, same, task, rest, u, own, running, code, adds, ?_⟩
    exact hu.trans (List.append_nil _)

end Host
end ObjectModel
