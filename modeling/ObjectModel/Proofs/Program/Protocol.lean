import ObjectModel.Proofs.Program.Invocation
import ObjectModel.Proofs.Program.Trace
import ObjectModel.Proofs.World.Registration

/-!
# The protocol of a call

A call runs the hooks before it, then one body or else the handler, then the
hooks after it. Which hooks these are, and which alias counts, is read off the
holders of the receiver: the receiver itself, the class of an instance, and the
ancestors, nearest first. The hooks before are those of the world in which the
call starts, the body is looked up in the world they leave, and the hooks after
are those of the world the body leaves.
-/
namespace ObjectModel
variable {Code σ : Type}

namespace World
variable {w v u : World Code σ}

/-- The aliases of a receiver itself. -/
def aliasesOf (w : World Code σ) : Receiver → Aliases
  | .ofInstance i => (w.stateAt i).aliases
  | .ofClass k => (w.classAt k).aliases

/-- From whom a receiver has its hooks and aliases, nearest first. -/
def holders (w : World Code σ) : Receiver → List Receiver
  | .ofInstance i => .ofInstance i :: (w.lineage (w.instanceAt i).classId).map .ofClass
  | .ofClass k => (w.lineage k).map .ofClass

/-- What a name stands for: the alias at the nearest holder that has one, or the
name itself. -/
def meaning (w : World Code σ) (on : Receiver) (name : String) : String :=
  ((w.holders on).findSome? fun x => (w.aliasesOf x).find? name).getD name

/-- The hooks of all holders to run before calls of a name. -/
def befores (w : World Code σ) (on : Receiver) (name : String) : List Code :=
  (w.holders on).flatMap fun x => (w.hooksOf x).beforeOf name

/-- The hooks of all holders to run after calls of a name. -/
def afters (w : World Code σ) (on : Receiver) (name : String) : List Code :=
  (w.holders on).flatMap fun x => (w.hooksOf x).afterOf name

theorem target_eq_meaning (w : World Code σ) (on : Receiver) (name : String) :
    w.target on name = w.meaning on name := by
  cases on with
  | ofInstance i =>
    rw [target, alias?, lineageAlias?, meaning, holders, List.findSome?_cons, List.findSome?_map]
    cases h : (w.stateAt i).aliases.find? name <;> simp [aliasesOf, h, Function.comp_def]
  | ofClass k =>
    rw [target, alias?, lineageAlias?, meaning, holders, List.findSome?_map]
    rfl

theorem hookLevels_eq (w : World Code σ) (on : Receiver) :
    w.hookLevels on = (w.holders on).map w.hooksOf := by
  cases on with
  | ofInstance i =>
    rw [hookLevels, holders, List.map_cons, List.map_map]
    rfl
  | ofClass k =>
    rw [hookLevels, holders, List.map_map]
    rfl

/-- What is read off the hooks of each level is read off the hooks of each holder. -/
theorem flatMap_hookLevels (w : World Code σ) (on : Receiver) (read : Hooks Code → List Code) :
    (w.hookLevels on).flatMap read = (w.holders on).flatMap fun x => read (w.hooksOf x) := by
  rw [hookLevels_eq, List.flatMap_map]

theorem hooks_eq (w : World Code σ) (on : Receiver) (name : String) :
    w.beforeHooks on name = w.befores on name ∧ w.afterHooks on name = w.afters on name :=
  ⟨w.flatMap_hookLevels on (·.beforeOf name), w.flatMap_hookLevels on (·.afterOf name)⟩

end World

/-- What answers a call: the body that was found, or else the handler, or
nothing. -/
inductive Response (Code : Type) where
  | body (d : Definition Code)
  | handler (code : Code)
  | undefined

/-- What answers to a name: the first definition in the order of levels, or else
the handler of the receiver. -/
def World.response (w : World Code σ) (on : Receiver) (name : String) : Response Code :=
  match (w.levels on).findSome? (w.definitionOn? on name) with
  | some d => .body d
  | none =>
    match w.handler? on with
    | some code => .handler code
    | none => .undefined

/-- What an invocation starts: nothing when the method does not accept the
arguments. -/
def Method.events (m : Method Code) (on : Receiver) (args : List (Value Code))
    (frames : List Frame) : List (Event Code) :=
  if m.arity.accepts args.length then [.body m on args frames] else []

/-- What starts when a call is answered, in the frames of the caller. -/
def Response.events (on : Receiver) (name : String) (args : List (Value Code))
    (frames : List Frame) : Response Code → List (Event Code)
  | body d => d.method.events on args (⟨on, d.method.name, d.level⟩ :: frames)
  | handler code => [.missing code name args]
  | undefined => []

namespace Run
variable {host : Host Code σ} {performer : Performer Code σ} {on : Receiver} {name : String}
  {args : List (Value Code)} {w v u : World Code σ} {outcome : Outcome Code}

/-- Runs what answers a call. -/
def respond (host : Host Code σ) (performer : Performer Code σ) (on : Receiver) (name : String)
    (args : List (Value Code)) : Response Code → Run Code σ (Outcome Code)
  | .body d => invokeFound host performer d on args
  | .handler code => runMissing host performer code name args
  | .undefined => do return .error (.undefinedMethod name ((← get).receiverName on))

/-- What a call comes to by its answer, without the hooks. -/
inductive Answered (host : Host Code σ) (performer : Performer Code σ) (on : Receiver)
    (name : String) (args : List (Value Code)) (w : World Code σ) :
    Response Code → Except Halt (Outcome Code × World Code σ) → Prop
  | body {d : Definition Code} {ended : Except Halt (Outcome Code × World Code σ)}
      (invoked : Invoked host performer d.method on args
        (w.pushFrame ⟨on, d.method.name, d.level⟩) ended) :
      Answered host performer on name args w (.body d) (unframed ended)
  | handler {code : Code} :
      Answered host performer on name args w (.handler code)
        ((host.missing code name args).run performer (w.record (.missing code name args)))
  | undefined :
      Answered host performer on name args w .undefined
        (.ok (.error (.undefinedMethod name (w.receiverName on)), w))

/-- An answer comes to what is said of it, and to nothing else. -/
theorem answered_iff {r : Response Code} {result : Except Halt (Outcome Code × World Code σ)} :
    Answered host performer on name args w r result ↔
      respond host performer on name args r w = result := by
  constructor
  · intro h
    cases h with
    | body invoked => exact invokeFound_iff.mpr ⟨_, invoked, rfl⟩
    | handler | undefined => rfl
  · rintro rfl
    cases r with
    | body d =>
      obtain ⟨ended, invoked, comes⟩ :=
        invokeFound_iff.mp (Eq.refl (invokeFound host performer d on args w))
      rw [respond, ← comes]
      exact .body invoked
    | handler code => exact .handler
    | undefined => exact .undefined

/-- In a sound world a name is answered by what the world itself says, whatever
is remembered. -/
theorem dispatch_eq (hw : w.Sound) (host : Host Code σ) (performer : Performer Code σ)
    (on : Receiver) (name : String) (args : List (Value Code)) :
    dispatch host performer on name args w =
      respond host performer on name args (w.response on name) (w.lookUp on name).2 := by
  have hr := World.recalled_lookUp w on name
  have looked : (modifyGet fun w => w.lookUp on name : Run Code σ _) w =
      .ok ((w.lookUp on name).1, (w.lookUp on name).2) := rfl
  unfold dispatch
  rw [bind_of_eq_ok looked, hw.lookUp_fst, World.response, World.findSome?_levels,
    ← World.bare_handler? hr.same on]
  cases w.nearest? on name with
  | some d => rfl
  | none =>
    have current : (get : Run Code σ _) (w.lookUp on name).2 =
      .ok ((w.lookUp on name).2, (w.lookUp on name).2) := rfl
    refine (bind_of_eq_ok current).trans ?_
    cases (w.lookUp on name).2.handler? on <;> rfl

/-- Codes are run one after the other, each in the world that the one before it
has left. -/
inductive InTurn (run : Code → Run Code σ Unit) : List Code → World Code σ → World Code σ → Prop
  | nil {w : World Code σ} : InTurn run [] w w
  | cons {code : Code} {codes : List Code} {w v u : World Code σ} (first : run code w = .ok ((), v))
      (rest : InTurn run codes v u) : InTurn run (code :: codes) w u

theorem forM_eq_ok_iff {run : Code → Run Code σ Unit} {codes : List Code} :
    codes.forM run w = .ok ((), u) ↔ InTurn run codes w u := by
  induction codes generalizing w with
  | nil =>
    constructor
    · intro h
      obtain ⟨-, rfl⟩ := pure_eq_ok h
      exact .nil
    · intro h
      cases h
      rfl
  | cons code codes ih =>
    constructor
    · intro h
      obtain ⟨_, v, hfirst, hrest⟩ := bind_eq_ok (r := run code) h
      exact .cons hfirst (ih.mp hrest)
    · intro h
      cases h with
      | cons hfirst hrest => exact (bind_of_eq_ok hfirst).trans (ih.mpr hrest)

/-- Codes that are run in turn lead to one world. -/
theorem InTurn.unique {run : Code → Run Code σ Unit} {codes : List Code} (h : InTurn run codes w v)
    (h' : InTurn run codes w u) : v = u := by
  have same := (forM_eq_ok_iff.mpr h).symm.trans (forM_eq_ok_iff.mpr h')
  exact (Prod.mk.inj (Except.ok.inj same)).2

/-- A call that comes to an end, with the events that it starts itself, in their
order. The hooks before and the name to look for are those of the first world,
what answers is that of the world after these hooks, and the hooks after are those
of the world that the answer has left. They run only after an answer that is no
error. -/
inductive Called (host : Host Code σ) (performer : Performer Code σ) (on : Receiver) (name : String)
    (args : List (Value Code)) (w : World Code σ) :
    List (Event Code) → Outcome Code → World Code σ → Prop
  | failed {v u : World Code σ} {e : ObjectError}
      (before : InTurn (fun code t => (host.before code args).run performer
        (t.record (.before code args))) (w.befores on name) w v)
      (answer : Answered host performer on (w.meaning on name) args
        (v.lookUp on (w.meaning on name)).2 (v.response on (w.meaning on name)) (.ok (.error e, u))) :
      Called host performer on name args w
        ((w.befores on name).map (.before · args) ++
          (v.response on (w.meaning on name)).events on (w.meaning on name) args v.frames)
        (.error e) u
  | returned {v u t : World Code σ} {r : Value Code}
      (before : InTurn (fun code t => (host.before code args).run performer
        (t.record (.before code args))) (w.befores on name) w v)
      (answer : Answered host performer on (w.meaning on name) args
        (v.lookUp on (w.meaning on name)).2 (v.response on (w.meaning on name)) (.ok (.ok r, u)))
      (after : InTurn (fun code t => (host.after code r args).run performer
        (t.record (.after code r args))) (u.afters on name) u t) :
      Called host performer on name args w
        ((w.befores on name).map (.before · args) ++
          (v.response on (w.meaning on name)).events on (w.meaning on name) args v.frames ++
          (u.afters on name).map (.after · r args))
        (.ok r) t

theorem InTurn.sound {run : Code → Run Code σ Unit} {codes : List Code}
    (hrun : ∀ code, (run code).Stepwise) (h : InTurn run codes w v) (hw : w.Sound) : v.Sound := by
  induction h with
  | nil => exact hw
  | cons first _ ih =>
    obtain ⟨steps, rfl⟩ := hrun _ _ _ _ first
    exact ih (hw.after steps)

theorem stepwise_recorded {α : Type} (hp : ∀ m, (performer m).Stepwise) (e : Event Code)
    (s : Script Code σ α) : Stepwise (do modify fun w => w.record e; s.run performer) :=
  keeps_recorded kept_steps hp e s

/-- What a call does with its answer. -/
def finish (host : Host Code σ) (performer : Performer Code σ) (on : Receiver) (name : String)
    (args : List (Value Code)) : Outcome Code → Run Code σ (Outcome Code)
  | .error e => return .error e
  | .ok r => do
    ((← get).afterHooks on name).forM fun code => runAfter host performer code r args
    return .ok r

theorem call_eq (host : Host Code σ) (performer : Performer Code σ) (on : Receiver) (name : String)
    (args : List (Value Code)) (w : World Code σ) :
    call host performer on name args w =
      ((w.befores on name).forM (fun code => runBefore host performer code args) >>= fun _ =>
        dispatch host performer on (w.meaning on name) args >>= finish host performer on name args)
        w := by
  rw [← (w.hooks_eq on name).1, ← World.target_eq_meaning]
  rfl

theorem finish_ok_eq_ok_iff {r : Value Code} :
    finish host performer on name args (.ok r) w = .ok (outcome, u) ↔
      outcome = .ok r ∧
        InTurn (fun code => runAfter host performer code r args) (w.afters on name) w u := by
  have run : finish host performer on name args (.ok r) w =
      ((w.afters on name).forM (fun code => runAfter host performer code r args) >>=
        fun _ => pure (.ok r)) w := by
    rw [← (w.hooks_eq on name).2]
    rfl
  rw [run]
  constructor
  · intro h
    obtain ⟨_, v, hafter, h⟩ := bind_eq_ok h
    obtain ⟨rfl, rfl⟩ := pure_eq_ok h
    exact ⟨rfl, forM_eq_ok_iff.mp hafter⟩
  · rintro ⟨rfl, after⟩
    exact bind_of_eq_ok (forM_eq_ok_iff.mpr after)

/-- A call comes to an end exactly when it follows the protocol. -/
theorem call_eq_ok_iff (hp : ∀ m, (performer m).Stepwise) (hw : w.Sound) :
    call host performer on name args w = .ok (outcome, u) ↔
      ∃ events, Called host performer on name args w events outcome u := by
  have sound : ∀ v, InTurn (fun code => runBefore host performer code args) (w.befores on name) w v →
      v.Sound := fun v before => before.sound (fun _ => stepwise_recorded hp _ _) hw
  rw [call_eq]
  constructor
  · intro h
    obtain ⟨_, v, hbefore, h⟩ := bind_eq_ok h
    obtain ⟨o, t, hanswer, h⟩ := bind_eq_ok h
    have before := forM_eq_ok_iff.mp hbefore
    rw [dispatch_eq (sound v before)] at hanswer
    have answer := answered_iff.mpr hanswer
    cases o with
    | error e =>
      obtain ⟨rfl, rfl⟩ := pure_eq_ok h
      exact ⟨_, .failed before answer⟩
    | ok r =>
      obtain ⟨rfl, after⟩ := finish_ok_eq_ok_iff.mp h
      exact ⟨_, .returned before answer after⟩
  · rintro ⟨events, called⟩
    cases called with
    | failed before answered =>
      have answer := answered_iff.mp answered
      rw [← dispatch_eq (sound _ before)] at answer
      exact (bind_of_eq_ok (forM_eq_ok_iff.mpr before)).trans (bind_of_eq_ok answer)
    | returned before answered after =>
      have answer := answered_iff.mp answered
      rw [← dispatch_eq (sound _ before)] at answer
      refine (bind_of_eq_ok (forM_eq_ok_iff.mpr before)).trans ((bind_of_eq_ok answer).trans ?_)
      exact finish_ok_eq_ok_iff.mpr ⟨rfl, after⟩

/-- A script that runs behind an event. -/
theorem trace_script {α : Type} (hp : ∀ m, (performer m).Stepwise) {s : Script Code σ α}
    {e : Event Code} {a : α} (h : s.run performer (w.record e) = .ok (a, v)) :
    ∃ inner, v.trace = w.trace ++ e :: inner := by
  obtain ⟨inner, ht⟩ := (stepwise_script hp s).trace h
  exact ⟨inner, by rw [ht, World.record, List.append_assoc, List.singleton_append]⟩

/-- Each of the codes that run in turn starts with its event. -/
theorem InTurn.trace (hp : ∀ m, (performer m).Stepwise) {script : Code → Script Code σ Unit}
    {event : Code → Event Code} {codes : List Code}
    (h : InTurn (fun code t => (script code).run performer (t.record (event code))) codes w v) :
    ∃ t, v.trace = w.trace ++ t ∧ InTrace (codes.map event) t := by
  induction h with
  | nil => exact ⟨[], (List.append_nil _).symm, .nil⟩
  | cons first _ ih =>
    obtain ⟨inner, hfirst⟩ := trace_script hp first
    obtain ⟨t, ht, intrace⟩ := ih
    exact ⟨_, by rw [ht, hfirst, List.append_assoc], .cons inner intrace⟩

theorem trace_runBody (hp : ∀ m, (performer m).Stepwise) {m : Method Code}
    (h : runBody host performer m on args w = .ok (outcome, v)) :
    ∃ inner, v.trace = w.trace ++ .body m on args w.frames :: inner := by
  obtain ⟨work, hwork, heq⟩ := runBody_eq host hp m on args
  rw [heq] at h
  obtain ⟨inner, ht⟩ := hwork.trace h
  exact ⟨inner, by rw [ht, World.record, List.append_assoc, List.singleton_append]⟩

theorem trace_invoke (hp : ∀ m, (performer m).Stepwise) {m : Method Code}
    (h : invoke host performer m on args w = .ok (outcome, v)) :
    ∃ t, v.trace = w.trace ++ t ∧ InTrace (m.events on args w.frames) t := by
  unfold Method.events
  by_cases accepts : m.arity.accepts args.length = true
  · rw [if_pos accepts]
    rw [invoke_of_accepts host performer accepts] at h
    obtain ⟨inner, ht⟩ := trace_runBody hp h
    exact ⟨_, ht, .one _ inner⟩
  · rw [if_neg accepts]
    rw [invoke_of_rejects host performer accepts] at h
    obtain ⟨-, rfl⟩ := pure_eq_ok h
    exact ⟨[], (List.append_nil _).symm, .nil⟩

theorem trace_respond (hp : ∀ m, (performer m).Stepwise) {r : Response Code}
    (h : respond host performer on name args r w = .ok (outcome, v)) :
    ∃ t, v.trace = w.trace ++ t ∧ InTrace (r.events on name args w.frames) t := by
  cases r with
  | body d =>
    obtain ⟨u, hinvoke, rfl⟩ := invokeFound_eq_ok h
    exact trace_invoke hp hinvoke
  | handler code =>
    obtain ⟨inner, ht⟩ := trace_script hp h
    exact ⟨_, ht, .one _ inner⟩
  | undefined =>
    obtain ⟨-, rfl⟩ := pure_eq_ok h
    exact ⟨[], (List.append_nil _).symm, .nil⟩

/-- What answers a call starts behind the hooks, in the frames of the caller. -/
theorem trace_answer (hp : ∀ m, (performer m).Stepwise)
    (h : Answered host performer on name args (w.lookUp on name).2 (w.response on name)
      (.ok (outcome, v))) :
    ∃ t, v.trace = w.trace ++ t ∧ InTrace ((w.response on name).events on name args w.frames) t := by
  have silent := (World.recalled_lookUp w on name).silent
  have answered := trace_respond hp (answered_iff.mp h)
  rwa [silent.trace, silent.frames] at answered

/-- The events of a call stand in the trace in their order, each followed by what it
has started in turn. -/
theorem Called.trace {events : List (Event Code)} (hp : ∀ m, (performer m).Stepwise)
    (h : Called host performer on name args w events outcome u) :
    ∃ t, u.trace = w.trace ++ t ∧ InTrace events t := by
  cases h with
  | failed before answer =>
    obtain ⟨first, hfirst, infirst⟩ := before.trace hp
    obtain ⟨second, hsecond, insecond⟩ := trace_answer hp answer
    exact ⟨first ++ second, by rw [hsecond, hfirst, List.append_assoc], infirst.append insecond⟩
  | returned before answer after =>
    obtain ⟨first, hfirst, infirst⟩ := before.trace hp
    obtain ⟨second, hsecond, insecond⟩ := trace_answer hp answer
    obtain ⟨third, hthird, inthird⟩ := after.trace hp
    refine ⟨first ++ second ++ third, ?_, (infirst.append insecond).append inthird⟩
    rw [hthird, hsecond, hfirst, List.append_assoc, List.append_assoc, List.append_assoc]

/-- Wherever a run has got, a call comes to an end exactly by following the
protocol, and its events stand in the trace in this order. At every object the hooks
stand in the order in which the run has registered them. -/
theorem call_follows_protocol (host : Host Code σ) (h : σ) (past : List (Step Code σ)) (fuel : Nat)
    (on : Receiver) (name : String) (args : List (Value Code)) :
    let w := (World.initial h).after past
    (∀ outcome u, host.performer (fuel + 1) (.call on name args) w = .ok (outcome, u) ↔
      ∃ events, Called host (host.performer fuel) on name args w events outcome u) ∧
    (∀ events outcome u, Called host (host.performer fuel) on name args w events outcome u →
      ∃ t, u.trace = w.trace ++ t ∧ InTrace events t) ∧
    (∀ early s late x, past = early ++ s :: late → ¬ ((World.initial h).after early).Has x →
      (s.next ((World.initial h).after early)).Has x → (∀ t ∈ late, ¬ t.Retires x) → ∀ called,
        (w.hooksOf x).beforeOf called = late.filterMap (Step.before? x called) ∧
          (w.hooksOf x).afterOf called = late.filterMap (Step.after? x called)) := by
  intro w
  have hp := host.stepwise_performer fuel
  refine ⟨fun outcome u => ?_, fun events outcome u called => called.trace hp, ?_⟩
  · exact call_eq_ok_iff hp (World.sound_after h past)
  · rintro early s late x rfl hx hv hs called
    have hw : (World.after (World.initial h) early).Sound := World.sound_after h early
    have hooks := World.hooksOf_after (hw.next s) hv hs called
    rw [World.hooksOf_new hx hv] at hooks
    have hpast : w = (s.next ((World.initial h).after early)).after late := World.after_append _ _ _
    rw [hpast]
    exact hooks

/-- A call of an alias with hooks on both sides. -/
theorem call_of_alias_follows_protocol :
    let idle : Host Nat Unit :=
      { body := fun _ _ _ => .done (.ok .unit)
        before := fun _ _ => .done ()
        after := fun _ _ _ => .done ()
        missing := fun _ _ _ => .done (.ok .nil) }
    let k : Receiver := .ofClass ⟨1⟩
    let make : Step Nat Unit := .perform (.newClass "K" {})
    let late : List (Step Nat Unit) :=
      [.perform (.defineClassMethod ⟨1⟩ "run" (.variadic 0)), .perform (.addAlias k "go" "run"),
        .perform (.addBefore k "go" 1), .perform (.addBefore k "go" 2), .perform (.addAfter k "go" 3)]
    let w := (World.initial ()).after (make :: late)
    let run : Method Nat := (Method.variadic 0).named "run" .classSide
    (w.hooksOf k).beforeOf "go" = [1, 2] ∧ (w.hooksOf k).afterOf "go" = [3] ∧
      ∃ u events, Called idle (idle.performer 0) k "go" [] w events (.ok .nil) u ∧
        InTrace events [.before 1 [], .before 2 [], .body run k [] [⟨k, "run", .ofClass ⟨1⟩⟩],
          .after 3 .nil []] := by
  intro idle k make late w run
  obtain ⟨runs, traced, registered⟩ := call_follows_protocol idle () (make :: late) 0 k "go" []
  have absent : ¬ (World.initial () : World Nat Unit).Has k := Bool.false_ne_true
  have made : (make.next (World.initial ())).Has k := rfl
  have kept : ∀ t ∈ late, ¬ t.Retires k := by
    rintro t _ ⟨i, _, hx⟩
    contradiction
  have hooks := registered [] make late k rfl absent made kept "go"
  have before : late.filterMap (Step.before? k "go") = [1, 2] := by decide
  have after : late.filterMap (Step.after? k "go") = [3] := by decide
  rw [before, after] at hooks
  refine ⟨hooks.1, hooks.2, ?_⟩
  have ends : (idle.performer 1 (.call k "go" []) w).toOption.map (fun p => (p.1, p.2.trace)) =
      some (.ok .nil, w.trace ++ [.before 1 [], .before 2 [],
        .body run k [] [⟨k, "run", .ofClass ⟨1⟩⟩], .after 3 .nil []]) := by decide +kernel
  cases hrun : idle.performer 1 (.call k "go" []) w with
  | error e =>
    rw [hrun] at ends
    cases ends
  | ok p =>
    obtain ⟨outcome, u⟩ := p
    rw [hrun] at ends
    obtain ⟨rfl, hu⟩ := Prod.mk.inj (Option.some.inj ends)
    obtain ⟨events, called⟩ := (runs (.ok .nil) u).mp hrun
    obtain ⟨t, ht, intrace⟩ := traced events (.ok .nil) u called
    obtain rfl := List.append_cancel_left (hu.symm.trans ht)
    exact ⟨u, events, called, intrace⟩

end Run
end ObjectModel
