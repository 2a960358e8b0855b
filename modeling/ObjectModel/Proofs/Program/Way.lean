import ObjectModel.Proofs.Program.Heeding

/-!
# The way of a run

A script comes from one operation and one message to the next, and a message starts code
whose script comes further in its turn. A relation that sees nothing of a change but what
has started, and that holds over all code that a message starts, holds over the message.
-/
namespace ObjectModel
variable {Code σ α : Type}

/-- A script comes to what is left of it, in a world on its way. -/
inductive Script.Reaches (performer : Performer Code σ) :
    Script Code σ α → World Code σ → Script Code σ α → World Code σ → Prop
  | here {s : Script Code σ α} {w : World Code σ} : Reaches performer s w s w
  | operate {op : Operation Code σ} {next : op.Answer → Script Code σ α} {rest : Script Code σ α}
      {w u : World Code σ} (later : Reaches performer (next (op.apply w).1) (op.apply w).2 rest u) :
      Reaches performer (.operate op next) w rest u
  | send {m : Message Code} {next : Outcome Code → Script Code σ α} {rest : Script Code σ α}
      {outcome : Outcome Code} {w v u : World Code σ} (ran : performer m w = .ok (outcome, v))
      (later : Reaches performer (next outcome) v rest u) :
      Reaches performer (.send m next) w rest u

/-- A script that the code of an event runs. Accessors run none. -/
inductive Host.Runs (host : Host Code σ) : Event Code → (β : Type) → Script Code σ β → Prop
  | body {m : Method Code} {on : Receiver} {args : List (Value Code)} {frames : List Frame}
      {code : Code} (h : m.body = .host code) :
      Runs host (.body m on args frames) _
        (host.body code (if m.signature.takesReceiver then some on else none) args)
  | before {code : Code} {args : List (Value Code)} :
      Runs host (.before code args) _ (host.before code args)
  | after {code : Code} {x : Value Code} {args : List (Value Code)} :
      Runs host (.after code x args) _ (host.after code x args)
  | missing {code : Code} {name : String} {args : List (Value Code)} :
      Runs host (.missing code name args) _ (host.missing code name args)

namespace Run
variable {host : Host Code σ} {p : Performer Code σ} {w v u : World Code σ} {m : Message Code}
  {on : Receiver} {name : String} {args : List (Value Code)} {e : Event Code}

theorem Answers.steps (h : Answers on name args w e u) : ∃ steps, u = w.after steps := by
  cases h with
  | @body d v found _ =>
    obtain rfl : (w.lookUp on name).2 = v := congrArg Prod.snd found
    exact ⟨[.lookUp on name, .push ⟨on, d.method.name, d.level⟩], rfl⟩
  | missing found _ =>
    obtain rfl : (w.lookUp on name).2 = u := congrArg Prod.snd found
    exact ⟨[.lookUp on name], rfl⟩

section
variable (hp : ∀ m, (p m).Stepwise)
include hp

theorem steps_befores {codes : List Code} (h : codes.forM (runBefore host p · args) w = .ok (⟨⟩, v)) :
    ∃ steps, v = w.after steps :=
  keeps_forM kept_steps (fun _ => keeps_recorded kept_steps hp _ _) w ⟨⟩ v h

/-- Code starts in a world that comes about by steps. -/
theorem Starts.steps (h : Starts host p w m e u) : ∃ steps, u = w.after steps := by
  cases h with
  | invoke _ => exact ⟨[], rfl⟩
  | @callSuper on name _ d v found _ =>
    obtain rfl : (w.lookUpSuper on name).2 = v := congrArg Prod.snd found
    exact ⟨[.lookUpSuper on name, .push ⟨on, d.method.name, d.level⟩], rfl⟩
  | callBare answers => exact answers.steps
  | before _ ran => exact steps_befores hp ran
  | call before answers =>
    obtain ⟨steps, rfl⟩ := steps_befores hp before
    obtain ⟨more, rfl⟩ := answers.steps
    exact ⟨steps ++ more, (World.after_append w steps more).symm⟩
  | @after on name _ _ _ _ x v t u before answer _ ran =>
    obtain ⟨steps, rfl⟩ := steps_befores hp before
    obtain ⟨more, rfl⟩ := keeps_dispatch kept_steps hp _ _ _ _ _ _ answer
    obtain ⟨rest, rfl⟩ := keeps_forM kept_steps
      (fun _ => keeps_recorded kept_steps hp _ _) _ _ _ ran
    exact ⟨steps ++ (more ++ rest), by simp only [World.after_append]⟩

end

/-- What a run keeps holds on the way of a script. -/
theorem keeps_reaches {P : World Code σ → World Code σ → Prop} (hP : Kept P)
    (hp : ∀ m, Keeps P (p m)) {s rest : Script Code σ α} (h : s.Reaches p w rest u) : P w u := by
  induction h with
  | here => exact hP.refl _
  | operate _ ih => exact hP.trans (hP.perform _ _) ih
  | send ran _ ih => exact hP.trans (hp _ _ _ _ ran) ih

variable {outcome : Outcome Code} {P : World Code σ → World Code σ → Prop}

/-- A relation that sees nothing of a change but what has started to run. -/
structure Reports (P : World Code σ → World Code σ → Prop) : Prop where
  silent : ∀ {w v}, v.trace = w.trace → P w v
  trans : ∀ {w v u}, P w v → P v u → P w u

/-- A relation holds over the start of the code of an event, and over its script. -/
structure Spans (host : Host Code σ) (p : Performer Code σ) (P : World Code σ → World Code σ → Prop)
    (e : Event Code) (u : World Code σ) : Prop where
  start : P u (u.record e)
  script : ∀ {β : Type} {s : Script Code σ β} {b : β} {v : World Code σ}, host.Runs e β s →
    s.run p (u.record e) = .ok (b, v) → P (u.record e) v

section
variable (hP : Reports P)
include hP

theorem Spans.recorded {β : Type} {s : Script Code σ β} {b : β} (h : Spans host p P e w)
    (runs : host.Runs e β s)
    (ran : (do modify fun w => w.record e; s.run p : Run Code σ β) w = .ok (b, v)) : P w v :=
  hP.trans h.start (h.script runs ran)

theorem spans_runBody {method : Method Code} (h : Spans host p P (.body method on args w.frames) w)
    (ran : runBody host p method on args w = .ok (outcome, v)) : P w v := by
  refine hP.trans h.start ?_
  unfold runBody at ran
  obtain ⟨_, _, hrecord, ran⟩ := bind_eq_ok ran
  obtain ⟨rfl, rfl⟩ := Prod.mk.inj (Except.ok.inj hrecord)
  cases hbody : method.body with
  | reader x =>
    rw [hbody] at ran
    cases on <;> exact hP.silent (congrArg (·.2.trace) (Except.ok.inj ran)).symm
  | writer x =>
    rw [hbody] at ran
    cases args with
    | nil => cases ran
    | cons y rest => cases on <;> exact hP.silent (congrArg (·.2.trace) (Except.ok.inj ran)).symm
  | host code =>
    rw [hbody] at ran
    obtain ⟨reply, t, hscript, ran⟩ := bind_eq_ok ran
    refine hP.trans (h.script (.body hbody) hscript) (hP.silent ?_)
    cases reply with
    | error e => exact (congrArg (·.2.trace) (Except.ok.inj ran)).symm
    | ok reply => exact (congrArg (·.2.trace) (Except.ok.inj ran)).symm

theorem spans_invoke {method : Method Code}
    (h : method.arity.accepts args.length = true → Spans host p P (.body method on args w.frames) w)
    (ran : invoke host p method on args w = .ok (outcome, v)) : P w v := by
  by_cases accepts : method.arity.accepts args.length = true
  · rw [invoke_of_accepts host p accepts] at ran
    exact spans_runBody hP (h accepts) ran
  · rw [invoke_of_rejects host p accepts] at ran
    obtain ⟨-, rfl⟩ := pure_eq_ok ran
    exact hP.silent rfl

theorem spans_invokeFound {d : Definition Code}
    (h : d.method.arity.accepts args.length = true →
      let u := w.pushFrame ⟨on, d.method.name, d.level⟩
      Spans host p P (.body d.method on args u.frames) u)
    (ran : invokeFound host p d on args w = .ok (outcome, v)) : P w v := by
  obtain ⟨u, hinvoke, rfl⟩ := invokeFound_eq_ok ran
  have pushed : P w (w.pushFrame ⟨on, d.method.name, d.level⟩) := hP.silent rfl
  exact hP.trans pushed (hP.trans (spans_invoke hP h hinvoke) (hP.silent rfl))

theorem spans_dispatch (h : ∀ e u, Answers on name args w e u → Spans host p P e u)
    (ran : dispatch host p on name args w = .ok (outcome, v)) : P w v := by
  unfold dispatch at ran
  obtain ⟨found, u, hfound, ran⟩ := bind_eq_ok ran
  have looked : w.lookUp on name = (found, u) := Except.ok.inj hfound
  have hu : (w.lookUp on name).2 = u := congrArg Prod.snd looked
  refine hP.trans (hP.silent (hu ▸ (World.recalled_lookUp w on name).silent.trace)) ?_
  cases found with
  | some d => exact spans_invokeFound hP (fun accepts => h _ _ (.body looked accepts)) ran
  | none =>
    obtain ⟨_, _, hget, ran⟩ := bind_eq_ok ran
    obtain ⟨rfl, rfl⟩ := Prod.mk.inj (Except.ok.inj hget)
    cases hc : u.handler? on with
    | some code =>
      simp only [hc] at ran
      exact (h _ _ (.missing looked hc)).recorded hP .missing ran
    | none =>
      simp only [hc] at ran
      obtain ⟨-, rfl⟩ := pure_eq_ok ran
      exact hP.silent rfl

/-- Codes in turn, each after those before it. -/
theorem spans_forM {run : Code → Run Code σ PUnit} {codes : List Code}
    (h : ∀ earlier code later u v, codes = earlier ++ code :: later →
      earlier.forM run w = .ok (⟨⟩, u) → run code u = .ok (⟨⟩, v) → P u v)
    (ran : codes.forM run w = .ok (⟨⟩, v)) : P w v := by
  have rest : ∀ later earlier u, codes = earlier ++ later → earlier.forM run w = .ok (⟨⟩, u) →
      later.forM run u = .ok (⟨⟩, v) → P u v := by
    intro later
    induction later with
    | nil =>
      intro earlier u _ _ hrest
      obtain ⟨-, rfl⟩ := pure_eq_ok hrest
      exact hP.silent rfl
    | cons code later ih =>
      intro earlier u hcodes hearlier hrest
      obtain ⟨_, t, hfirst, hrest⟩ := bind_eq_ok (r := run code) hrest
      refine hP.trans (h earlier code later u t hcodes hearlier hfirst) ?_
      refine ih (earlier ++ [code]) t (by rw [hcodes, List.append_assoc, List.singleton_append]) ?_ hrest
      have split : (earlier ++ [code]).forM run = earlier.forM run >>= fun _ => [code].forM run :=
        List.forM_append
      rw [split, bind_of_eq_ok hearlier]
      exact bind_of_eq_ok hfirst
  exact rest codes [] w rfl rfl ran

theorem spans_call (h : ∀ e u, Starts host p w (.call on name args) e u → Spans host p P e u)
    (ran : call host p on name args w = .ok (outcome, v)) : P w v := by
  unfold call at ran
  obtain ⟨_, _, hget, ran⟩ := bind_eq_ok ran
  obtain ⟨rfl, rfl⟩ := Prod.mk.inj (Except.ok.inj hget)
  obtain ⟨_, u, hbefore, ran⟩ := bind_eq_ok ran
  obtain ⟨answer, t, hanswer, ran⟩ := bind_eq_ok ran
  refine hP.trans (spans_forM hP (fun earlier code later t t' hl hran hcode => ?_) hbefore) ?_
  · exact (h _ _ (.before hl hran)).recorded hP .before hcode
  refine hP.trans (spans_dispatch hP (fun e t answers => h e t (.call hbefore answers)) hanswer) ?_
  cases answer with
  | error e =>
    obtain ⟨-, rfl⟩ := pure_eq_ok ran
    exact hP.silent rfl
  | ok x =>
    obtain ⟨_, _, hget, ran⟩ := bind_eq_ok ran
    obtain ⟨rfl, rfl⟩ := Prod.mk.inj (Except.ok.inj hget)
    obtain ⟨_, v', hafter, ran⟩ := bind_eq_ok ran
    obtain ⟨-, rfl⟩ := pure_eq_ok ran
    refine spans_forM hP (fun earlier code later u u' hl hran hcode => ?_) hafter
    exact (h _ _ (.after hbefore hanswer hl hran)).recorded hP .after hcode

/-- A relation that holds over all code that a message starts holds over the message. -/
theorem spans_deliver (h : ∀ e u, Starts host p w m e u → Spans host p P e u)
    (ran : deliver host p m w = .ok (outcome, v)) : P w v := by
  cases m with
  | call on name args => exact spans_call hP h ran
  | callBare i name args =>
    obtain ⟨_, _, hget, ran⟩ := bind_eq_ok ran
    obtain ⟨rfl, rfl⟩ := Prod.mk.inj (Except.ok.inj hget)
    exact spans_dispatch hP (fun e u answers => h e u (.callBare answers)) ran
  | callSuper on name args =>
    obtain ⟨found, u, hfound, ran⟩ := bind_eq_ok ran
    have looked : w.lookUpSuper on name = (found, u) := Except.ok.inj hfound
    have hu : (w.lookUpSuper on name).2 = u := congrArg Prod.snd looked
    refine hP.trans (hP.silent (hu ▸ (World.recalled_lookUpSuper w on name).silent.trace)) ?_
    cases found with
    | some d => exact spans_invokeFound hP (fun accepts => h _ _ (.callSuper looked accepts)) ran
    | none =>
      obtain ⟨_, _, hget, ran⟩ := bind_eq_ok ran
      obtain ⟨rfl, rfl⟩ := Prod.mk.inj (Except.ok.inj hget)
      obtain ⟨-, rfl⟩ := pure_eq_ok ran
      exact hP.silent rfl
  | invoke method on args => exact spans_invoke hP (fun accepts => h _ _ (.invoke accepts)) ran

/-- A relation that holds over all messages that a script sends holds over the script. -/
theorem spans_script {β : Type} {s : Script Code σ β} {b : β}
    (h : ∀ (m : Message Code) next u outcome v, s.Reaches p w (.send m next) u →
      p m u = .ok (outcome, v) → P u v)
    (ran : s.run p w = .ok (b, v)) : P w v := by
  induction s generalizing w with
  | done b =>
    obtain ⟨-, rfl⟩ := pure_eq_ok ran
    exact hP.silent rfl
  | operate op next ih =>
    obtain ⟨answer, u, happly, ran⟩ := bind_eq_ok ran
    obtain ⟨rfl, rfl⟩ := Prod.mk.inj (Except.ok.inj happly)
    refine hP.trans (hP.silent (op.silent_apply w).trace) (ih _ (fun m next u o v hr => ?_) ran)
    exact h m next u o v (.operate hr)
  | send m next ih =>
    obtain ⟨o, u, hm, ran⟩ := bind_eq_ok ran
    refine hP.trans (h m next w o u .here hm) (ih _ (fun m next u o v hr => ?_) ran)
    exact h m next u o v (.send hm hr)

end

end Run

end ObjectModel
