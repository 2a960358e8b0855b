import ObjectModel.Proofs.Program.Pairing

/-!
# What is done on the way of a run

A message starts bodies, hooks and handlers, whose scripts operate and send messages
in turn. A rule that all operations on this way heed, each in the world it comes to,
says what the run does not do. Nothing is said of code that is never started.
-/
namespace ObjectModel
variable {Code σ α γ : Type}

/-- A rule for operations, which may depend on the world. -/
abbrev Rule (Code σ : Type) := World Code σ → Operation Code σ → Prop

/-- The operations of a script heed a rule, and so do its messages, wherever it gets to
from a world. -/
def Script.Heeds (rule : Rule Code σ) (performer : Performer Code σ)
    (heeds : Message Code → World Code σ → Prop) : Script Code σ α → World Code σ → Prop
  | done _, _ => True
  | operate op next, w =>
    rule w op ∧ (next (op.apply w).1).Heeds rule performer heeds (op.apply w).2
  | send m next, w =>
    heeds m w ∧ ∀ outcome v, performer m w = .ok (outcome, v) →
      (next outcome).Heeds rule performer heeds v

namespace Run

/-- The code that answers for a receiver, as the event that records it, and the world in
which it starts. -/
inductive Answers (on : Receiver) (name : String) (args : List (Value Code)) (w : World Code σ) :
    Event Code → World Code σ → Prop
  | body {d : Definition Code} {v : World Code σ}
      (found : w.lookUp on name = (some d, v)) (accepts : d.method.arity.accepts args.length = true) :
      Answers on name args w (.body d.method on args (⟨on, d.method.name, d.level⟩ :: v.frames))
        (v.pushFrame ⟨on, d.method.name, d.level⟩)
  | missing {code : Code} {v : World Code σ}
      (found : w.lookUp on name = (none, v)) (handler : v.handler? on = some code) :
      Answers on name args w (.missing code name args) v

/-- The code that a message starts itself, as the event that records it, and the world in
which it starts. -/
inductive Starts (host : Host Code σ) (performer : Performer Code σ) (w : World Code σ) :
    Message Code → Event Code → World Code σ → Prop
  | invoke {m : Method Code} {on : Receiver} {args : List (Value Code)}
      (accepts : m.arity.accepts args.length = true) :
      Starts host performer w (.invoke m on args) (.body m on args w.frames) w
  | callSuper {on : Receiver} {name : String} {args : List (Value Code)} {d : Definition Code}
      {v : World Code σ} (found : w.lookUpSuper on name = (some d, v))
      (accepts : d.method.arity.accepts args.length = true) :
      Starts host performer w (.callSuper on name args)
        (.body d.method on args (⟨on, d.method.name, d.level⟩ :: v.frames))
        (v.pushFrame ⟨on, d.method.name, d.level⟩)
  | callBare {i : InstanceId} {name : String} {args : List (Value Code)} {e : Event Code}
      {u : World Code σ} (answers : Answers (.ofInstance i) (w.target (.ofInstance i) name) args w e u) :
      Starts host performer w (.callBare i name args) e u
  | before {on : Receiver} {name : String} {args : List (Value Code)} {earlier later : List Code}
      {code : Code} {u : World Code σ} (hooks : w.beforeHooks on name = earlier ++ code :: later)
      (ran : earlier.forM (runBefore host performer · args) w = .ok (⟨⟩, u)) :
      Starts host performer w (.call on name args) (.before code args) u
  | call {on : Receiver} {name : String} {args : List (Value Code)} {e : Event Code}
      {v u : World Code σ}
      (before : (w.beforeHooks on name).forM (runBefore host performer · args) w = .ok (⟨⟩, v))
      (answers : Answers on (w.target on name) args v e u) :
      Starts host performer w (.call on name args) e u
  | after {on : Receiver} {name : String} {args : List (Value Code)} {earlier later : List Code}
      {code : Code} {x : Value Code} {v t u : World Code σ}
      (before : (w.beforeHooks on name).forM (runBefore host performer · args) w = .ok (⟨⟩, v))
      (answer : dispatch host performer on (w.target on name) args v = .ok (.ok x, t))
      (hooks : t.afterHooks on name = earlier ++ code :: later)
      (ran : earlier.forM (runAfter host performer · x args) t = .ok (⟨⟩, u)) :
      Starts host performer w (.call on name args) (.after code x args) u

end Run

namespace Host

/-- The script of the code that an event records heeds a rule. -/
def HeedsIn (host : Host Code σ) (rule : Rule Code σ) (performer : Performer Code σ)
    (heeds : Message Code → World Code σ → Prop) (w : World Code σ) : Event Code → Prop
  | .body m on args _ => ∀ code, m.body = .host code →
    (host.body code (if m.signature.takesReceiver then some on else none) args).Heeds rule performer
      heeds w
  | .before code args => (host.before code args).Heeds rule performer heeds w
  | .after code x args => (host.after code x args).Heeds rule performer heeds w
  | .missing code name args => (host.missing code name args).Heeds rule performer heeds w

/-- All that is done while a message is delivered heeds a rule, with messages nested to a
given depth. -/
def Heeds (host : Host Code σ) (rule : Rule Code σ) : Nat → Message Code → World Code σ → Prop
  | 0, _, _ => True
  | fuel + 1, m, w => ∀ e u, Run.Starts host (host.performer fuel) w m e u →
    host.HeedsIn rule (host.performer fuel) (host.Heeds rule fuel) (u.record e) e

end Host

/-- All operations of a script are allowed, whatever answers it gets. -/
def Script.Within (allowed : Operation Code σ → Prop) : Script Code σ α → Prop
  | done _ => True
  | operate op next => allowed op ∧ ∀ answer, (next answer).Within allowed
  | send _ next => ∀ outcome, (next outcome).Within allowed

/-- All operations of a host are allowed. -/
structure Host.Within (allowed : Operation Code σ → Prop) (host : Host Code σ) : Prop where
  body : ∀ code on args, (host.body code on args).Within allowed
  before : ∀ code args, (host.before code args).Within allowed
  after : ∀ code x args, (host.after code x args).Within allowed
  missing : ∀ code name args, (host.missing code name args).Within allowed

section
variable {rule : Rule Code σ} {allowed : Operation Code σ → Prop}
  (hr : ∀ w op, allowed op → rule w op)
include hr

theorem Script.Within.heeds {performer : Performer Code σ}
    {heeds : Message Code → World Code σ → Prop} (hm : ∀ m w, heeds m w) {s : Script Code σ α}
    (hs : s.Within allowed) (w : World Code σ) : s.Heeds rule performer heeds w := by
  induction s generalizing w with
  | done a => trivial
  | operate op next ih => exact ⟨hr w op hs.1, ih _ (hs.2 _) _⟩
  | send m next ih => exact ⟨hm m w, fun outcome v _ => ih outcome (hs outcome) v⟩

/-- What is allowed everywhere heeds the rule on every way. -/
theorem Host.Within.heeds {host : Host Code σ} (hh : host.Within allowed) (fuel : Nat)
    (m : Message Code) (w : World Code σ) : host.Heeds rule fuel m w := by
  induction fuel generalizing m w with
  | zero => trivial
  | succ fuel ih =>
    intro e u _
    cases e with
    | body m on args frames => exact fun code _ => (hh.body code _ args).heeds hr ih _
    | before code args => exact (hh.before code args).heeds hr ih _
    | after code x args => exact (hh.after code x args).heeds hr ih _
    | missing code name args => exact (hh.missing code name args).heeds hr ih _

end

namespace Run
variable {rule : Rule Code σ} {T : World Code σ → World Code σ → Prop} {w v : World Code σ}

/-- What operations keep that heed a rule, and answer alike, scripts keep. -/
structure Coupling.Under (rule : Rule Code σ) (T : World Code σ → World Code σ → Prop) : Prop
    extends Coupling T where
  hooks : ∀ {w v}, T w v → ∀ on, w.hookLevels on = v.hookLevels on
  answer : ∀ {w v}, T w v → ∀ op, rule w op → (op.apply w).1 = (op.apply v).1
  apply : ∀ {w v}, T w v → ∀ op, rule w op → T (op.apply w).2 (op.apply v).2

variable {host : Host Code σ} {p : Performer Code σ} {heeds : Message Code → World Code σ → Prop}
  (hT : Coupling.Under rule T)
  (hp : ∀ m w v, T w v → heeds m w → Paired T Eq (p m w) (p m v))
include hT hp

theorem paired_heeding {s : Script Code σ α} (hs : s.Heeds rule p heeds w) (h : T w v) :
    Paired T Eq (s.run p w) (s.run p v) := by
  induction s generalizing w v with
  | done a => exact .ended rfl h
  | operate op next ih =>
    refine paired_modifyGet ?_
    rw [← hT.answer h op hs.1]
    exact ih _ hs.2 (hT.apply h op hs.1)
  | send m next ih =>
    refine (hp m w v h hs.1).bind ?_
    rintro outcome _ w' v' hw _ rfl h'
    exact ih outcome (hs.2 outcome w' hw) h'

theorem paired_invoke_heeding (h : T w v) {m : Method Code} {on : Receiver}
    {args : List (Value Code)} (hs : m.arity.accepts args.length = true →
      host.HeedsIn rule p heeds (w.record (.body m on args w.frames)) (.body m on args w.frames)) :
    Paired T Eq (invoke host p m on args w) (invoke host p m on args v) :=
  paired_invoke hT.toCoupling h m on args fun accepts code hc =>
    paired_heeding hT hp (hs accepts code hc) (hT.body h m on args)

variable (hb : ∀ m, Balanced (p m))
include hb

theorem paired_invokeFound_heeding (h : T w v) {d : Definition Code} {on : Receiver}
    {args : List (Value Code)} (hs : d.method.arity.accepts args.length = true →
      let u := w.pushFrame ⟨on, d.method.name, d.level⟩
      host.HeedsIn rule p heeds (u.record (.body d.method on args u.frames))
        (.body d.method on args u.frames)) :
    Paired T Eq (invokeFound host p d on args w) (invokeFound host p d on args v) :=
  paired_invokeFound hT.toCoupling hb hb h d on args
    (paired_invoke_heeding hT hp (hT.push h _) hs)

theorem paired_dispatch_heeding (h : T w v) {on : Receiver} {name : String}
    {args : List (Value Code)}
    (hs : ∀ e u, Answers on name args w e u → host.HeedsIn rule p heeds (u.record e) e) :
    Paired T Eq (dispatch host p on name args w) (dispatch host p on name args v) := by
  have next := hT.lookUp h on name
  refine paired_dispatch hT.toCoupling h on name args (fun d hd => ?_) fun code hd hc => ?_
  · have found : w.lookUp on name = (some d, (w.lookUp on name).2) := Prod.ext hd rfl
    exact paired_invokeFound_heeding hT hp hb next fun accepts => hs _ _ (.body found accepts)
  · have found : w.lookUp on name = (none, (w.lookUp on name).2) := Prod.ext hd rfl
    exact paired_modify (paired_heeding hT hp (hs _ _ (.missing found hc)) (hT.event next _))

theorem paired_call_heeding (h : T w v) {on : Receiver} {name : String} {args : List (Value Code)}
    (hs : ∀ e u, Starts host p w (.call on name args) e u →
      host.HeedsIn rule p heeds (u.record e) e) :
    Paired T Eq (call host p on name args w) (call host p on name args v) := by
  refine paired_call hT.toCoupling h on name args ?_ (fun w₁ v₁ before h₁ => ?_)
    fun w₁ x w₂ v₂ before answer h₂ => ?_
  · have same : w.beforeHooks on name = v.beforeHooks on name := by
      rw [World.beforeHooks, hT.hooks h, World.beforeHooks]
    rw [← same]
    refine .forM_of_ran (fun earlier code later u v hl ran h => ?_) h
    exact paired_modify (paired_heeding hT hp (hs _ _ (.before hl ran)) (hT.event h _))
  · exact paired_dispatch_heeding hT hp hb h₁ fun e u answers => hs e u (.call before answers)
  · have same : w₂.afterHooks on name = v₂.afterHooks on name := by
      rw [World.afterHooks, hT.hooks h₂, World.afterHooks]
    rw [← same]
    refine .forM_of_ran (fun earlier code later u v hl ran h => ?_) h₂
    exact paired_modify
      (paired_heeding hT hp (hs _ _ (.after before answer hl ran)) (hT.event h _))

theorem paired_deliver_heeding (h : T w v) {m : Message Code}
    (hs : ∀ e u, Starts host p w m e u → host.HeedsIn rule p heeds (u.record e) e) :
    Paired T Eq (deliver host p m w) (deliver host p m v) := by
  cases m with
  | call on name args => exact paired_call_heeding hT hp hb h hs
  | callBare i name args =>
    refine paired_get ?_
    rw [← hT.target h]
    exact paired_dispatch_heeding hT hp hb h fun e u answers => hs e u (.callBare answers)
  | callSuper on name args =>
    refine paired_callSuper hT.toCoupling h on name args fun d hd => ?_
    have found : w.lookUpSuper on name = (some d, (w.lookUpSuper on name).2) := Prod.ext hd rfl
    exact paired_invokeFound_heeding hT hp hb (hT.lookUpSuper h on name) fun accepts =>
      hs _ _ (.callSuper found accepts)
  | invoke m on args =>
    exact paired_invoke_heeding hT hp h fun accepts => hs _ _ (.invoke accepts)

end Run

/-- A message that heeds a rule goes side by side with itself in any two worlds that are
related by what the rule keeps. -/
theorem Host.paired_performer_heeding {rule : Rule Code σ} {T : World Code σ → World Code σ → Prop}
    (hT : Run.Coupling.Under rule T) (host : Host Code σ) (fuel : Nat) {m : Message Code}
    {w v : World Code σ} (h : T w v) (hm : host.Heeds rule fuel m w) :
    Run.Paired T Eq (host.performer fuel m w) (host.performer fuel m v) := by
  induction fuel generalizing m w v with
  | zero => exact .halted _
  | succ fuel ih =>
    exact Run.paired_deliver_heeding (p := host.performer fuel) hT (fun _ _ _ h hm => ih h hm)
      (Run.balanced_performer host fuel) h hm

end ObjectModel
