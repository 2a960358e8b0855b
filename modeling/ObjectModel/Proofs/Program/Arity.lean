import ObjectModel.Proofs.Program.Refusal
import ObjectModel.Proofs.Program.Safety

/-!
# Arities guard bodies

However a message comes to a method, the body starts if the arity accepts the arguments,
and then it has exactly these and the receiver of the message. Otherwise the message fails
with the name the method was defined under, and there have been no other events of its own
than the hooks before it. So no body is short of an argument in a program that builds its
methods.
-/
namespace ObjectModel
variable {Code σ α β : Type}

namespace Message

def receiver : Message Code → Receiver
  | call on _ _ | callSuper on _ _ | invoke _ on _ => on
  | callBare i _ _ => .ofInstance i

def args : Message Code → List (Value Code)
  | call _ _ args | callBare _ _ args | callSuper _ _ args | invoke _ _ args => args

end Message

namespace World

/-- The name that a message looks for. -/
def sought? (w : World Code σ) : Message Code → Option String
  | .call on name _ => some (w.meaning on name)
  | .callBare i name _ => some (w.meaning (.ofInstance i) name)
  | .callSuper _ name _ => some name
  | .invoke _ _ _ => none

/-- Marks that bodies run, the innermost first. -/
def pushFrames (w : World Code σ) (frames : List Frame) : World Code σ :=
  { w with frames := frames ++ w.frames }

/-- The events of the hooks before a message. -/
def heralds (w : World Code σ) : Message Code → List (Event Code)
  | .call on name args => (w.befores on name).map (.before · args)
  | _ => []

end World

namespace Run
variable {host : Host Code σ} {p : Performer Code σ} {w v u : World Code σ} {msg : Message Code}
  {m m' : Method Code} {own own' : List Frame} {on : Receiver} {name : String}
  {args : List (Value Code)} {d : Definition Code}

/-- The method that a message comes to, the frame it gets, if any, and the world in which it
has been found. The hooks before a call have run by then. -/
inductive Comes (host : Host Code σ) (p : Performer Code σ) (w : World Code σ) :
    Message Code → Method Code → List Frame → World Code σ → Prop
  | invoke {m : Method Code} {on : Receiver} {args : List (Value Code)} :
      Comes host p w (.invoke m on args) m [] w
  | callSuper {on : Receiver} {name : String} {args : List (Value Code)} {d : Definition Code}
      {v : World Code σ} (found : w.lookUpSuper on name = (some d, v)) :
      Comes host p w (.callSuper on name args) d.method [⟨on, d.method.name, d.level⟩] v
  | callBare {i : InstanceId} {name : String} {args : List (Value Code)} {d : Definition Code}
      {v : World Code σ}
      (found : w.lookUp (.ofInstance i) (w.meaning (.ofInstance i) name) = (some d, v)) :
      Comes host p w (.callBare i name args) d.method
        [⟨.ofInstance i, d.method.name, d.level⟩] v
  | call {on : Receiver} {name : String} {args : List (Value Code)} {d : Definition Code}
      {u v : World Code σ}
      (before : InTurn (fun code t => (host.before code args).run p (t.record (.before code args)))
        (w.befores on name) w u)
      (found : u.lookUp on (w.meaning on name) = (some d, v)) :
      Comes host p w (.call on name args) d.method [⟨on, d.method.name, d.level⟩] v

/-- The hooks before a call have run in turn. -/
theorem befores_iff :
    (w.beforeHooks on name).forM (runBefore host p · args) w = .ok (⟨⟩, u) ↔
      InTurn (fun code t => (host.before code args).run p (t.record (.before code args)))
        (w.befores on name) w u := by
  rw [(w.hooks_eq on name).1]
  exact forM_eq_ok_iff

theorem Comes.unique (h : Comes host p w msg m own v) (h' : Comes host p w msg m' own' u) :
    m' = m ∧ own' = own ∧ u = v := by
  cases h with
  | invoke =>
    cases h'
    exact ⟨rfl, rfl, rfl⟩
  | callSuper found =>
    cases h' with
    | callSuper found' =>
      cases found.symm.trans found'
      exact ⟨rfl, rfl, rfl⟩
  | callBare found =>
    cases h' with
    | callBare found' =>
      cases found.symm.trans found'
      exact ⟨rfl, rfl, rfl⟩
  | call before found =>
    cases h' with
    | call before' found' =>
      obtain rfl := before.unique before'
      cases found.symm.trans found'
      exact ⟨rfl, rfl, rfl⟩

/-- A body that starts is that of the method which the message has come to. -/
theorem starts_body_iff {frames : List Frame} :
    Starts host p w msg (.body m on args frames) u ↔
      ∃ own v, Comes host p w msg m own v ∧ m.arity.accepts msg.args.length = true ∧
        on = msg.receiver ∧ args = msg.args ∧ frames = own ++ v.frames ∧
        u = v.pushFrames own := by
  constructor
  · intro h
    cases h with
    | invoke accepts => exact ⟨_, _, .invoke, accepts, rfl, rfl, rfl, rfl⟩
    | callSuper found accepts => exact ⟨_, _, .callSuper found, accepts, rfl, rfl, rfl, rfl⟩
    | callBare answers =>
      cases answers with
      | body found accepts =>
        rw [World.target_eq_meaning] at found
        exact ⟨_, _, .callBare found, accepts, rfl, rfl, rfl, rfl⟩
    | call before answers =>
      cases answers with
      | body found accepts =>
        rw [World.target_eq_meaning] at found
        exact ⟨_, _, .call (befores_iff.mp before) found, accepts, rfl, rfl, rfl, rfl⟩
  · rintro ⟨own, v, comes, accepts, rfl, rfl, rfl, rfl⟩
    cases comes with
    | invoke => exact .invoke accepts
    | callSuper found => exact .callSuper found accepts
    | callBare found =>
      rw [← World.target_eq_meaning] at found
      exact .callBare (.body found accepts)
    | call before found =>
      rw [← World.target_eq_meaning] at found
      exact .call (befores_iff.mpr before) (.body found accepts)

/-- What is left to do for a message when the body it has come to has ended. -/
def conclude (host : Host Code σ) (p : Performer Code σ) :
    Message Code → Outcome Code → Run Code σ (Outcome Code)
  | .call on name args, outcome => do
    modify World.popFrame
    finish host p on name args outcome
  | .callBare _ _ _, outcome | .callSuper _ _ _, outcome => do
    modify World.popFrame
    return outcome
  | .invoke _ _ _, outcome => return outcome

/-- The method that a message has come to is invoked, and then the message is concluded. -/
theorem deliver_of_comes (h : Comes host p w msg m own v) :
    deliver host p msg w =
      (invoke host p m msg.receiver msg.args >>= conclude host p msg)
        (v.pushFrames own) := by
  cases h with
  | @invoke m on args =>
    have done : (invoke host p m on args >>= pure) w = invoke host p m on args w := by
      rw [bind_pure]
    exact done.symm
  | callSuper found =>
    change callSuper host p _ _ _ w = _
    rw [callSuper_eq, found]
    exact invokeFound_eq host p _ _ _ v
  | callBare found =>
    rw [← World.target_eq_meaning] at found
    exact dispatch_of_found host p found _
  | @call on name args d u v before found =>
    have begun : (w.befores on name).forM (runBefore host p · args) w = .ok (⟨⟩, u) :=
      forM_eq_ok_iff.mpr before
    change call host p on name args w = _
    rw [call_eq, bind_of_eq_ok begun]
    have answered : dispatch host p on (w.meaning on name) args u =
        (invoke host p d.method on args >>= fun outcome => modify World.popFrame >>= fun _ =>
          pure outcome) (v.pushFrame ⟨on, d.method.name, d.level⟩) :=
      dispatch_of_found host p found args
    rw [bind_congr_at answered, bind_assoc]
    simp only [bind_assoc, pure_bind]
    rfl

/-- A body that is entered ends in some way, and with that the message is concluded. -/
theorem deliver_of_invoked (h : Comes host p w msg m own v) :
    ∃ ended, Invoked host p m msg.receiver msg.args (v.pushFrames own) ended ∧
      deliver host p msg w = ended.bind fun e => conclude host p msg e.1 e.2 :=
  ⟨_, invoked_iff.mpr rfl, deliver_of_comes h⟩

theorem deliver_of_rejects (h : Comes host p w msg m own v)
    (rejects : m.arity.accepts msg.args.length = false) :
    deliver host p msg w =
      .ok (.error (.arityMismatch m.name msg.args.length m.arity.required), v) := by
  have refused : m.refusal? msg.args.length =
      some (.arityMismatch m.name msg.args.length m.arity.required) := by
    rw [Method.refusal?, rejects]
    rfl
  rw [deliver_of_comes h, bind_of_eq_ok (invoke_of_refusal refused host p _ _)]
  cases h <;> rfl

section
variable (hp : ∀ m, (p m).Stepwise)
include hp

/-- Only the hooks before a message run on its way to a method. -/
theorem Comes.trace (h : Comes host p w msg m own v) :
    ∃ t, v.trace = w.trace ++ t ∧ InTrace (w.heralds msg) t := by
  cases h with
  | invoke => exact ⟨[], (List.append_nil _).symm, .nil⟩
  | @callSuper on name args d v found =>
    have silent := (World.recalled_lookUpSuper w on name).silent
    rw [found] at silent
    exact ⟨[], by rw [silent.trace, List.append_nil], .nil⟩
  | @callBare i name args d v found =>
    have silent := (World.recalled_lookUp w (.ofInstance i) (w.meaning (.ofInstance i) name)).silent
    rw [found] at silent
    exact ⟨[], by rw [silent.trace, List.append_nil], .nil⟩
  | @call on name args d u v before found =>
    have silent := (World.recalled_lookUp u on (w.meaning on name)).silent
    rw [found] at silent
    obtain ⟨t, ht, intrace⟩ := before.trace hp
    exact ⟨t, by rw [silent.trace, ht], intrace⟩

/-- A method that was looked for has been defined under the name that was looked for. -/
theorem Comes.name_eq (hw : w.Sound) (hn : w.Named) (h : Comes host p w msg m own v)
    (hs : w.sought? msg = some name) : m.name = name := by
  have named : ∀ {u : World Code σ} {on : Receiver} {called : String} {d : Definition Code},
      u.Sound → u.Named → u.lookUp on called = (some d, v) → d.method.name = called := by
    intro u on called d hu hn found
    have nearest : u.nearest? on called = some d := by rw [← hu.lookUp_fst, found]
    exact hn.name_of_nearest? nearest
  cases h with
  | invoke => cases hs
  | @callSuper on called args d v found =>
    obtain rfl := Option.some.inj hs
    have first : w.superDefinition? on called = some d := by rw [← hw.lookUpSuper_fst, found]
    exact hn.name_of_superDefinition? first
  | callBare found =>
    obtain rfl := Option.some.inj hs
    exact named hw hn found
  | call before found =>
    obtain rfl := Option.some.inj hs
    obtain ⟨steps, rfl⟩ :=
      keeps_forM kept_steps (fun _ => stepwise_recorded hp _ _) w _ _ (forM_eq_ok_iff.mpr before)
    exact named (hw.after steps) (hn.after hw steps) found

end

/-- What becomes of a message that has come to a method. -/
structure Guarded (host : Host Code σ) (fuel : Nat) (w : World Code σ) (msg : Message Code)
    (m : Method Code) (own : List Frame) (v : World Code σ) : Prop where
  /-- A method that was looked for has kept the name it was defined under. -/
  named name (sought : w.sought? msg = some name) : m.name = name
  /-- The body starts if the arity accepts the arguments, on these and on the receiver. -/
  starts m' on args frames u :
    Starts host (host.performer fuel) w msg (.body m' on args frames) u ↔
      m.arity.accepts msg.args.length = true ∧ m' = m ∧ on = msg.receiver ∧ args = msg.args ∧
        frames = own ++ v.frames ∧ u = v.pushFrames own
  entered (accepts : m.arity.accepts msg.args.length = true) :
    ∃ ended, Invoked host (host.performer fuel) m msg.receiver msg.args (v.pushFrames own) ended ∧
      host.performer (fuel + 1) msg w =
        ended.bind fun e => conclude host (host.performer fuel) msg e.1 e.2
  refused (rejects : m.arity.accepts msg.args.length = false) :
    host.performer (fuel + 1) msg w =
      .ok (.error (.arityMismatch m.name msg.args.length m.arity.required), v)
  /-- No more has started than the hooks before. -/
  heralded (rejects : m.arity.accepts msg.args.length = false) :
    ∃ t, v.trace = w.trace ++ t ∧ InTrace (w.heralds msg) t

/-- Every body that starts in a world has been guarded by its arity. -/
structure Guards (host : Host Code σ) (fuel : Nat) (w : World Code σ) : Prop where
  guarded msg m own v (comes : Comes host (host.performer fuel) w msg m own v) :
    Guarded host fuel w msg m own v
  /-- There is no other way for a body to start. -/
  comes msg m on args frames u
    (starts : Starts host (host.performer fuel) w msg (.body m on args frames) u) :
    ∃ own v, Comes host (host.performer fuel) w msg m own v

theorem guarded_of_comes {fuel : Nat} (hw : w.Sound) (hn : w.Named)
    (comes : Comes host (host.performer fuel) w msg m own v) : Guarded host fuel w msg m own v where
  named name sought := comes.name_eq (host.stepwise_performer fuel) hw hn sought
  starts m' on args frames u := by
    rw [starts_body_iff]
    constructor
    · rintro ⟨own', v', comes', accepts, hon, hargs, hframes, hu⟩
      obtain ⟨rfl, rfl, rfl⟩ := comes.unique comes'
      exact ⟨accepts, rfl, hon, hargs, hframes, hu⟩
    · rintro ⟨accepts, rfl, hon, hargs, hframes, hu⟩
      exact ⟨own, v, comes, accepts, hon, hargs, hframes, hu⟩
  entered _ := deliver_of_invoked comes
  refused rejects := deliver_of_rejects comes rejects
  heralded _ := comes.trace (host.stepwise_performer fuel)

/-- However a message comes to a method, wherever a run has got, the body starts if and only if
the arity accepts the number of arguments. It is run on the arguments and the receiver of the
message, and there is no other way for a body to start. If the arity does not accept them, the
message fails with the name under which the method was defined, and no more has started for it
than the hooks before. A program whose methods have been built never stops because a body takes
an argument that is not there. -/
theorem arity_guards_bodies {γ : Type} (h : σ) (past : List (Step Code σ)) (host : Host Code σ)
    (fuel : Nat) :
    Guards host fuel ((World.initial h).after past) ∧
    ∀ (P : σ → Prop) (Q : γ → Prop) (script : Script Code σ γ), P h → host.Built P →
      script.Built P Q → host.run fuel script (World.initial h) ≠ .error .missingArgument := by
  refine ⟨⟨fun msg m own v comes => ?_, fun msg m on args frames u starts => ?_⟩, ?_⟩
  · exact guarded_of_comes (World.sound_after h past) (World.named_after h past) comes
  · obtain ⟨own, v, comes, -⟩ := starts_body_iff.mp starts
    exact ⟨own, v, comes⟩
  · exact fun P Q script hP hh hs => (hh.run_lands hs hP fuel).not_missingArgument

/-- A writer is refused without an argument, also under an alias, and starts with one. -/
theorem writer_takes_one_argument :
    let past : List (Step Nat Unit) :=
      [.perform (.newClass "A" {}), .perform (.defineWriters ⟨1⟩ ["x"]),
        .perform (.addAlias (.ofClass ⟨1⟩) "put" "x="), .perform (.instantiate ⟨1⟩)]
    let w := (World.initial ()).after past
    let idle : Host Nat Unit := ⟨fun _ _ _ => .done (.ok .unit), fun _ _ => .done (),
      fun _ _ _ => .done (), fun _ _ _ => .done (.ok .nil)⟩
    let on : Receiver := .ofInstance ⟨1⟩
    let m : Method Nat := (Method.writer "x").named "x=" .instanceSide
    let v := (w.lookUp on "x=").2
    let script : Script Nat Unit Unit :=
      .operate (.newClass "A" {}) fun k => .operate (.defineWriters k ["x"]) fun _ =>
        .operate (.instantiate k) fun i => .send (.call (.ofInstance i) "x=" []) fun _ => .done ()
    idle.performer 2 (.call on "put" []) w = .ok (.error (.arityMismatch "x=" 0 1), v) ∧
      Starts idle (idle.performer 1) w (.callBare ⟨1⟩ "put" [.nil])
        (.body m on [.nil] [⟨on, "x=", .ofClass ⟨1⟩⟩]) (v.pushFrame ⟨on, "x=", .ofClass ⟨1⟩⟩) ∧
      idle.run 1 script (World.initial ()) ≠ .error .missingArgument := by
  intro past w idle on m v script
  obtain ⟨⟨guarded, -⟩, safe⟩ := arity_guards_bodies (γ := Unit) () past idle 1
  have meaning : w.meaning on "put" = "x=" := by decide +kernel
  have bare : w.befores on "put" = [] := by decide +kernel
  have method : (w.lookUp on "x=").1 = some ⟨m, .ofClass ⟨1⟩⟩ := by decide +kernel
  have found : w.lookUp on (w.meaning on "put") = (some ⟨m, .ofClass ⟨1⟩⟩, v) := by
    rw [meaning]
    exact Prod.ext method rfl
  refine ⟨?_, ?_, ?_⟩
  · have comes : Comes idle (idle.performer 1) w (.call on "put" []) m _ v :=
      .call (by rw [bare]; exact .nil) found
    exact (guarded _ m _ v comes).refused rfl
  · have frames : [⟨on, "x=", .ofClass ⟨1⟩⟩] = [⟨on, m.name, .ofClass ⟨1⟩⟩] ++ v.frames := by
      decide +kernel
    have comes := guarded (.callBare ⟨1⟩ "put" [.nil]) m _ v (.callBare found)
    exact (comes.starts m on [.nil] _ _).mpr ⟨rfl, rfl, rfl, rfl, frames, rfl⟩
  · have built : idle.Built fun _ => True := by
      refine ⟨fun _ _ _ _ => ?_, fun _ _ _ => trivial, fun _ _ _ _ _ => trivial, fun _ _ _ _ => ?_⟩
      · rintro r ⟨⟩
        trivial
      · rintro v ⟨⟩
        trivial
    refine safe (fun _ => True) (fun _ => True) script trivial built ?_
    refine ⟨trivial, fun k _ => ⟨trivial, fun _ _ => ⟨trivial, fun i _ => ⟨?_, fun _ _ => trivial⟩⟩⟩⟩
    intro v hv
    contradiction

end Run
end ObjectModel
