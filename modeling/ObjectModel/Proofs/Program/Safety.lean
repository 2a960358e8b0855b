import ObjectModel.Proofs.Program.Built

/-!
# Bodies that are never short of an argument

A body that takes an argument has a signature that asks for it, and is run on arguments that
its arity accepts. So a program whose methods have been built ends with an answer or runs
out of depth; it never stops because an argument is not there.
-/
namespace ObjectModel
variable {Code σ α β : Type}

namespace Run
variable {P : σ → Prop} {Q : α → Prop} {R : β → Prop}

/-- A run has ended well in a sound world with built methods only, or it has been cut off. -/
inductive Lands (P : σ → Prop) (Q : α → Prop) : Except Halt (α × World Code σ) → Prop
  | ended {a : α} {v : World Code σ} (answer : Q a) (sound : v.Sound) (built : v.Built P) :
    Lands P Q (.ok (a, v))
  | outOfFuel : Lands P Q (.error .outOfFuel)

/-- A run lands from every sound world with built methods only. -/
def Safe (P : σ → Prop) (Q : α → Prop) (r : Run Code σ α) : Prop :=
  ∀ w, w.Sound → w.Built P → Lands P Q (r w)

theorem Lands.not_missingArgument {r : Except Halt (α × World Code σ)} (h : Lands P Q r) :
    r ≠ .error .missingArgument := by
  rintro rfl
  cases h

theorem safe_pure {a : α} (ha : Q a) : Safe P Q (pure a : Run Code σ α) :=
  fun _ hw hb => .ended ha hw hb

theorem Safe.bind {r : Run Code σ α} {f : α → Run Code σ β} (hr : Safe P Q r)
    (hf : ∀ a, Q a → Safe P R (f a)) : Safe P R (r >>= f) := by
  intro w hw hb
  change Lands P R (Except.bind (r w) fun a => f a.1 a.2)
  have landed := hr w hw hb
  revert landed
  generalize r w = result
  intro landed
  cases landed with
  | ended answer sound built => exact hf _ answer _ sound built
  | outOfFuel => exact .outOfFuel

theorem safe_get : Safe P (fun w => w.Sound ∧ w.Built P) (get : Run Code σ (World Code σ)) :=
  fun _ hw hb => .ended ⟨hw, hb⟩ hw hb

theorem safe_modifyGet {f : World Code σ → α × World Code σ}
    (hf : ∀ w, w.Sound → w.Built P → Q (f w).1 ∧ (f w).2.Sound ∧ (f w).2.Built P) :
    Safe P Q (modifyGet f : Run Code σ α) := by
  intro w hw hb
  obtain ⟨answer, sound, built⟩ := hf w hw hb
  exact .ended answer sound built

theorem safe_step {s : Step Code σ} (hs : s.Built P) :
    Safe P (fun _ => True) (modify s.next : Run Code σ Unit) :=
  safe_modifyGet fun _ hw hb => ⟨trivial, hw.next s, hb.next hs⟩

theorem safe_perform {op : Operation Code σ} (hop : op.Built P) :
    Safe P (op.Yields P) (modifyGet fun w => op.apply w : Run Code σ op.Answer) :=
  safe_modifyGet fun _ hw hb => ⟨hop.yields hb hw, hw.next (.perform op), hop.apply hb⟩

theorem safe_lookUp (on : Receiver) (name : String) :
    Safe P (fun found => ∀ d, found = some d → d.method.Built)
      (modifyGet fun w => w.lookUp on name : Run Code σ (Finding Code)) := by
  refine safe_modifyGet fun w hw hb => ⟨fun d hd => ?_, hw.next (.lookUp on name), ?_⟩
  · rw [hw.lookUp_fst] at hd
    exact hb.of_nearest? hd
  · exact hb.recalled (World.recalled_lookUp w on name)

theorem safe_lookUpSuper (on : Receiver) (name : String) :
    Safe P (fun found => ∀ d, found = some d → d.method.Built)
      (modifyGet fun w => w.lookUpSuper on name : Run Code σ (Finding Code)) := by
  refine safe_modifyGet fun w hw hb => ⟨fun d hd => ?_, hw.next (.lookUpSuper on name), ?_⟩
  · rw [hw.lookUpSuper_fst] at hd
    exact hb.of_superDefinition? hd
  · exact hb.recalled (World.recalled_lookUpSuper w on name)

theorem safe_readVariable (on : Receiver) (name : String) :
    Safe P Value.Built (readVariable on name : Run Code σ (Value Code)) := by
  cases on with
  | ofInstance i => exact safe_get.bind fun w hw => safe_pure ((hw.2.stateAt i).vars.get name)
  | ofClass k => exact safe_pure trivial

theorem safe_writeVariable (on : Receiver) (name : String) {v : Value Code} (hv : v.Built) :
    Safe P (fun _ => True) (writeVariable on name v : Run Code σ Unit) := by
  cases on with
  | ofInstance i => exact safe_step (s := .assign i name v) hv
  | ofClass k => exact safe_pure trivial

theorem safe_forM {l : List α} {f : α → Run Code σ PUnit} (hf : ∀ a, Safe P (fun _ => True) (f a)) :
    Safe P (fun _ => True) (l.forM f) := by
  induction l with
  | nil => exact safe_pure trivial
  | cons a l ih => exact (hf a).bind fun _ _ => ih

variable {host : Host Code σ} {p : Performer Code σ} (hp : ∀ m, m.Built → Safe P Outcome.Built (p m))
include hp

theorem safe_script {s : Script Code σ α} (hs : s.Built P Q) : Safe P Q (s.run p) := by
  induction s with
  | done a => exact safe_pure hs
  | operate op next ih => exact (safe_perform hs.1).bind fun a ha => ih a (hs.2 a ha)
  | send m next ih => exact (hp m hs.1).bind fun outcome ho => ih outcome (hs.2 outcome ho)

/-- A piece of code is recorded and then run. -/
theorem safe_recorded (e : Event Code) {s : Script Code σ α} (hs : s.Built P Q) :
    Safe P Q (do modify fun w => w.record e; s.run p) :=
  (safe_step (s := .record e) trivial).bind fun _ _ => safe_script hp hs

variable {m : Method Code} {args : List (Value Code)} (hargs : ∀ v ∈ args, Value.Built v)
include hargs

/-- The one body that takes its argument from the list is that of a writer, and the signature of
a writer asks for one. -/
theorem safe_runBody (hh : host.Built P) (hm : m.Built)
    (accepts : m.arity.accepts args.length = true) (on : Receiver) :
    Safe P Outcome.Built (runBody host p m on args) := by
  have recorded : Safe P (fun _ => True)
      (modify fun w => w.record (.body m on args w.frames) : Run Code σ Unit) :=
    safe_modifyGet fun w hw hb => ⟨trivial, hw.next (.record (.body m on args w.frames)),
      hb.of_records rfl rfl rfl hb.host⟩
  refine recorded.bind fun _ _ => ?_
  cases hbody : m.body with
  | reader x =>
    refine (safe_readVariable on x).bind fun v hv => safe_pure ?_
    rintro _ ⟨⟩
    exact hv
  | writer x =>
    have signature := hm.signature_of_writer hbody
    cases args with
    | nil =>
      rw [Method.arity, signature] at accepts
      contradiction
    | cons v rest =>
      have hv : v.Built := hargs v List.mem_cons_self
      refine (safe_writeVariable on x hv).bind fun _ _ => safe_pure ?_
      rintro _ ⟨⟩
      exact hv
  | host code =>
    refine (safe_script hp (hh.body code _ args hargs)).bind fun answer hanswer => ?_
    cases answer with
    | error e => exact safe_pure fun v hv => by contradiction
    | ok r =>
      have boxed : Operation.Built P (.box r : Operation Code σ) := hanswer r rfl
      refine (safe_perform boxed).bind fun v hv => safe_pure ?_
      rintro _ ⟨⟩
      exact hv

theorem safe_invoke (hh : host.Built P) (hm : m.Built) (on : Receiver) :
    Safe P Outcome.Built (invoke host p m on args) := by
  by_cases accepts : m.arity.accepts args.length = true
  · rw [invoke_of_accepts host p accepts]
    exact safe_runBody hp hargs hh hm accepts on
  · rw [invoke_of_rejects host p accepts]
    exact safe_pure fun v hv => by contradiction

theorem safe_invokeFound (hh : host.Built P) {d : Definition Code} (hd : d.method.Built)
    (on : Receiver) : Safe P Outcome.Built (invokeFound host p d on args) := by
  refine (safe_step (s := .push _) trivial).bind fun _ _ => ?_
  refine (safe_invoke hp hargs hh hd on).bind fun outcome ho => ?_
  exact (safe_step (s := .pop) trivial).bind fun _ _ => safe_pure ho

theorem safe_dispatch (hh : host.Built P) (on : Receiver) (name : String) :
    Safe P Outcome.Built (dispatch host p on name args) := by
  refine (safe_lookUp on name).bind fun found hfound => ?_
  cases found with
  | some d => exact safe_invokeFound hp hargs hh (hfound d rfl) on
  | none =>
    refine safe_get.bind fun w _ => ?_
    cases w.handler? on with
    | some code => exact safe_recorded hp _ (hh.missing code name args hargs)
    | none => exact safe_pure fun v hv => by contradiction

theorem safe_call (hh : host.Built P) (on : Receiver) (name : String) :
    Safe P Outcome.Built (call host p on name args) := by
  refine safe_get.bind fun w _ => ?_
  refine (safe_forM fun code => safe_recorded hp _ (hh.before code args hargs)).bind fun _ _ => ?_
  refine (safe_dispatch hp hargs hh on _).bind fun outcome ho => ?_
  cases outcome with
  | error e => exact safe_pure ho
  | ok v =>
    refine safe_get.bind fun u _ => ?_
    exact (safe_forM fun code => safe_recorded hp _ (hh.after code v args (ho v rfl) hargs)).bind
      fun _ _ => safe_pure ho

theorem safe_callSuper (hh : host.Built P) (on : Receiver) (name : String) :
    Safe P Outcome.Built (callSuper host p on name args) := by
  refine (safe_lookUpSuper on name).bind fun found hfound => ?_
  cases found with
  | some d => exact safe_invokeFound hp hargs hh (hfound d rfl) on
  | none => exact safe_get.bind fun w _ => safe_pure fun v hv => by contradiction

omit hargs in
theorem safe_deliver (hh : host.Built P) {m : Message Code} (hm : m.Built) :
    Safe P Outcome.Built (deliver host p m) := by
  cases m with
  | call on name args => exact safe_call hp hm hh on name
  | callBare i name args => exact safe_get.bind fun w _ => safe_dispatch hp hm hh _ _
  | callSuper on name args => exact safe_callSuper hp hm hh on name
  | invoke m on args => exact safe_invoke hp hm.2 hh hm.1 on

omit hp hargs in
theorem safe_performer (hh : host.Built P) (fuel : Nat) {m : Message Code} (hm : m.Built) :
    Safe P Outcome.Built (host.performer fuel m) := by
  induction fuel generalizing m with
  | zero => exact fun _ _ _ => .outOfFuel
  | succ fuel ih => exact safe_deliver (fun _ => ih) hh hm

end Run

/-- A program whose methods have been built never stops because an argument is not there. -/
theorem Host.Built.run_lands {P : σ → Prop} {Q : α → Prop} {host : Host Code σ} (hh : host.Built P)
    {script : Script Code σ α} (hs : script.Built P Q) {h : σ} (hP : P h) (fuel : Nat) :
    Run.Lands P Q (host.run fuel script (World.initial h)) :=
  Run.safe_script (fun _ => Run.safe_performer hh fuel) hs _ (World.sound_initial h)
    (World.built_initial hP)

end ObjectModel
