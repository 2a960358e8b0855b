import ObjectModel.Program.Delivery

/-!
# What runs keep

A relation between worlds that is kept by each single change, and across the frame
of a body as a whole, holds between the world a run starts in and the one it ends
in. In particular a run leaves the frames as they were: whatever it has pushed it
has popped.
-/
namespace ObjectModel
variable {Code σ α β : Type}

namespace Run

/-- A run that does nothing ends with its answer, in the world it starts in. -/
theorem pure_eq_ok {a b : α} {w v : World Code σ} (h : (pure a : Run Code σ α) w = .ok (b, v)) :
    a = b ∧ w = v := by
  have h' : Except.ok (a, w) = Except.ok (b, v) := h
  exact Prod.mk.inj (Except.ok.inj h')

/-- A run that ends has ended its first part, and then the rest. -/
theorem bind_eq_ok {r : Run Code σ α} {f : α → Run Code σ β} {w u : World Code σ} {b : β}
    (h : (r >>= f) w = .ok (b, u)) : ∃ a v, r w = .ok (a, v) ∧ f a v = .ok (b, u) := by
  have h' : Except.bind (r w) (fun p => f p.1 p.2) = .ok (b, u) := h
  cases hr : r w with
  | error e =>
    rw [hr] at h'
    contradiction
  | ok p =>
    rw [hr] at h'
    exact ⟨p.1, p.2, rfl, h'⟩

theorem bind_of_eq_ok {r : Run Code σ α} {f : α → Run Code σ β} {w v : World Code σ} {a : α}
    (h : r w = .ok (a, v)) : (r >>= f) w = f a v := by
  change Except.bind (r w) (fun p => f p.1 p.2) = _
  rw [h]
  rfl

/-- What is done next depends only on how the part before it has ended. -/
theorem bind_congr_at {r r' : Run Code σ α} {w v : World Code σ} (h : r w = r' v)
    (f : α → Run Code σ β) : (r >>= f) w = (r' >>= f) v := by
  change Except.bind (r w) (fun a => f a.1 a.2) = Except.bind (r' v) fun a => f a.1 a.2
  rw [h]

section
variable {w v u : World Code σ} {m : Method Code} {d : Definition Code} {on : Receiver}
  {name : String} {args : List (Value Code)} {outcome : Outcome Code} (host : Host Code σ)
  (performer : Performer Code σ)

theorem invoke_of_accepts (h : m.arity.accepts args.length = true) (on : Receiver) :
    invoke host performer m on args = runBody host performer m on args := by
  rw [invoke, if_pos h, Signature.select_of_accepts h]

theorem invoke_of_rejects (h : m.arity.accepts args.length ≠ true) (on : Receiver) :
    invoke host performer m on args =
      pure (.error (.arityMismatch m.name args.length m.arity.required)) :=
  if_neg h

/-- A method that was found is invoked in its frame. -/
theorem invokeFound_eq (d : Definition Code) (on : Receiver) (args : List (Value Code))
    (w : World Code σ) :
    invokeFound host performer d on args w =
      (invoke host performer d.method on args >>= fun outcome => modify World.popFrame >>= fun _ =>
        pure outcome) (w.pushFrame ⟨on, d.method.name, d.level⟩) := rfl

theorem invokeFound_of_eq_ok (h : invoke host performer d.method on args
      (w.pushFrame ⟨on, d.method.name, d.level⟩) = .ok (outcome, u)) :
    invokeFound host performer d on args w = .ok (outcome, u.popFrame) := by
  rw [invokeFound_eq, bind_of_eq_ok h]
  rfl

variable {host performer} in
theorem invokeFound_eq_ok (h : invokeFound host performer d on args w = .ok (outcome, v)) :
    ∃ u, invoke host performer d.method on args (w.pushFrame ⟨on, d.method.name, d.level⟩) =
      .ok (outcome, u) ∧ u.popFrame = v := by
  rw [invokeFound_eq] at h
  obtain ⟨o, u, hinvoke, hpop⟩ := bind_eq_ok h
  obtain ⟨rfl, rfl⟩ := pure_eq_ok (w := u.popFrame) hpop
  exact ⟨u, hinvoke, rfl⟩

theorem dispatch_of_found (h : w.lookUp on name = (some d, v)) (args : List (Value Code)) :
    dispatch host performer on name args w = invokeFound host performer d on args v := by
  have looked : (modifyGet fun w => w.lookUp on name : Run Code σ _) w = .ok (some d, v) := by
    rw [← h]
    rfl
  exact bind_of_eq_ok looked

end

/-- A relation between worlds holds from where a run starts to where it ends. -/
def Keeps (P : World Code σ → World Code σ → Prop) (r : Run Code σ α) : Prop :=
  ∀ w a v, r w = .ok (a, v) → P w v

/-- A relation that single changes keep, and frames around what keeps it. -/
structure Kept (P : World Code σ → World Code σ → Prop) : Prop where
  refl : ∀ w, P w w
  trans : ∀ {w v u}, P w v → P v u → P w u
  perform : ∀ w (op : Operation Code σ), P w (op.apply w).2
  lookUp : ∀ w on name, P w (w.lookUp on name).2
  lookUpSuper : ∀ w on name, P w (w.lookUpSuper on name).2
  assign : ∀ w i name v,
    P w (w.modifyState i fun s => { s with vars := s.vars.insert name v })
  record : ∀ w e, P w (w.record e)
  framed : ∀ w f v, P (w.pushFrame f) v → P w v.popFrame

section
variable {P : World Code σ → World Code σ → Prop} (hP : Kept P)
include hP

theorem keeps_pure (a : α) : Keeps P (pure a : Run Code σ α) := by
  intro w b v h
  obtain ⟨rfl, rfl⟩ := pure_eq_ok h
  exact hP.refl w

omit hP in
theorem keeps_throw (e : Halt) : Keeps P (throw e : Run Code σ α) := by
  intro w b v h
  have h' : Except.error e = Except.ok (b, v) := h
  contradiction

theorem Keeps.bind {r : Run Code σ α} {f : α → Run Code σ β} (hr : Keeps P r)
    (hf : ∀ a, Keeps P (f a)) : Keeps P (r >>= f) := by
  intro w b u h
  obtain ⟨a, v, hv, hu⟩ := bind_eq_ok h
  exact hP.trans (hr w a v hv) (hf a v b u hu)

theorem keeps_get : Keeps P (get : Run Code σ (World Code σ)) := by
  intro w b v h
  have h' : Except.ok (w, w) = Except.ok (b, v) := h
  obtain ⟨rfl, rfl⟩ := Prod.mk.inj (Except.ok.inj h')
  exact hP.refl w

omit hP in
theorem keeps_modifyGet {f : World Code σ → α × World Code σ} (hf : ∀ w, P w (f w).2) :
    Keeps P (modifyGet f : Run Code σ α) := by
  intro w b v h
  have h' : Except.ok (f w) = Except.ok (b, v) := h
  have hw := hf w
  rwa [Except.ok.inj h'] at hw

theorem keeps_forM {l : List α} {f : α → Run Code σ PUnit} (hf : ∀ a, Keeps P (f a)) :
    Keeps P (l.forM f) := by
  induction l with
  | nil => exact keeps_pure hP _
  | cons a l ih => exact (hf a).bind hP fun _ => ih

variable {host : Host Code σ} {performer : Performer Code σ}

theorem keeps_script (hp : ∀ m, Keeps P (performer m)) (s : Script Code σ α) :
    Keeps P (s.run performer) := by
  induction s with
  | done a => exact keeps_pure hP a
  | operate op next ih => exact (keeps_modifyGet fun w => hP.perform w op).bind hP ih
  | send m next ih => exact (hp m).bind hP ih

/-- A piece of code is recorded and then run. -/
theorem keeps_recorded (hp : ∀ m, Keeps P (performer m)) (e : Event Code) (s : Script Code σ α) :
    Keeps P (do modify fun w => w.record e; s.run performer) :=
  (keeps_modifyGet fun w => hP.record w e).bind hP fun _ => keeps_script hP hp s

/-- A body is recorded, and then does its work. -/
theorem runBody_recorded (host : Host Code σ) (hp : ∀ m, Keeps P (performer m)) (m : Method Code)
    (on : Receiver) (args : List (Value Code)) :
    ∃ work : Run Code σ (Outcome Code), Keeps P work ∧
      ∀ w, runBody host performer m on args w = work (w.record (.body m on args w.frames)) := by
  have start : ∀ (work : Run Code σ (Outcome Code)) w,
      (modify (fun w => w.record (.body m on args w.frames)) >>= fun _ => work) w =
        work (w.record (.body m on args w.frames)) := fun _ _ => rfl
  refine ⟨_, ?_, start _⟩
  cases m.body with
  | reader x =>
    refine Keeps.bind hP ?_ fun v => keeps_pure hP _
    cases on with
    | ofInstance i => exact (keeps_get hP).bind hP fun w => keeps_pure hP _
    | ofClass k => exact keeps_pure hP _
  | writer x =>
    cases args with
    | nil => exact keeps_throw _
    | cons v rest =>
      refine Keeps.bind hP ?_ fun _ => keeps_pure hP _
      cases on with
      | ofInstance i => exact keeps_modifyGet fun w => hP.assign w i x v
      | ofClass k => exact keeps_pure hP _
  | host code =>
    refine (keeps_script hP hp _).bind hP fun outcome => ?_
    cases outcome with
    | error e => exact keeps_pure hP _
    | ok reply =>
      exact (keeps_modifyGet fun w => hP.perform w (.box reply)).bind hP fun _ => keeps_pure hP _

theorem keeps_runBody (hp : ∀ m, Keeps P (performer m)) (m : Method Code) (on : Receiver)
    (args : List (Value Code)) : Keeps P (runBody host performer m on args) := by
  obtain ⟨work, hwork, heq⟩ := runBody_recorded hP host hp m on args
  intro w o v h
  rw [heq] at h
  exact hP.trans (hP.record w _) (hwork _ o v h)

theorem keeps_invoke (hp : ∀ m, Keeps P (performer m)) (m : Method Code) (on : Receiver)
    (args : List (Value Code)) : Keeps P (invoke host performer m on args) := by
  by_cases accepts : m.arity.accepts args.length = true
  · rw [invoke_of_accepts host performer accepts]
    exact keeps_runBody hP hp m on args
  · rw [invoke_of_rejects host performer accepts]
    exact keeps_pure hP _

theorem keeps_invokeFound (hp : ∀ m, Keeps P (performer m)) (d : Definition Code) (on : Receiver)
    (args : List (Value Code)) : Keeps P (invokeFound host performer d on args) := by
  intro w o v h
  obtain ⟨u, hu, rfl⟩ := invokeFound_eq_ok h
  exact hP.framed w _ u (keeps_invoke hP hp d.method on args _ _ _ hu)

theorem keeps_dispatch (hp : ∀ m, Keeps P (performer m)) (on : Receiver) (name : String)
    (args : List (Value Code)) : Keeps P (dispatch host performer on name args) := by
  refine (keeps_modifyGet fun w => hP.lookUp w on name).bind hP fun found => ?_
  cases found with
  | some d => exact keeps_invokeFound hP hp d on args
  | none =>
    refine (keeps_get hP).bind hP fun w => ?_
    cases w.handler? on with
    | some code => exact keeps_recorded hP hp _ _
    | none => exact keeps_pure hP _

theorem keeps_call (hp : ∀ m, Keeps P (performer m)) (on : Receiver) (name : String)
    (args : List (Value Code)) : Keeps P (call host performer on name args) := by
  refine (keeps_get hP).bind hP fun w => ?_
  refine (keeps_forM hP fun code => keeps_recorded hP hp _ _).bind hP fun _ => ?_
  refine (keeps_dispatch hP hp _ _ _).bind hP fun outcome => ?_
  cases outcome with
  | error e => exact keeps_pure hP _
  | ok v =>
    refine (keeps_get hP).bind hP fun w => ?_
    exact (keeps_forM hP fun code => keeps_recorded hP hp _ _).bind hP fun _ => keeps_pure hP _

theorem keeps_callSuper (hp : ∀ m, Keeps P (performer m)) (on : Receiver) (name : String)
    (args : List (Value Code)) : Keeps P (callSuper host performer on name args) := by
  refine (keeps_modifyGet fun w => hP.lookUpSuper w on name).bind hP fun found => ?_
  cases found with
  | some d => exact keeps_invokeFound hP hp d on args
  | none => exact (keeps_get hP).bind hP fun w => keeps_pure hP _

theorem keeps_deliver (hp : ∀ m, Keeps P (performer m)) (m : Message Code) :
    Keeps P (deliver host performer m) := by
  cases m with
  | call on name args => exact keeps_call hP hp on name args
  | callBare i name args => exact (keeps_get hP).bind hP fun w => keeps_dispatch hP hp _ _ _
  | callSuper on name args => exact keeps_callSuper hP hp on name args
  | invoke m on args => exact keeps_invoke hP hp m on args

theorem keeps_performer (host : Host Code σ) (fuel : Nat) (m : Message Code) :
    Keeps P (host.performer fuel m) := by
  induction fuel generalizing m with
  | zero => exact keeps_throw _
  | succ fuel ih => exact keeps_deliver hP ih m

end

end Run
end ObjectModel
