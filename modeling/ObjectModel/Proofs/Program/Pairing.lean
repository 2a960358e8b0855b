import ObjectModel.Proofs.Program.Answers
import ObjectModel.Proofs.Program.Trace

/-!
# Two runs side by side

Two runs go side by side when both end, with answers and worlds that are related, or
both halt for the same reason. Delivery goes side by side in two worlds as soon as
what it reads is the same in both, what it changes keeps them related, and the
scripts it runs do.
-/
namespace ObjectModel
variable {Code σ α β γ δ : Type}

namespace Run

/-- What two runs that go side by side have come to. -/
inductive Paired (T : World Code σ → World Code σ → Prop) (R : α → β → Prop) :
    Except Halt (α × World Code σ) → Except Halt (β × World Code σ) → Prop
  | ended {a : α} {b : β} {w v : World Code σ} (answers : R a b) (worlds : T w v) :
      Paired T R (.ok (a, w)) (.ok (b, v))
  | halted (e : Halt) : Paired T R (.error e) (.error e)

/-- A relation between worlds that lets runs go side by side. A frame comes off both
worlds when the bodies it was pushed for have left the other frames as they were. -/
structure Coupling (T : World Code σ → World Code σ → Prop) : Prop where
  vars : ∀ {w v}, T w v → ∀ i, (w.stateAt i).vars = (v.stateAt i).vars
  target : ∀ {w v}, T w v → ∀ on name, w.target on name = v.target on name
  handler : ∀ {w v}, T w v → ∀ on, w.handler? on = v.handler? on
  receiverName : ∀ {w v}, T w v → ∀ on, w.receiverName on = v.receiverName on
  found : ∀ {w v}, T w v → ∀ on name, (w.lookUp on name).1 = (v.lookUp on name).1
  lookUp : ∀ {w v}, T w v → ∀ on name, T (w.lookUp on name).2 (v.lookUp on name).2
  foundAbove : ∀ {w v}, T w v → ∀ on name, (w.lookUpSuper on name).1 = (v.lookUpSuper on name).1
  lookUpSuper : ∀ {w v}, T w v → ∀ on name, T (w.lookUpSuper on name).2 (v.lookUpSuper on name).2
  boxed : ∀ {w v}, T w v → ∀ reply, (w.box reply).1 = (v.box reply).1
  box : ∀ {w v}, T w v → ∀ reply, T (w.box reply).2 (v.box reply).2
  assign : ∀ {w v}, T w v → ∀ i name x,
    T (w.modifyState i fun s => { s with vars := s.vars.insert name x })
      (v.modifyState i fun s => { s with vars := s.vars.insert name x })
  body : ∀ {w v}, T w v → ∀ m on args,
    T (w.record (.body m on args w.frames)) (v.record (.body m on args v.frames))
  event : ∀ {w v}, T w v → ∀ e, T (w.record e) (v.record e)
  push : ∀ {w v}, T w v → ∀ f, T (w.pushFrame f) (v.pushFrame f)
  pop : ∀ {w v w' v'}, T w v → T w' v' → ∀ f, w'.frames = f :: w.frames →
    v'.frames = f :: v.frames → T w'.popFrame v'.popFrame

/-- A run leaves the frames as they were. -/
abbrev Balanced (r : Run Code σ α) : Prop := Keeps (fun w v => v.frames = w.frames) r

theorem kept_frames : Kept fun w v : World Code σ => v.frames = w.frames where
  refl _ := rfl
  trans h h' := h'.trans h
  perform w op := (op.silent_apply w).frames
  lookUp w on name := (World.recalled_lookUp w on name).silent.frames
  lookUpSuper w on name := (World.recalled_lookUpSuper w on name).silent.frames
  assign _ _ _ _ := rfl
  record _ _ := rfl
  framed _ _ _ h := congrArg List.tail h

theorem balanced_performer (host : Host Code σ) (fuel : Nat) (m : Message Code) :
    Balanced (host.performer fuel m) :=
  keeps_performer kept_frames host fuel m

section
variable {T : World Code σ → World Code σ → Prop} {w v : World Code σ}

theorem Paired.bind {R : α → β → Prop} {S : γ → δ → Prop} {r : Run Code σ α} {r' : Run Code σ β}
    {f : α → Run Code σ γ} {f' : β → Run Code σ δ} (first : Paired T R (r w) (r' v))
    (rest : ∀ a b w' v', r w = .ok (a, w') → r' v = .ok (b, v') → R a b → T w' v' →
      Paired T S (f a w') (f' b v')) : Paired T S ((r >>= f) w) ((r' >>= f') v) := by
  change Paired T S (Except.bind (r w) fun p => f p.1 p.2) (Except.bind (r' v) fun p => f' p.1 p.2)
  generalize hx : r w = x at first rest
  generalize hy : r' v = y at first rest
  cases first with
  | ended answers worlds => exact rest _ _ _ _ rfl rfl answers worlds
  | halted e => exact .halted e

/-- The end of a run whose last part only looks at the answer. -/
theorem Paired.pure_bind {R : α → β → Prop} {S : γ → δ → Prop} {r : Run Code σ α}
    {r' : Run Code σ β} {f : α → γ} {f' : β → δ} (first : Paired T R (r w) (r' v))
    (answers : ∀ a b, R a b → S (f a) (f' b)) :
    Paired T S ((r >>= fun a => pure (f a)) w) ((r' >>= fun b => pure (f' b)) v) :=
  first.bind fun a b _ _ _ _ hab h => .ended (answers a b hab) h

/-- Loops go side by side if each of their parts does after those before it. -/
theorem Paired.forM_of_ran {l : List γ} {f f' : γ → Run Code σ PUnit}
    (hf : ∀ earlier c later u v, l = earlier ++ c :: later → earlier.forM f w = .ok (⟨⟩, u) →
      T u v → Paired T Eq (f c u) (f' c v)) (h : T w v) :
    Paired T Eq (l.forM f w) (l.forM f' v) := by
  have rest : ∀ later earlier u v, l = earlier ++ later → earlier.forM f w = .ok (⟨⟩, u) → T u v →
      Paired T Eq (later.forM f u) (later.forM f' v) := by
    intro later
    induction later with
    | nil => exact fun _ _ _ _ _ h => .ended rfl h
    | cons c later ih =>
      intro earlier u v hl ran h
      refine (hf earlier c later u v hl ran h).bind fun _ _ u' v' hu _ _ h' => ?_
      refine ih (earlier ++ [c]) u' v' (by rw [hl, List.append_assoc, List.singleton_append]) ?_ h'
      have split : (earlier ++ [c]).forM f = earlier.forM f >>= fun _ => [c].forM f :=
        List.forM_append
      rw [split]
      exact (bind_of_eq_ok ran).trans (bind_of_eq_ok hu)
  exact rest l [] w v rfl rfl h

theorem Paired.forM {l l' : List γ} {f f' : γ → Run Code σ PUnit} (hl : l = l') (h : T w v)
    (hf : ∀ c w v, T w v → Paired T Eq (f c w) (f' c v)) :
    Paired T Eq (l.forM f w) (l'.forM f' v) := by
  subst hl
  exact .forM_of_ran (fun _ c _ u v _ _ h => hf c u v h) h

theorem paired_get {S : γ → δ → Prop} {f : World Code σ → Run Code σ γ}
    {f' : World Code σ → Run Code σ δ} (h : Paired T S (f w w) (f' v v)) :
    Paired T S ((get >>= f) w) ((get >>= f') v) := h

theorem paired_modify {S : γ → δ → Prop} {g g' : World Code σ → World Code σ}
    {f : PUnit → Run Code σ γ} {f' : PUnit → Run Code σ δ}
    (h : Paired T S (f ⟨⟩ (g w)) (f' ⟨⟩ (g' v))) :
    Paired T S ((modify g >>= f) w) ((modify g' >>= f') v) := h

theorem paired_modifyGet {S : γ → δ → Prop} {g : World Code σ → α × World Code σ}
    {g' : World Code σ → β × World Code σ} {f : α → Run Code σ γ} {f' : β → Run Code σ δ}
    (h : Paired T S (f (g w).1 (g w).2) (f' (g' v).1 (g' v).2)) :
    Paired T S ((modifyGet g >>= f) w) ((modifyGet g' >>= f') v) := h

variable {host host' : Host Code σ} {p p' : Performer Code σ} (hT : Coupling T)
include hT

theorem paired_runBody (h : T w v) (m : Method Code) (on : Receiver) (args : List (Value Code))
    (script : ∀ code, m.body = .host code →
      let receiver := if m.signature.takesReceiver then some on else none
      Paired T Eq ((host.body code receiver args).run p (w.record (.body m on args w.frames)))
        ((host'.body code receiver args).run p' (v.record (.body m on args v.frames)))) :
    Paired T Eq (runBody host p m on args w) (runBody host' p' m on args v) := by
  have start := hT.body h m on args
  unfold runBody
  refine paired_modify ?_
  cases hb : m.body with
  | reader name =>
    cases on with
    | ofInstance i =>
      have same : Variables.get _ name = Variables.get _ name :=
        congrArg (Variables.get · name) (hT.vars start i)
      exact .ended (congrArg Except.ok same) start
    | ofClass k => exact .ended rfl start
  | writer name =>
    cases args with
    | nil => exact .halted _
    | cons x rest =>
      cases on with
      | ofInstance i => exact .ended rfl (hT.assign start i name x)
      | ofClass k => exact .ended rfl start
  | host code =>
    refine (script code hb).bind ?_
    rintro outcome _ w' v' _ _ rfl h'
    cases outcome with
    | error e => exact .ended rfl h'
    | ok reply => exact .ended (congrArg Except.ok (hT.boxed h' reply)) (hT.box h' reply)

theorem paired_invoke (h : T w v) (m : Method Code) (on : Receiver) (args : List (Value Code))
    (script : m.arity.accepts args.length = true → ∀ code, m.body = .host code →
      let receiver := if m.signature.takesReceiver then some on else none
      Paired T Eq ((host.body code receiver args).run p (w.record (.body m on args w.frames)))
        ((host'.body code receiver args).run p' (v.record (.body m on args v.frames)))) :
    Paired T Eq (invoke host p m on args w) (invoke host' p' m on args v) := by
  by_cases accepts : m.arity.accepts args.length = true
  · rw [invoke_of_accepts host p accepts, invoke_of_accepts host' p' accepts]
    exact paired_runBody hT h m on args (script accepts)
  · rw [invoke_of_rejects host p accepts, invoke_of_rejects host' p' accepts]
    exact .ended rfl h

theorem paired_invokeFound (hp : ∀ m, Balanced (p m)) (hp' : ∀ m, Balanced (p' m)) (h : T w v)
    (d : Definition Code) (on : Receiver) (args : List (Value Code))
    (inner : Paired T Eq (invoke host p d.method on args (w.pushFrame ⟨on, d.method.name, d.level⟩))
      (invoke host' p' d.method on args (v.pushFrame ⟨on, d.method.name, d.level⟩))) :
    Paired T Eq (invokeFound host p d on args w) (invokeFound host' p' d on args v) := by
  unfold invokeFound
  refine paired_modify (inner.bind ?_)
  rintro outcome _ w' v' hw hv rfl h'
  have left := keeps_invoke kept_frames hp d.method on args _ _ _ hw
  have right := keeps_invoke kept_frames hp' d.method on args _ _ _ hv
  exact .ended rfl (hT.pop h h' _ left right)

theorem paired_dispatch (h : T w v) (on : Receiver) (name : String) (args : List (Value Code))
    (found : ∀ d, (w.lookUp on name).1 = some d → Paired T Eq
      (invokeFound host p d on args (w.lookUp on name).2)
      (invokeFound host' p' d on args (v.lookUp on name).2))
    (missing : ∀ code, (w.lookUp on name).1 = none →
      (w.lookUp on name).2.handler? on = some code → Paired T Eq
        (runMissing host p code name args (w.lookUp on name).2)
        (runMissing host' p' code name args (v.lookUp on name).2)) :
    Paired T Eq (dispatch host p on name args w) (dispatch host' p' on name args v) := by
  have next := hT.lookUp h on name
  unfold dispatch
  refine paired_modifyGet ?_
  rw [← hT.found h on name]
  cases hd : (w.lookUp on name).1 with
  | some d => exact found d hd
  | none =>
    refine paired_get ?_
    rw [← hT.handler next on]
    cases hc : (w.lookUp on name).2.handler? on with
    | some code => exact missing code hd hc
    | none =>
      refine .ended ?_ next
      rw [hT.receiverName next on]

theorem paired_callSuper (h : T w v) (on : Receiver) (name : String) (args : List (Value Code))
    (found : ∀ d, (w.lookUpSuper on name).1 = some d → Paired T Eq
      (invokeFound host p d on args (w.lookUpSuper on name).2)
      (invokeFound host' p' d on args (v.lookUpSuper on name).2)) :
    Paired T Eq (callSuper host p on name args w) (callSuper host' p' on name args v) := by
  have next := hT.lookUpSuper h on name
  unfold callSuper
  refine paired_modifyGet ?_
  rw [← hT.foundAbove h on name]
  cases hd : (w.lookUpSuper on name).1 with
  | some d => exact found d hd
  | none =>
    refine .ended ?_ next
    rw [hT.receiverName next on]

theorem paired_call (h : T w v) (on : Receiver) (name : String) (args : List (Value Code))
    (before : Paired T Eq
      ((w.beforeHooks on name).forM (runBefore host p · args) w)
      ((v.beforeHooks on name).forM (runBefore host' p' · args) v))
    (answer : ∀ w' v', (w.beforeHooks on name).forM (runBefore host p · args) w = .ok (⟨⟩, w') →
      T w' v' → Paired T Eq (dispatch host p on (w.target on name) args w')
        (dispatch host' p' on (w.target on name) args v'))
    (after : ∀ w₁ x w' v',
      (w.beforeHooks on name).forM (runBefore host p · args) w = .ok (⟨⟩, w₁) →
      dispatch host p on (w.target on name) args w₁ = .ok (.ok x, w') → T w' v' → Paired T Eq
        ((w'.afterHooks on name).forM (runAfter host p · x args) w')
        ((v'.afterHooks on name).forM (runAfter host' p' · x args) v')) :
    Paired T Eq (call host p on name args w) (call host' p' on name args v) := by
  unfold call
  refine paired_get ?_
  rw [← hT.target h on name]
  refine before.bind fun _ _ w₁ v₁ hw₁ _ _ h₁ => ?_
  refine (answer w₁ v₁ hw₁ h₁).bind ?_
  rintro outcome _ w₂ v₂ hw₂ _ rfl h₂
  cases outcome with
  | error e => exact .ended rfl h₂
  | ok x =>
    refine paired_get ?_
    exact (after w₁ x w₂ v₂ hw₁ hw₂ h₂).pure_bind fun _ _ _ => rfl

variable (hp : ∀ m, Balanced (p m)) (hp' : ∀ m, Balanced (p' m))
  (body : ∀ code receiver args w v, T w v → Paired T Eq
    ((host.body code receiver args).run p w) ((host'.body code receiver args).run p' v))
include body

theorem pair_invoke (h : T w v) (m : Method Code) (on : Receiver) (args : List (Value Code)) :
    Paired T Eq (invoke host p m on args w) (invoke host' p' m on args v) :=
  paired_invoke hT h m on args fun _ code _ => body code _ args _ _ (hT.body h m on args)

include hp hp'

theorem pair_invokeFound (h : T w v) (d : Definition Code) (on : Receiver)
    (args : List (Value Code)) :
    Paired T Eq (invokeFound host p d on args w) (invokeFound host' p' d on args v) :=
  paired_invokeFound hT hp hp' h d on args (pair_invoke hT body (hT.push h _) d.method on args)

theorem pair_callSuper (h : T w v) (on : Receiver) (name : String) (args : List (Value Code)) :
    Paired T Eq (callSuper host p on name args w) (callSuper host' p' on name args v) :=
  paired_callSuper hT h on name args fun d _ =>
    pair_invokeFound hT hp hp' body (hT.lookUpSuper h on name) d on args

theorem pair_dispatch
    (missing : ∀ code name args w v, T w v → Paired T Eq
      ((host.missing code name args).run p w) ((host'.missing code name args).run p' v))
    (h : T w v) (on : Receiver) (name : String) (args : List (Value Code)) :
    Paired T Eq (dispatch host p on name args w) (dispatch host' p' on name args v) := by
  have next := hT.lookUp h on name
  refine paired_dispatch hT h on name args (fun d _ => ?_) fun code _ _ => ?_
  · exact pair_invokeFound hT hp hp' body next d on args
  · exact paired_modify (missing code name args _ _ (hT.event next _))

/-- If the scripts of two hosts always go side by side, so does what they deliver. -/
theorem pair_deliver (hooks : ∀ {w v}, T w v → ∀ on, w.hookLevels on = v.hookLevels on)
    (before : ∀ code args w v, T w v → Paired T Eq
      ((host.before code args).run p w) ((host'.before code args).run p' v))
    (after : ∀ code x args w v, T w v → Paired T Eq
      ((host.after code x args).run p w) ((host'.after code x args).run p' v))
    (missing : ∀ code name args w v, T w v → Paired T Eq
      ((host.missing code name args).run p w) ((host'.missing code name args).run p' v))
    (h : T w v) (m : Message Code) :
    Paired T Eq (deliver host p m w) (deliver host' p' m v) := by
  have dispatch : ∀ {w v} on name args, T w v →
      Paired T Eq (dispatch host p on name args w) (dispatch host' p' on name args v) :=
    fun on name args h => pair_dispatch hT hp hp' body missing h on name args
  cases m with
  | call on name args =>
    refine paired_call hT h on name args ?_ (fun _ _ _ h => dispatch on _ args h)
      fun _ x _ _ _ _ h => ?_
    · refine .forM (by rw [World.beforeHooks, hooks h, World.beforeHooks]) h fun code w v h => ?_
      exact paired_modify (before code args _ _ (hT.event h _))
    · refine .forM (by rw [World.afterHooks, hooks h, World.afterHooks]) h fun code w v h => ?_
      exact paired_modify (after code x args _ _ (hT.event h _))
  | callBare i name args =>
    refine paired_get ?_
    rw [← hT.target h]
    exact dispatch (.ofInstance i) _ args h
  | callSuper on name args => exact pair_callSuper hT hp hp' body h on name args
  | invoke m on args => exact pair_invoke hT body h m on args

end

end Run

namespace World
variable {veil : Veil} {w v : World Code σ}

/-- Two worlds differ in what a veil hides only. -/
def SameBehind (veil : Veil) (w v : World Code σ) : Prop := v.behind veil = w.behind veil

theorem behind_record (w : World Code σ) (e : Event Code) :
    (w.record e).behind veil =
      { w.behind veil with trace := (w.behind veil).trace ++ (veil.ofEvent e).toList } := by
  simp only [record, behind, List.filterMap_append, List.filterMap_cons, List.filterMap_nil]
  cases veil.ofEvent e <;> rfl

theorem independent_record (e : Event Code) :
    veil.Independent fun w : World Code σ => w.record e := by
  intro w
  simp only [behind_record, behind_behind]

namespace SameBehind

theorem body (h : SameBehind veil w v) (m : Method Code) (on : Receiver) (args : List (Value Code)) :
    SameBehind veil (w.record (.body m on args w.frames)) (v.record (.body m on args v.frames)) := by
  have event : ∀ u : World Code σ, veil.ofEvent (.body m on args u.frames) =
      some (.body m on args (u.behind veil).frames) := fun _ => rfl
  rw [SameBehind, behind_record, behind_record, event, event, h]

theorem push (h : SameBehind veil w v) (f : Frame) :
    SameBehind veil (w.pushFrame f) (v.pushFrame f) := by
  have pushed : ∀ u : World Code σ, (u.pushFrame f).behind veil =
      { u.behind veil with
        frames := Veil.cover veil.frames [] (f :: (u.behind veil).frames) } := by
    intro u
    simp only [pushFrame, behind]
    cases veil.frames <;> rfl
  rw [SameBehind, pushed, pushed, h]

theorem pop (h : SameBehind veil w v) : SameBehind veil w.popFrame v.popFrame := by
  have popped : ∀ u : World Code σ, u.popFrame.behind veil =
      { u.behind veil with frames := (u.behind veil).frames.tail } := by
    intro u
    simp only [popFrame, behind]
    cases veil.frames <;> rfl
  rw [SameBehind, popped, popped, h]

theorem assign (h : SameBehind veil w v) (i : InstanceId) (name : String) (x : Value Code) :
    SameBehind veil (w.modifyState i fun s => { s with vars := s.vars.insert name x })
      (v.modifyState i fun s => { s with vars := s.vars.insert name x }) :=
  (independent_modifyState (f := fun s => { s with vars := s.vars.insert name x }) i
    fun _ => rfl).congr h

theorem apply (h : SameBehind veil w v) (op : Operation Code σ) :
    SameBehind veil (op.apply w).2 (op.apply v).2 :=
  op.independent_apply.congr h

theorem vars (h : SameBehind veil w v) (i : InstanceId) : (w.stateAt i).vars = (v.stateAt i).vars :=
  same_of_instance (f := (·.state.vars)) (fun _ => rfl) h i

theorem handler (h : SameBehind veil w v) (on : Receiver) : w.handler? on = v.handler? on :=
  same_of_behind (f := (·.handler? on)) (fun u => u.handler?_behind on) h

theorem receiverName (h : SameBehind veil w v) (on : Receiver) :
    w.receiverName on = v.receiverName on :=
  same_of_behind (f := (·.receiverName on)) (fun u => u.receiverName_behind on) h

/-- If neither frames nor what is remembered are hidden, runs go side by side in worlds
that look the same. -/
theorem coupling (hc : veil.caches = false) (hf : veil.frames = false) :
    Run.Coupling (SameBehind veil : World Code σ → World Code σ → Prop) where
  vars h := h.vars
  target h := target_same h
  handler h := h.handler
  receiverName h := h.receiverName
  found h := lookUp_fst_same h fun hv => absurd hv (by simp [hc])
  lookUp h on name := (independent_lookUp on name).congr h
  foundAbove h on name := by
    refine same_of_behind (f := fun u => (u.lookUpSuper on name).1) (fun u => ?_) h
    rw [lookUpSuper_behind hc hf]
    rfl
  lookUpSuper h on name := by
    have commute : veil.Independent fun u : World Code σ => (u.lookUpSuper on name).2 :=
      .of_commute fun u => congrArg (·.2) (lookUpSuper_behind hc hf u on name)
    exact commute.congr h
  boxed h reply := same_of_behind (f := fun u => (u.box reply).1) (fun _ => rfl) h
  box h reply := h.apply (.box reply)
  assign h := h.assign
  body h := h.body
  event h e := (independent_record e).congr h
  push h := h.push
  pop _ h _ _ _ := h.pop

end SameBehind
end World
end ObjectModel
