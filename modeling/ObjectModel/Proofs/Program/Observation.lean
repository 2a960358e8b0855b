import ObjectModel.Proofs.Program.Pairing
import ObjectModel.Proofs.Program.Protocol

/-!
# Hooks only observe

Hooks that only look around and take notes make no difference to a program, however
many of them there are, and neither does a call without hooks in place of a call.
Behind a veil that hides the hooks and their notes all such runs are the same.
-/
namespace ObjectModel
variable {Code σ α : Type}

/-- The veil before hooks, and before the lines that they may note. -/
def Veil.hooking (lines : String → Bool) : Veil := { hooks := true, line := lines }

/-- A script that asks questions and takes notes, of certain lines, and does nothing
else. -/
inductive Script.Observes (lines : String → Bool) : Script Code σ Unit → Prop
  | done : Observes lines (done ())
  | ask (q : Query) {next : q.Answer Code → Script Code σ Unit}
      (h : ∀ a, Observes lines (next a)) : Observes lines (operate (.query q) next)
  | note (line : String) {next : Unit → Script Code σ Unit} (hl : lines line = true)
      (h : Observes lines (next ())) : Observes lines (operate (.note line) next)

/-- The second program is the first one with more hooks, registered anywhere, and with
calls without hooks in place of some calls of instances. -/
inductive Script.Rehooked : Script Code σ α → Script Code σ α → Prop
  | done (a : α) : Rehooked (done a) (done a)
  | addBefore (on : Receiver) (name : String) (code : Code) {s : Script Code σ α}
      {next : Unit → Script Code σ α} (h : Rehooked s (next ())) :
      Rehooked s (operate (.addBefore on name code) next)
  | addAfter (on : Receiver) (name : String) (code : Code) {s : Script Code σ α}
      {next : Unit → Script Code σ α} (h : Rehooked s (next ())) :
      Rehooked s (operate (.addAfter on name code) next)
  | bare (i : InstanceId) (name : String) (args : List (Value Code))
      {next next' : Outcome Code → Script Code σ α}
      (h : ∀ outcome, Rehooked (next outcome) (next' outcome)) :
      Rehooked (send (.call (.ofInstance i) name args) next) (send (.callBare i name args) next')
  | operate (op : Operation Code σ) {next next' : op.Answer → Script Code σ α}
      (h : ∀ a, Rehooked (next a) (next' a)) : Rehooked (operate op next) (operate op next')
  | send (m : Message Code) {next next' : Outcome Code → Script Code σ α}
      (h : ∀ outcome, Rehooked (next outcome) (next' outcome)) :
      Rehooked (send m next) (send m next')

namespace Host

/-- All hooks only observe. -/
structure Observes (lines : String → Bool) (host : Host Code σ) : Prop where
  before : ∀ code args, (host.before code args).Observes lines
  after : ∀ code x args, (host.after code x args).Observes lines

/-- The bodies and handlers of the second host are those of the first one with more
hooks. -/
structure Rehooked (host host' : Host Code σ) : Prop where
  body : ∀ code on args, (host.body code on args).Rehooked (host'.body code on args)
  missing : ∀ code name args, (host.missing code name args).Rehooked (host'.missing code name args)

end Host

namespace Run

open World (SameBehind)

variable {lines : String → Bool} {host host' : Host Code σ} {p p' : Performer Code σ}
  {w v : World Code σ}

theorem coupling_hooking :
    Coupling (SameBehind (.hooking lines) : World Code σ → World Code σ → Prop) :=
  SameBehind.coupling rfl rfl

/-- What observes ends, and leaves the world as it looks. -/
theorem run_observes {s : Script Code σ Unit} (hs : s.Observes lines) (w : World Code σ) :
    ∃ v, s.run p w = .ok ((), v) ∧ SameBehind (.hooking lines) w v := by
  induction hs generalizing w with
  | done => exact ⟨w, rfl, rfl⟩
  | ask q _ ih => exact ih _ w
  | @note line next hl _ ih =>
    obtain ⟨v, hv, same⟩ := ih (w.note line)
    refine ⟨v, hv, Eq.trans same ?_⟩
    simp [World.note, World.behind, Veil.hooking, hl]

/-- Runs in turn end, and leave the world as it looks, if each of them does. -/
theorem forM_observes {run : Code → Run Code σ PUnit}
    (hr : ∀ code w, ∃ v, run code w = .ok (⟨⟩, v) ∧ SameBehind (.hooking lines) w v)
    (codes : List Code) (w : World Code σ) :
    ∃ v, codes.forM run w = .ok (⟨⟩, v) ∧ SameBehind (.hooking lines) w v := by
  induction codes generalizing w with
  | nil => exact ⟨w, rfl, rfl⟩
  | cons code codes ih =>
    obtain ⟨u, hu, first⟩ := hr code w
    obtain ⟨v, hv, rest⟩ := ih u
    exact ⟨v, (bind_of_eq_ok hu).trans hv, Eq.trans rest first⟩

/-- What observes does so too when it is recorded first, as a hook is. -/
theorem recorded_observes {s : Script Code σ Unit} (hs : s.Observes lines) {e : Event Code}
    (he : (Veil.hooking lines).ofEvent e = none) (w : World Code σ) :
    ∃ v, s.run p (w.record e) = .ok ((), v) ∧ SameBehind (.hooking lines) w v := by
  obtain ⟨v, hv, same⟩ := run_observes (p := p) hs (w.record e)
  refine ⟨v, hv, Eq.trans same ?_⟩
  rw [World.behind_record, he, Option.toList_none, List.append_nil]

section
variable (hh : host.Observes lines)
include hh

theorem befores_observe (codes : List Code) (args : List (Value Code)) (w : World Code σ) :
    ∃ v, codes.forM (runBefore host p · args) w = .ok (⟨⟩, v) ∧
      SameBehind (.hooking lines) w v :=
  forM_observes (fun code => recorded_observes (hh.before code args) rfl) codes w

theorem afters_observe (codes : List Code) (x : Value Code) (args : List (Value Code))
    (w : World Code σ) :
    ∃ v, codes.forM (runAfter host p · x args) w = .ok (⟨⟩, v) ∧
      SameBehind (.hooking lines) w v :=
  forM_observes (fun code => recorded_observes (hh.after code x args) rfl) codes w

end

/-- Two calls go side by side if what they dispatch does, whatever hooks they run. -/
theorem paired_observed_call (hh : host.Observes lines) (hh' : host'.Observes lines)
    (h : SameBehind (.hooking lines) w v) (on : Receiver) (name : String) (args : List (Value Code))
    (answer : ∀ w v, SameBehind (.hooking lines) w v → ∀ name,
      Paired (SameBehind (.hooking lines)) Eq (dispatch host p on name args w)
        (dispatch host' p' on name args v)) :
    Paired (SameBehind (.hooking lines)) Eq (call host p on name args w)
      (call host' p' on name args v) := by
  refine paired_call coupling_hooking h on name args ?_ (fun _ _ _ h => answer _ _ h _)
    fun _ x w v _ _ h => ?_
  · obtain ⟨w₁, hw, sw⟩ := befores_observe (p := p) hh (w.beforeHooks on name) args w
    obtain ⟨v₁, hv, sv⟩ := befores_observe (p := p') hh' (v.beforeHooks on name) args v
    rw [hw, hv]
    exact .ended rfl (Eq.trans sv (Eq.trans h (Eq.symm sw)))
  · obtain ⟨w₁, hw, sw⟩ := afters_observe (p := p) hh (w.afterHooks on name) x args w
    obtain ⟨v₁, hv, sv⟩ := afters_observe (p := p') hh' (v.afterHooks on name) x args v
    rw [hw, hv]
    exact .ended rfl (Eq.trans sv (Eq.trans h (Eq.symm sw)))

/-- Once its hooks before have run, a call dispatches and finishes. -/
theorem call_of_befores {on : Receiver} {name : String} {args : List (Value Code)}
    {w₁ : World Code σ}
    (hb : (w.beforeHooks on name).forM (runBefore host p · args) w = .ok (⟨⟩, w₁)) :
    call host p on name args w =
      (dispatch host p on (w.target on name) args >>= finish host p on name args) w₁ := by
  rw [call_eq, ← (w.hooks_eq on name).1, ← World.target_eq_meaning]
  exact bind_of_eq_ok hb

/-- A call goes side by side with a dispatch if what it dispatches does, whatever hooks
it runs. -/
theorem paired_call_dispatch (hh : host.Observes lines) (h : SameBehind (.hooking lines) w v)
    (on : Receiver) (name : String) (args : List (Value Code))
    (answer : ∀ w, SameBehind (.hooking lines) w v → ∀ name,
      Paired (SameBehind (.hooking lines)) Eq (dispatch host p on name args w)
        (dispatch host' p' on name args v)) :
    Paired (SameBehind (.hooking lines)) Eq (call host p on name args w)
      (dispatch host' p' on (w.target on name) args v) := by
  obtain ⟨w₁, hw, sw⟩ := befores_observe (p := p) hh (w.beforeHooks on name) args w
  have start := answer w₁ (Eq.trans h (Eq.symm sw)) (w.target on name)
  rw [call_of_befores hw, ← bind_pure (dispatch host' p' on _ args)]
  refine start.bind ?_
  rintro outcome _ w₂ v₂ _ _ rfl h₂
  cases outcome with
  | error e => exact .ended rfl h₂
  | ok x =>
    obtain ⟨w₃, hw, sw⟩ := afters_observe (p := p) hh (w₂.afterHooks on name) x args w₂
    have last : finish host p on name args (.ok x) w₂ = .ok (.ok x, w₃) :=
      bind_of_eq_ok (f := fun _ => (pure (.ok x) : Run Code σ (Outcome Code))) hw
    rw [last]
    exact .ended rfl (Eq.trans h₂ (Eq.symm sw))

theorem paired_rehooked
    (hp : ∀ m w v, SameBehind (.hooking lines) w v →
      Paired (SameBehind (.hooking lines)) Eq (p m w) (p' m v))
    (hb : ∀ i name args w v, SameBehind (.hooking lines) w v →
      Paired (SameBehind (.hooking lines)) Eq (p (.call (.ofInstance i) name args) w)
        (p' (.callBare i name args) v))
    {s s' : Script Code σ α} (hs : s.Rehooked s') (h : SameBehind (.hooking lines) w v) :
    Paired (SameBehind (.hooking lines)) Eq (s.run p w) (s'.run p' v) := by
  induction hs generalizing w v with
  | done a => exact .ended rfl h
  | addBefore on name code _ ih =>
    exact ih (Eq.trans (World.modifyHooks_hidden rfl on _ v) h)
  | addAfter on name code _ ih =>
    exact ih (Eq.trans (World.modifyHooks_hidden rfl on _ v) h)
  | bare i name args _ ih =>
    refine (hb i name args w v h).bind ?_
    rintro outcome _ w' v' _ _ rfl h'
    exact ih outcome h'
  | operate op _ ih =>
    have same := Operation.eq_of_sameBehind (World.sameBehind_apply h nofun op) rfl rfl nofun nofun
    refine paired_modifyGet ?_
    rw [← same]
    exact ih _ (h.apply op)
  | send m _ ih =>
    refine (hp m w v h).bind ?_
    rintro outcome _ w' v' _ _ rfl h'
    exact ih outcome h'

section
variable (hh : host.Observes lines) (hh' : host'.Observes lines) (hr : host.Rehooked host')
  (balanced : ∀ m, Balanced (p m)) (balanced' : ∀ m, Balanced (p' m))
  (hp : ∀ m w v, SameBehind (.hooking lines) w v →
    Paired (SameBehind (.hooking lines)) Eq (p m w) (p' m v))
  (hb : ∀ i name args w v, SameBehind (.hooking lines) w v →
    Paired (SameBehind (.hooking lines)) Eq (p (.call (.ofInstance i) name args) w)
      (p' (.callBare i name args) v))
include hr balanced balanced' hp hb

theorem paired_dispatch_rehooked (h : SameBehind (.hooking lines) w v) (on : Receiver)
    (name : String) (args : List (Value Code)) :
    Paired (SameBehind (.hooking lines)) Eq (dispatch host p on name args w)
      (dispatch host' p' on name args v) :=
  pair_dispatch coupling_hooking balanced balanced'
    (fun code receiver args _ _ => paired_rehooked hp hb (hr.body code receiver args))
    (fun code name args _ _ => paired_rehooked hp hb (hr.missing code name args)) h on name args

include hh

/-- A call of an instance goes side by side with one without hooks. -/
theorem paired_callBare_rehooked (h : SameBehind (.hooking lines) w v) (i : InstanceId)
    (name : String) (args : List (Value Code)) :
    Paired (SameBehind (.hooking lines)) Eq (call host p (.ofInstance i) name args w)
      (callBare host' p' i name args v) := by
  have bare := paired_call_dispatch hh h (.ofInstance i) name args fun _ h name =>
    paired_dispatch_rehooked hr balanced balanced' hp hb h (.ofInstance i) name args
  rw [coupling_hooking.target h] at bare
  exact bare

include hh'

theorem paired_deliver_rehooked (h : SameBehind (.hooking lines) w v) (m : Message Code) :
    Paired (SameBehind (.hooking lines)) Eq (deliver host p m w) (deliver host' p' m v) := by
  have body : ∀ code receiver args w v, SameBehind (.hooking lines) w v →
      Paired (SameBehind (.hooking lines)) Eq ((host.body code receiver args).run p w)
        ((host'.body code receiver args).run p' v) :=
    fun code receiver args _ _ => paired_rehooked hp hb (hr.body code receiver args)
  cases m with
  | call on name args =>
    exact paired_observed_call hh hh' h on name args fun _ _ h name =>
      paired_dispatch_rehooked hr balanced balanced' hp hb h on name args
  | callBare i name args =>
    refine paired_get ?_
    rw [← coupling_hooking.target h]
    exact paired_dispatch_rehooked hr balanced balanced' hp hb h (.ofInstance i) _ args
  | callSuper on name args =>
    exact pair_callSuper coupling_hooking balanced balanced' body h on name args
  | invoke m on args => exact pair_invoke coupling_hooking body h m on args

end

end Run

namespace Host
variable {lines : String → Bool} {host host' : Host Code σ} {w v : World Code σ}

open World (SameBehind)

/-- Every message goes side by side with itself, and a call of an instance also with one
without hooks. -/
theorem paired_performer_rehooked (hh : host.Observes lines) (hh' : host'.Observes lines)
    (hr : host.Rehooked host') (fuel : Nat) :
    (∀ m w v, SameBehind (.hooking lines) w v → Run.Paired (SameBehind (.hooking lines)) Eq
      (host.performer fuel m w) (host'.performer fuel m v)) ∧
    ∀ i name args w v, SameBehind (.hooking lines) w v →
      Run.Paired (SameBehind (.hooking lines)) Eq
        (host.performer fuel (.call (.ofInstance i) name args) w)
        (host'.performer fuel (.callBare i name args) v) := by
  induction fuel with
  | zero => exact ⟨fun _ _ _ _ => .halted _, fun _ _ _ _ _ _ => .halted _⟩
  | succ fuel ih =>
    obtain ⟨hp, hb⟩ := ih
    have balanced := Run.balanced_performer host fuel
    have balanced' := Run.balanced_performer host' fuel
    refine ⟨fun m w v h => ?_, fun i name args w v h => ?_⟩
    · exact Run.paired_deliver_rehooked hh hh' hr balanced balanced' hp hb h m
    · exact Run.paired_callBare_rehooked hh hr balanced balanced' hp hb h i name args

/-- Two ends of a run that cannot be told apart but by hooks and their notes: the answers
are the same, the same bodies and handlers have run in the same order and within the
same frames, and from there on all that operations answer and lookups find is the
same. -/
inductive SameButHooks (lines : String → Bool) :
    Except Halt (α × World Code σ) → Except Halt (α × World Code σ) → Prop
  | ended {a : α} {w v : World Code σ}
      (worlds : v.behind (.hooking lines) = w.behind (.hooking lines))
      (ran : v.trace.filterMap (Veil.hooking lines).ofEvent =
        w.trace.filterMap (Veil.hooking lines).ofEvent)
      (frames : v.frames = w.frames)
      (answers : ∀ op : Operation Code σ, (op.apply v).1 = (op.apply w).1)
      (found : ∀ on name, (v.lookUp on name).1 = (w.lookUp on name).1)
      (above : ∀ on name, (v.lookUpSuper on name).1 = (w.lookUpSuper on name).1) :
      SameButHooks lines (.ok (a, w)) (.ok (a, v))
  | halted (e : Halt) : SameButHooks lines (.error e) (.error e)

/-- As long as hooks only observe, it makes no difference to a program which of them are
registered where and when, and which instances are called without hooks: in bodies
and handlers, too, and for calls that fail. The answer may hold all that a program was
told on its way. -/
theorem hooks_only_observe (hh : host.Observes lines) (hh' : host'.Observes lines)
    (hr : host.Rehooked host') {s s' : Script Code σ α} (hs : s.Rehooked s') (h : σ)
    (fuel : Nat) :
    SameButHooks lines (host.run fuel s (.initial h)) (host'.run fuel s' (.initial h)) := by
  obtain ⟨hp, hb⟩ := paired_performer_rehooked hh hh' hr fuel
  have finish := Run.paired_rehooked hp hb hs (w := .initial h) (v := .initial h) rfl
  change SameButHooks lines (s.run (host.performer fuel) _) (s'.run (host'.performer fuel) _)
  generalize s.run (host.performer fuel) _ = x at finish
  generalize s'.run (host'.performer fuel) _ = y at finish
  cases finish with
  | @ended a b w v answers worlds =>
    subst answers
    refine .ended worlds (congrArg (·.trace) worlds) (congrArg (·.frames) worlds) (fun op => ?_)
      (fun on name => ?_) fun on name => ?_
    · have same := World.sameBehind_apply worlds nofun op
      exact (Operation.eq_of_sameBehind same rfl rfl nofun nofun).symm
    · exact (Run.coupling_hooking.found worlds on name).symm
    · exact (Run.coupling_hooking.foundAbove worlds on name).symm
  | halted e => exact .halted e

/-- A host whose bodies do nothing and whose hooks take notes. -/
def observer : Host Unit Unit where
  body _ _ _ := .done (.ok .unit)
  before _ _ := .operate (.note "before") fun _ => .done ()
  after _ _ _ := .operate (.note "after") fun _ => .done ()
  missing _ _ _ := .done (.ok .nil)

/-- A call with hooks and one that fails are the same as without hooks, but for the
notes. -/
theorem hooks_only_observe_calls :
    let made (next : ClassId → InstanceId → Script Unit Unit (Outcome Unit × Outcome Unit)) :=
      Script.operate (.newClass "A" {}) fun k => .operate (.instantiate k) fun i =>
        .operate (.defineMethod (.ofClass k) "f" (.ofSignature .nullary ())) fun _ => next k i
    let plain := made fun _ i =>
      .send (.call (.ofInstance i) "f" []) fun found =>
        .send (.call (.ofInstance i) "g" []) fun missing => .done (found, missing)
    let hooked := made fun k i =>
      .operate (.addBefore (.ofClass k) "f" ()) fun _ =>
        .operate (.addAfter (.ofInstance i) "f" ()) fun _ =>
          .send (.call (.ofInstance i) "f" []) fun found =>
            .send (.callBare i "g" []) fun missing => .done (found, missing)
    (observer.run 2 hooked (.initial ())).map (fun e => (e.1, e.2.notes)) =
        .ok ((.ok .nil, .error (.undefinedMethod "g" "A")), ["before", "after"]) ∧
      (observer.run 2 hooked (.initial ())).map (·.1) =
        (observer.run 2 plain (.initial ())).map (·.1) := by
  intro made plain hooked
  let lines : String → Bool := fun line => line = "before" || line = "after"
  have hh : observer.Observes lines :=
    ⟨fun _ _ => .note "before" rfl .done, fun _ _ _ => .note "after" rfl .done⟩
  have hr : observer.Rehooked observer := ⟨fun _ _ _ => .done _, fun _ _ _ => .done _⟩
  have hs : plain.Rehooked hooked :=
    .operate _ fun k => .operate _ fun i => .operate _ fun _ => .addBefore _ _ _ <|
      .addAfter _ _ _ <| .send _ fun found => .bare _ _ _ fun missing => .done _
  have same := hooks_only_observe hh hh hr hs () 2
  refine ⟨by decide +kernel, ?_⟩
  generalize observer.run 2 plain _ = x at same
  generalize observer.run 2 hooked _ = y at same
  cases same with
  | ended => rfl
  | halted e => rfl

end Host
end ObjectModel
