import ObjectModel.Proofs.Program.Keeping

/-!
# Invocations

What becomes of a method that is invoked. The arity refuses the number of arguments, or the body
starts. That it does is recorded, with the receiver, the arguments and the frames there are. Then
the script of the host is run on all the arguments, and on the receiver if the method takes it, or
an accessor reads or sets its variable.
-/
namespace ObjectModel
variable {Code σ : Type}

namespace World

/-- The instance variable of a receiver, nil when it is unset. A class has none. -/
def variableOf (w : World Code σ) (on : Receiver) (x : String) : Value Code :=
  match on with
  | .ofInstance i => ((w.stateAt i).vars.find? x).getD .nil
  | .ofClass _ => .nil

/-- The world with an instance variable of a receiver set. -/
def assigned (w : World Code σ) (on : Receiver) (x : String) (v : Value Code) : World Code σ :=
  match on with
  | .ofInstance i => w.modifyState i fun s => { s with vars := s.vars.insert x v }
  | .ofClass _ => w

end World

namespace Run
variable {host : Host Code σ} {p : Performer Code σ} {m : Method Code} {on : Receiver}
  {args : List (Value Code)} {w : World Code σ} {result : Except Halt (Outcome Code × World Code σ)}

/-- How a body ends whose script has run: what it hands back becomes a value. -/
def boxed : Except Halt (Except ObjectError (Reply Code) × World Code σ) →
    Except Halt (Outcome Code × World Code σ)
  | .ok (.ok reply, u) => .ok (.ok (u.box reply).1, (u.box reply).2)
  | .ok (.error e, u) => .ok (.error e, u)
  | .error halt => .error halt

/-- What a method that is invoked in a world comes to. -/
inductive Invoked (host : Host Code σ) (p : Performer Code σ) (m : Method Code) (on : Receiver)
    (args : List (Value Code)) (w : World Code σ) :
    Except Halt (Outcome Code × World Code σ) → Prop
  | refused (rejects : m.arity.accepts args.length = false) :
      Invoked host p m on args w
        (.ok (.error (.arityMismatch m.name args.length m.arity.required), w))
  | ran {code : Code} (accepts : m.arity.accepts args.length = true) (body : m.body = .host code) :
      Invoked host p m on args w
        (boxed ((host.body code (if m.signature.takesReceiver then some on else none) args).run p
          (w.record (.body m on args w.frames))))
  | read {x : String} (accepts : m.arity.accepts args.length = true) (body : m.body = .reader x) :
      Invoked host p m on args w
        (.ok (.ok (w.variableOf on x), w.record (.body m on args w.frames)))
  | written {x : String} {v : Value Code} {rest : List (Value Code)}
      (accepts : m.arity.accepts args.length = true) (body : m.body = .writer x)
      (given : args = v :: rest) :
      Invoked host p m on args w
        (.ok (.ok v, (w.record (.body m on args w.frames)).assigned on x v))
  | short {x : String} (accepts : m.arity.accepts args.length = true) (body : m.body = .writer x)
      (given : args = []) :
      Invoked host p m on args w (.error .missingArgument)

theorem runBody_host {code : Code} (body : m.body = .host code) :
    runBody host p m on args w =
      boxed ((host.body code (if m.signature.takesReceiver then some on else none) args).run p
        (w.record (.body m on args w.frames))) := by
  unfold runBody
  rw [body]
  change Except.bind ((host.body code _ args).run p (w.record (.body m on args w.frames))) _ = _
  rcases (host.body code _ args).run p (w.record (.body m on args w.frames)) with
    halt | ⟨e | reply, u⟩ <;> rfl

theorem runBody_reader {x : String} (body : m.body = .reader x) :
    runBody host p m on args w =
      .ok (.ok (w.variableOf on x), w.record (.body m on args w.frames)) := by
  unfold runBody
  rw [body]
  cases on <;> rfl

theorem runBody_writer {x : String} {v : Value Code} {rest : List (Value Code)}
    (body : m.body = .writer x) :
    runBody host p m on (v :: rest) w =
      .ok (.ok v, (w.record (.body m on (v :: rest) w.frames)).assigned on x v) := by
  unfold runBody
  rw [body]
  cases on <;> rfl

theorem runBody_short {x : String} (body : m.body = .writer x) :
    runBody host p m on [] w = .error .missingArgument := by
  unfold runBody
  rw [body]
  rfl

/-- An invocation comes to what is said of it, and to nothing else. -/
theorem invoked_iff : Invoked host p m on args w result ↔ invoke host p m on args w = result := by
  constructor
  · intro h
    cases h with
    | refused rejects => rw [invoke_of_rejects host p (by simp [rejects])]; rfl
    | ran accepts body => rw [invoke_of_accepts host p accepts, runBody_host body]
    | read accepts body => rw [invoke_of_accepts host p accepts, runBody_reader body]
    | written accepts body given =>
      subst given
      rw [invoke_of_accepts host p accepts, runBody_writer body]
    | short accepts body given =>
      subst given
      rw [invoke_of_accepts host p accepts, runBody_short body]
  · rintro rfl
    cases accepts : m.arity.accepts args.length with
    | false =>
      rw [invoke_of_rejects host p (by simp [accepts])]
      exact .refused accepts
    | true =>
      rw [invoke_of_accepts host p accepts]
      cases body : m.body with
      | host code =>
        rw [runBody_host body]
        exact .ran accepts body
      | reader x =>
        rw [runBody_reader body]
        exact .read accepts body
      | writer x =>
        cases args with
        | nil =>
          rw [runBody_short body]
          exact .short accepts body rfl
        | cons v rest =>
          rw [runBody_writer body]
          exact .written accepts body rfl

/-- How a run ends whose body had a frame: the frame is taken away. -/
def unframed : Except Halt (Outcome Code × World Code σ) → Except Halt (Outcome Code × World Code σ)
  | .ok (outcome, u) => .ok (outcome, u.popFrame)
  | .error halt => .error halt

theorem popFrame_eq_unframed (r : Run Code σ (Outcome Code)) (w : World Code σ) :
    (r >>= fun outcome => modify World.popFrame >>= fun _ => pure outcome) w = unframed (r w) := by
  change Except.bind (r w) _ = _
  rcases r w with halt | ⟨outcome, u⟩ <;> rfl

/-- A method that was found is invoked in its frame. -/
theorem invokeFound_iff {d : Definition Code} :
    invokeFound host p d on args w = result ↔
      ∃ ended, Invoked host p d.method on args (w.pushFrame ⟨on, d.method.name, d.level⟩) ended ∧
        unframed ended = result := by
  rw [invokeFound_eq, popFrame_eq_unframed]
  constructor
  · rintro rfl
    exact ⟨_, invoked_iff.mpr rfl, rfl⟩
  · rintro ⟨ended, invoked, rfl⟩
    rw [invoked_iff.mp invoked]

end Run
end ObjectModel
