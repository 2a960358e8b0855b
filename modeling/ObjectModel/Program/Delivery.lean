import ObjectModel.Program.Script

/-!
# Delivery

What messages do. A call runs the hooks before it, the body that was found or
else the handler, then the hooks after it. While a body that was found by
lookup runs, its frame is the innermost one; bodies that are invoked directly,
hooks and handlers have no frame.

Bodies, hooks and handlers are scripts and may send messages in turn, so
messages are performed to a given depth of nesting. Running out of depth is
an outcome of its own and not an error of the program.
-/
namespace ObjectModel

/-- The meaning of codes: what bodies, hooks and handlers do. -/
structure Host (Code σ : Type) where
  body : Code → Option Receiver → List (Value Code) →
    Script Code σ (Except ObjectError (Reply Code))
  before : Code → List (Value Code) → Script Code σ Unit
  after : Code → Value Code → List (Value Code) → Script Code σ Unit
  missing : Code → String → List (Value Code) → Script Code σ (Outcome Code)

/-- Why a run did not come to an end. -/
inductive Halt where
  /-- Messages were nested more deeply than allowed. -/
  | outOfFuel
  /-- A body took an argument that was not given. -/
  | missingArgument
  deriving DecidableEq, Repr

/-- A run changes the world and answers, or halts. -/
abbrev Run (Code σ : Type) := StateT (World Code σ) (Except Halt)

/-- How messages are performed. -/
abbrev Performer (Code σ : Type) := Message Code → Run Code σ (Outcome Code)

variable {Code σ α : Type}

/-- Runs a script, given how messages are performed. -/
def Script.run (performer : Performer Code σ) : Script Code σ α → Run Code σ α
  | done a => pure a
  | operate op next => do
    let answer ← modifyGet fun w => op.apply w
    (next answer).run performer
  | send m next => do
    let outcome ← performer m
    (next outcome).run performer

namespace Run

/-- Makes the value that a body hands back. -/
def box (reply : Reply Code) : Run Code σ (Value Code) := modifyGet fun w => w.box reply

/-- The instance variable of a receiver, nil when the receiver is a class. -/
def readVariable (on : Receiver) (name : String) : Run Code σ (Value Code) := do
  match on with
  | .ofInstance i => return Variables.get ((← get).stateAt i).vars name
  | .ofClass _ => return .nil

/-- Sets an instance variable of a receiver that is an instance. -/
def writeVariable (on : Receiver) (name : String) (v : Value Code) : Run Code σ Unit :=
  match on with
  | .ofInstance i =>
    modify fun w => w.modifyState i fun s => { s with vars := s.vars.insert name v }
  | .ofClass _ => pure ()

/-- Runs a body on the arguments it takes. -/
def runBody (host : Host Code σ) (performer : Performer Code σ) (m : Method Code)
    (on : Receiver) (args : List (Value Code)) : Run Code σ (Outcome Code) := do
  modify fun w => w.record (.body m on args w.frames)
  match m.body with
  | .reader name => return .ok (← readVariable on name)
  | .writer name =>
    match args with
    | [] => throw .missingArgument
    | v :: _ =>
      writeVariable on name v
      return .ok v
  | .host code =>
    match ← (host.body code (if m.signature.takesReceiver then some on else none) args).run
        performer with
    | .error e => return .error e
    | .ok reply => return .ok (← box reply)

def runBefore (host : Host Code σ) (performer : Performer Code σ) (code : Code)
    (args : List (Value Code)) : Run Code σ Unit := do
  modify fun w => w.record (.before code args)
  (host.before code args).run performer

def runAfter (host : Host Code σ) (performer : Performer Code σ) (code : Code)
    (result : Value Code) (args : List (Value Code)) : Run Code σ Unit := do
  modify fun w => w.record (.after code result args)
  (host.after code result args).run performer

def runMissing (host : Host Code σ) (performer : Performer Code σ) (code : Code)
    (name : String) (args : List (Value Code)) : Run Code σ (Outcome Code) := do
  modify fun w => w.record (.missing code name args)
  (host.missing code name args).run performer

/-- Runs a method if it accepts the number of arguments. -/
def invoke (host : Host Code σ) (performer : Performer Code σ) (m : Method Code)
    (on : Receiver) (args : List (Value Code)) : Run Code σ (Outcome Code) :=
  if m.arity.accepts args.length then
    match m.signature.select args with
    | some taken => runBody host performer m on taken
    | none => throw .missingArgument
  else return .error (.arityMismatch m.name args.length m.arity.required)

/-- Runs a method that a lookup found, within its frame. -/
def invokeFound (host : Host Code σ) (performer : Performer Code σ) (d : Definition Code)
    (on : Receiver) (args : List (Value Code)) : Run Code σ (Outcome Code) := do
  modify fun w => w.pushFrame ⟨on, d.method.name, d.level⟩
  let outcome ← invoke host performer d.method on args
  modify fun w => w.popFrame
  return outcome

/-- Runs the method that a receiver has under a name, or its handler. -/
def dispatch (host : Host Code σ) (performer : Performer Code σ) (on : Receiver)
    (name : String) (args : List (Value Code)) : Run Code σ (Outcome Code) := do
  match ← modifyGet fun w => w.lookUp on name with
  | some d => invokeFound host performer d on args
  | none =>
    let w ← get
    match w.handler? on with
    | some code => runMissing host performer code name args
    | none => return .error (.undefinedMethod name (w.receiverName on))

/-- Calls a method. The alias is resolved before any hook runs, the hooks before
are fixed before the first of them runs, and the hooks after are those there
are when the body has ended. -/
def call (host : Host Code σ) (performer : Performer Code σ) (on : Receiver) (name : String)
    (args : List (Value Code)) : Run Code σ (Outcome Code) := do
  let w ← get
  let target := w.target on name
  (w.beforeHooks on name).forM fun code => runBefore host performer code args
  match ← dispatch host performer on target args with
  | .error e => return .error e
  | .ok v =>
    ((← get).afterHooks on name).forM fun code => runAfter host performer code v args
    return .ok v

/-- Calls a method of an instance without hooks. -/
def callBare (host : Host Code σ) (performer : Performer Code σ) (i : InstanceId)
    (name : String) (args : List (Value Code)) : Run Code σ (Outcome Code) := do
  dispatch host performer (.ofInstance i) ((← get).target (.ofInstance i) name) args

/-- Calls the next definition above the one that is running. -/
def callSuper (host : Host Code σ) (performer : Performer Code σ) (on : Receiver)
    (name : String) (args : List (Value Code)) : Run Code σ (Outcome Code) := do
  match ← modifyGet fun w => w.lookUpSuper on name with
  | some d => invokeFound host performer d on args
  | none => return .error (.noSuperMethod name ((← get).receiverName on))

/-- Performs one message, given how the messages inside it are performed. -/
def deliver (host : Host Code σ) (performer : Performer Code σ) : Performer Code σ
  | .call on name args => call host performer on name args
  | .callBare i name args => callBare host performer i name args
  | .callSuper on name args => callSuper host performer on name args
  | .invoke m on args => invoke host performer m on args

end Run

/-- Performs messages nested to a given depth. -/
def Host.performer (host : Host Code σ) : Nat → Performer Code σ
  | 0 => fun _ => throw .outOfFuel
  | fuel + 1 => Run.deliver host (host.performer fuel)

/-- Runs a script in a world, with messages nested to a given depth. -/
def Host.run (host : Host Code σ) (fuel : Nat) (script : Script Code σ α) (w : World Code σ) :
    Except Halt (α × World Code σ) :=
  (script.run (host.performer fuel)).run w

end ObjectModel
