import ObjectModel.Program.Operation

/-!
# Scripts

A script is a program of the host: operations and messages, one after another,
each choosing what follows by its answer. Scripts are data. What a message
does is left open here, because it runs further scripts.
-/
namespace ObjectModel

inductive Message (Code : Type) where
  /-- Calls a method by name, with hooks. -/
  | call (on : Receiver) (name : String) (args : List (Value Code))
  /-- Calls a method of an instance by name, without hooks. -/
  | callBare (i : InstanceId) (name : String) (args : List (Value Code))
  /-- Calls the next definition above the one that is running. -/
  | callSuper (on : Receiver) (name : String) (args : List (Value Code))
  /-- Runs a method that was resolved before. -/
  | invoke (m : Method Code) (on : Receiver) (args : List (Value Code))
  deriving DecidableEq

abbrev Outcome (Code : Type) := Except ObjectError (Value Code)

/-- A program of the host. -/
inductive Script (Code σ α : Type) where
  | done (a : α)
  | operate (op : Operation Code σ) (next : op.Answer → Script Code σ α)
  | send (m : Message Code) (next : Outcome Code → Script Code σ α)

namespace Script
variable {Code σ α β : Type}

/-- Goes on with another script after the end of one. -/
def bind : Script Code σ α → (α → Script Code σ β) → Script Code σ β
  | done a, f => f a
  | operate op next, f => operate op fun answer => (next answer).bind f
  | send m next, f => send m fun outcome => (next outcome).bind f

instance : Monad (Script Code σ) where
  pure := done
  bind := bind

instance [Inhabited α] : Inhabited (Script Code σ α) := ⟨done default⟩

def perform (op : Operation Code σ) : Script Code σ op.Answer := operate op done

def deliver (m : Message Code) : Script Code σ (Outcome Code) := send m done

def ask (q : Query) : Script Code σ (q.Answer Code) := perform (.query q)

/-- Makes a class and configures it. The class is known to the configuration
only, until that has succeeded. -/
def buildClass (name : String)
    (configure : ClassId → Script Code σ (Except ObjectError Unit)) :
    Script Code σ (Except ObjectError ClassId) :=
  operate (.newClass name {}) fun k =>
    (configure k).bind fun
      | .ok () => done (.ok k)
      | .error e => done (.error e)

end Script
end ObjectModel
