import ObjectModel.World.Definition
import ObjectModel.World.Lifecycle
import ObjectModel.Program.Query

/-!
# Operations

The steps of a program that run no code of the host. Each changes the world at
once and has an answer.
-/
namespace ObjectModel

namespace World
variable {Code σ : Type}

def putVariables (w : World Code σ) (ref : StoreRef) (store : Variables Code) :
    World Code σ :=
  match ref with
  | .instanceVars i => w.modifyState i fun s => { s with vars := store }
  | .classVars on => w.putStore (w.classVarsOf on) store

def applyToStore (w : World Code σ) (ref : StoreRef) (op : StoreOp Code) :
    op.Answer × World Code σ :=
  let (answer, store, next) := op.apply (w.variablesOf ref) w.nextAddress
  (answer, { w.putVariables ref store with nextAddress := next })

end World

/-- A step of a program that runs no code of the host. -/
inductive Operation (Code σ : Type) where
  | readHost
  | writeHost (s : σ)
  | note (line : String)
  | box (r : Reply Code)
  | newClass (name : String) (c : Configuration)
  | inherit (child parent : ClassId)
  | instantiate (k : ClassId)
  | defineMethod (on : Receiver) (name : String) (m : Method Code)
  | defineClassMethod (k : ClassId) (name : String) (m : Method Code)
  | defineSingleton (i : InstanceId) (name : String) (m : Method Code)
  | defineFromValue (k : ClassId) (name : String) (v : Value Code)
  | removeMethod (on : Receiver) (name : String)
  | defineReaders (k : ClassId) (names : List String)
  | defineWriters (k : ClassId) (names : List String)
  | defineAccessors (k : ClassId) (names : List String)
  | addAlias (on : Receiver) (new old : String)
  | addBefore (on : Receiver) (name : String) (code : Code)
  | addAfter (on : Receiver) (name : String) (code : Code)
  | setHandler (on : Receiver) (code : Code)
  | usePool (k : ClassId) (p : PoolId)
  | store (ref : StoreRef) (op : StoreOp Code)
  | responds (on : Receiver) (name : String)
  /-- Finds the method that a call would run. -/
  | resolve (i : InstanceId) (name : String)
  | newPool (capacity : Nat)
  | acquire (p : PoolId)
  | release (p : PoolId) (s : ObjectState Code)
  | clearPool (p : PoolId)
  | retire (i : InstanceId)
  | query (q : Query)

namespace Operation
variable {Code σ : Type}

abbrev Answer : Operation Code σ → Type
  | readHost => σ
  | writeHost _ => Unit
  | note _ => Unit
  | box _ => Value Code
  | newClass _ _ => ClassId
  | inherit _ _ => Except ObjectError Unit
  | instantiate _ => InstanceId
  | defineMethod _ _ _ => Unit
  | defineClassMethod _ _ _ => Unit
  | defineSingleton _ _ _ => Unit
  | defineFromValue _ _ _ => Except ObjectError Unit
  | removeMethod _ _ => Bool
  | defineReaders _ _ => Unit
  | defineWriters _ _ => Unit
  | defineAccessors _ _ => Unit
  | addAlias _ _ _ => Unit
  | addBefore _ _ _ => Unit
  | addAfter _ _ _ => Unit
  | setHandler _ _ => Unit
  | usePool _ _ => Unit
  | store _ op => op.Answer
  | responds _ _ => Bool
  | resolve _ _ => Option (Method Code)
  | newPool _ => PoolId
  | acquire _ => ObjectState Code
  | release _ _ => Bool
  | clearPool _ => Nat
  | retire _ => Bool
  | query q => q.Answer Code

def apply (w : World Code σ) : (op : Operation Code σ) → op.Answer × World Code σ
  | readHost => (w.host, w)
  | writeHost s => ((), { w with host := s })
  | note line => ((), w.note line)
  | box r => w.box r
  | newClass name c => w.newClass name c
  | inherit child parent => w.inherit child parent
  | instantiate k => w.instantiate k
  | defineMethod on name m => ((), w.defineMethod on name m)
  | defineClassMethod k name m => ((), w.defineClassMethod k name m)
  | defineSingleton i name m => ((), w.defineSingleton i name m)
  | defineFromValue k name v => w.defineFromValue k name v
  | removeMethod on name => w.removeMethod on name
  | defineReaders k names => ((), w.defineReaders k names)
  | defineWriters k names => ((), w.defineWriters k names)
  | defineAccessors k names => ((), w.defineAccessors k names)
  | addAlias on new old => ((), w.addAlias on new old)
  | addBefore on name code => ((), w.addBefore on name code)
  | addAfter on name code => ((), w.addAfter on name code)
  | setHandler on code => ((), w.setHandler on code)
  | usePool k p => ((), w.usePool k p)
  | store ref op => w.applyToStore ref op
  | responds on name => w.responds on name
  | resolve i name => w.resolve? i name
  | newPool capacity => w.newPool capacity
  | acquire p => w.acquire p
  | release p s => w.release p s
  | clearPool p => w.clearPool p
  | retire i => w.retire i
  | query q => (w.answer q, w)

end Operation
end ObjectModel
