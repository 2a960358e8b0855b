import ObjectModel.Data.Registry
import ObjectModel.Lookup.Stamp
import ObjectModel.Object.Flags
import ObjectModel.Object.Pool

/-!
# The world

All classes, instances, pools and class-variable stores there are, the clock
that stamps their changes, the frames of the bodies that are running, what has
run before, and the notes it has taken. A number that stands for nothing reads
as a blank record, and writing to it changes nothing.
-/
namespace ObjectModel

structure ClassRecord (Code : Type) where
  name : String
  classVars : StoreId
  parent : Option ClassId := none
  /-- The methods its instances answer to. -/
  methods : MethodDictionary Code := {}
  /-- The methods the class itself answers to. -/
  classMethods : MethodDictionary Code := {}
  handler : Option Code := none
  hooks : Hooks Code := {}
  aliases : Aliases := {}
  /-- Remembered findings of instance methods. -/
  cache : LookupCache Code := {}
  /-- Remembered findings of class methods. -/
  classCache : LookupCache Code := {}
  pool : Option PoolId := none
  flags : Flags := {}
  version : Nat := 0
  deriving Inhabited

namespace ClassRecord
variable {Code : Type}

def table (c : ClassRecord Code) : Side → MethodDictionary Code
  | .instanceSide => c.methods
  | .classSide => c.classMethods

def cacheOf (c : ClassRecord Code) : Side → LookupCache Code
  | .instanceSide => c.cache
  | .classSide => c.classCache

/-- The class with other remembered findings on one side. -/
def withCache (c : ClassRecord Code) (side : Side) (cache : LookupCache Code) :
    ClassRecord Code :=
  match side with
  | .instanceSide => { c with cache }
  | .classSide => { c with classCache := cache }

end ClassRecord

structure InstanceRecord (Code : Type) where
  /-- The class it was made from. -/
  classId : ClassId
  /-- The class variables, as its class had them when it was made. -/
  classVars : StoreId
  state : ObjectState Code := {}
  /-- Where its state came from, and goes to when it is given up. -/
  pool : Option PoolId := none
  deriving Inhabited

/-- A running body: on what, under which name, and found where. -/
structure Frame where
  receiver : Receiver
  method : String
  level : Level
  deriving DecidableEq, Repr

/-- A piece of code that started to run, with what it was given. -/
inductive Event (Code : Type) where
  /-- The body of a method, and the bodies that were running when it started. -/
  | body (m : Method Code) (on : Receiver) (args : List (Value Code)) (frames : List Frame)
  | before (code : Code) (args : List (Value Code))
  | after (code : Code) (result : Value Code) (args : List (Value Code))
  | missing (code : Code) (name : String) (args : List (Value Code))
  deriving DecidableEq

/-- Everything there is. -/
structure World (Code σ : Type) where
  classes : Registry (ClassRecord Code) := {}
  instances : Registry (InstanceRecord Code) := {}
  pools : Registry (Pool Code) := {}
  stores : Registry (Variables Code) := {}
  clock : Clock := {}
  /-- The running bodies, the innermost first. -/
  frames : List Frame := []
  /-- What has started to run, in order. Code cannot read it. -/
  trace : List (Event Code) := []
  /-- The address of the next new value. -/
  nextAddress : Nat := 0
  /-- What running code has written down, in order. Code cannot read it. -/
  notes : List String := []
  /-- What the host keeps for its own use. -/
  host : σ

namespace World
variable {Code σ : Type}

instance [Inhabited σ] : Inhabited (World Code σ) := ⟨{ host := default }⟩

/-- The world in which nothing has happened. -/
def initial (host : σ) : World Code σ := { host }

def classAt (w : World Code σ) (k : ClassId) : ClassRecord Code :=
  (w.classes.find? k.number).getD default

def instanceAt (w : World Code σ) (i : InstanceId) : InstanceRecord Code :=
  (w.instances.find? i.number).getD default

def stateAt (w : World Code σ) (i : InstanceId) : ObjectState Code := (w.instanceAt i).state

/-- The methods that a receiver has on the instance side of its own level. -/
def methodsAt (w : World Code σ) : Receiver → MethodDictionary Code
  | .ofInstance i => (w.stateAt i).methods
  | .ofClass k => (w.classAt k).methods

def poolAt (w : World Code σ) (p : PoolId) : Pool Code := (w.pools.find? p.number).getD default

def storeAt (w : World Code σ) (s : StoreId) : Variables Code :=
  (w.stores.find? s.number).getD {}

def modifyClass (w : World Code σ) (k : ClassId) (f : ClassRecord Code → ClassRecord Code) :
    World Code σ :=
  { w with classes := w.classes.modify k.number f }

def modifyInstance (w : World Code σ) (i : InstanceId)
    (f : InstanceRecord Code → InstanceRecord Code) : World Code σ :=
  { w with instances := w.instances.modify i.number f }

def modifyState (w : World Code σ) (i : InstanceId)
    (f : ObjectState Code → ObjectState Code) : World Code σ :=
  w.modifyInstance i fun r => { r with state := f r.state }

/-- Changes the methods that a receiver has on the instance side of its own
level. -/
def modifyMethods (w : World Code σ) (on : Receiver)
    (f : MethodDictionary Code → MethodDictionary Code) : World Code σ :=
  match on with
  | .ofInstance i => w.modifyState i fun s => { s with methods := f s.methods }
  | .ofClass k => w.modifyClass k fun c => { c with methods := f c.methods }

def modifyAliases (w : World Code σ) (on : Receiver) (f : Aliases → Aliases) : World Code σ :=
  match on with
  | .ofInstance i => w.modifyState i fun s => { s with aliases := f s.aliases }
  | .ofClass k => w.modifyClass k fun c => { c with aliases := f c.aliases }

def modifyHooks (w : World Code σ) (on : Receiver) (f : Hooks Code → Hooks Code) :
    World Code σ :=
  match on with
  | .ofInstance i => w.modifyState i fun s => { s with hooks := f s.hooks }
  | .ofClass k => w.modifyClass k fun c => { c with hooks := f c.hooks }

def modifyPool (w : World Code σ) (p : PoolId) (f : Pool Code → Pool Code) : World Code σ :=
  { w with pools := w.pools.modify p.number f }

def putStore (w : World Code σ) (s : StoreId) (store : Variables Code) : World Code σ :=
  { w with stores := w.stores.modify s.number fun _ => store }

def box (w : World Code σ) (r : Reply Code) : Value Code × World Code σ :=
  let (v, next) := r.box w.nextAddress
  (v, { w with nextAddress := next })

def note (w : World Code σ) (line : String) : World Code σ :=
  { w with notes := w.notes ++ [line] }

/-- Marks that a piece of code starts to run. -/
def record (w : World Code σ) (e : Event Code) : World Code σ :=
  { w with trace := w.trace ++ [e] }

/-- Marks that a body that was found by lookup starts to run. -/
def pushFrame (w : World Code σ) (f : Frame) : World Code σ := { w with frames := f :: w.frames }

/-- Marks that the innermost body has ended. -/
def popFrame (w : World Code σ) : World Code σ := { w with frames := w.frames.tail }

end World
end ObjectModel
