import ObjectModel.World.Lookup
import ObjectModel.Error

/-!
# Definitions

Changes to what receivers answer. Every effective change of methods, aliases
or a parent link stamps the changed object and makes it forget its findings.
Handlers, hooks, pools and variables are in no finding, and changing them
stamps nothing.
-/
namespace ObjectModel.World
variable {Code σ : Type}

/-- Gives a class a new stamp and makes it forget its findings. -/
def stampClass (w : World Code σ) (k : ClassId) : World Code σ :=
  let (stamp, clock) := w.clock.tick
  { w with clock }.modifyClass k fun c =>
    { c with
      version := Clock.raise c.version stamp
      cache := c.cache.forget
      classCache := c.classCache.forget }

/-- Gives an instance a new stamp and makes it forget its findings. -/
def stampInstance (w : World Code σ) (i : InstanceId) : World Code σ :=
  let (stamp, clock) := w.clock.tick
  { w with clock }.modifyState i fun s =>
    { s with
      version := Clock.raise s.version stamp
      cache := s.cache.forget }

/-- Gives a receiver a new stamp and makes it forget its findings. -/
def stamp (w : World Code σ) : Receiver → World Code σ
  | .ofInstance i => w.stampInstance i
  | .ofClass k => w.stampClass k

/-- Defines a method for the instances of a class, or for one instance. -/
def defineMethod (w : World Code σ) (on : Receiver) (name : String) (m : Method Code) :
    World Code σ :=
  (w.modifyMethods on fun t => t.define (m.named name .instanceSide)).stamp on

def defineClassMethod (w : World Code σ) (k : ClassId) (name : String) (m : Method Code) :
    World Code σ :=
  (w.modifyClass k fun c =>
    { c with classMethods := c.classMethods.define (m.named name .classSide) }).stampClass k

def defineSingleton (w : World Code σ) (i : InstanceId) (name : String) (m : Method Code) :
    World Code σ :=
  (w.modifyState i fun s =>
    { s with
      singletons := some (s.singletonMethods.define (m.named name .instanceSide)) }).stampInstance i

/-- Defines a method for the instances of a class from a value, which must hold
a method whose receivers are instances. -/
def defineFromValue (w : World Code σ) (k : ClassId) (name : String) (v : Value Code) :
    Except ObjectError Unit × World Code σ :=
  match v.method? .instanceSide with
  | some m => (.ok (), w.defineMethod (.ofClass k) name m)
  | none => (.error (.invalidMethod name (v.typeName ++ " is not callable")), w)

/-- Removes a method from a receiver's own level; answers whether there was
one. -/
def removeMethod (w : World Code σ) (on : Receiver) (name : String) : Bool × World Code σ :=
  if (w.methodsAt on).contains name then
    (true, (w.modifyMethods on fun t => t.erase name).stamp on)
  else (false, w)

def defineReaders (w : World Code σ) (k : ClassId) (names : List String) : World Code σ :=
  names.foldl (fun w name => w.defineMethod (.ofClass k) name (.reader name)) w

/-- Defines a writer for each instance variable. Its name ends in an equals
sign. -/
def defineWriters (w : World Code σ) (k : ClassId) (names : List String) : World Code σ :=
  names.foldl (fun w name => w.defineMethod (.ofClass k) (name ++ "=") (.writer name)) w

/-- Defines a reader for each instance variable, then a writer for each. -/
def defineAccessors (w : World Code σ) (k : ClassId) (names : List String) : World Code σ :=
  (w.defineReaders k names).defineWriters k names

/-- Makes one name stand for another at a receiver's own level. -/
def addAlias (w : World Code σ) (on : Receiver) (new old : String) : World Code σ :=
  (w.modifyAliases on fun t => t.insert new old).stamp on

/-- Makes a class the parent of another one, which takes over its class
variables. Refused when the parent descends from the child. -/
def inherit (w : World Code σ) (child parent : ClassId) :
    Except ObjectError Unit × World Code σ :=
  if w.descendsFrom parent child then
    (.error (.inheritanceCycle (w.classAt child).name (w.classAt parent).name), w)
  else
    let store := (w.classAt parent).classVars
    (.ok (),
      (w.modifyClass child fun c => { c with parent := some parent, classVars := store }).stampClass
        child)

def addBefore (w : World Code σ) (on : Receiver) (name : String) (code : Code) : World Code σ :=
  w.modifyHooks on fun h => h.addBefore name code

def addAfter (w : World Code σ) (on : Receiver) (name : String) (code : Code) : World Code σ :=
  w.modifyHooks on fun h => h.addAfter name code

def setHandler (w : World Code σ) (on : Receiver) (code : Code) : World Code σ :=
  match on with
  | .ofInstance i => w.modifyState i fun s => { s with handler := some code }
  | .ofClass k =>
    w.modifyClass k fun c =>
      { c with handler := some code, flags := { c.flags with hasHandler := true } }

/-- Makes instances of a class take their state from a pool. -/
def usePool (w : World Code σ) (k : ClassId) (p : PoolId) : World Code σ :=
  w.modifyClass k fun c => { c with pool := some p, flags := { c.flags with pooled := true } }

end ObjectModel.World
