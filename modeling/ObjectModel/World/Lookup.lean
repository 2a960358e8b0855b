import ObjectModel.World.Lineage

/-!
# Method lookup

The nearest definition along a lineage counts; caches only remember findings.
An instance remembers what it found on all its levels, and a class what it
found along its lineage, each side apart. A class that is not cached searches
every time, and so do its instances.
-/
namespace ObjectModel.World
variable {Code σ : Type}

/-- The nearest definition of a method along a lineage. -/
def definition? (w : World Code σ) (side : Side) (k : ClassId) (name : String) : Finding Code :=
  (w.lineage k).findSome? fun a =>
    (((w.classAt a).table side).find? name).map fun m => ⟨m, .ofClass a⟩

def caching (w : World Code σ) (k : ClassId) : Bool := !(w.classAt k).flags.uncached

def putClassCache (w : World Code σ) (side : Side) (k : ClassId)
    (cache : LookupCache Code) : World Code σ :=
  w.modifyClass k fun c => c.withCache side cache

def putInstanceCache (w : World Code σ) (i : InstanceId) (cache : LookupCache Code) :
    World Code σ :=
  w.modifyState i fun s => { s with cache }

/-- Looks a method up along the lineage of a class. -/
def lookUpFrom (w : World Code σ) (side : Side) (k : ClassId) (name : String) :
    Finding Code × World Code σ :=
  if w.caching k then
    let stamp := w.lineageStamp k
    match ((w.classAt k).cacheOf side).consult name stamp with
    | (some found, cache) => (found, w.putClassCache side k cache)
    | (none, cache) =>
      let found := w.definition? side k name
      (found, w.putClassCache side k (cache.remember name stamp found))
  else (w.definition? side k name, w)

/-- The definition of a method on the instance itself: a singleton method
before an own one. -/
def ownMethod? (w : World Code σ) (i : InstanceId) (name : String) : Finding Code :=
  match (w.stateAt i).singletonMethods.find? name with
  | some m => some ⟨m, .singleton⟩
  | none => ((w.stateAt i).methods.find? name).map fun m => ⟨m, .own⟩

/-- Looks a method up on the instance itself, then along the lineage of its
class. -/
def searchInstance (w : World Code σ) (i : InstanceId) (name : String) :
    Finding Code × World Code σ :=
  match w.ownMethod? i name with
  | some d => (some d, w)
  | none => w.lookUpFrom .instanceSide (w.instanceAt i).classId name

def lookUpInstance (w : World Code σ) (i : InstanceId) (name : String) :
    Finding Code × World Code σ :=
  if w.caching (w.instanceAt i).classId then
    let stamp := w.stampOf (.ofInstance i)
    match (w.stateAt i).cache.consult name stamp with
    | (some found, cache) => (found, w.putInstanceCache i cache)
    | (none, cache) =>
      let (found, w) := w.searchInstance i name
      (found, w.putInstanceCache i (cache.remember name stamp found))
  else w.searchInstance i name

def lookUp (w : World Code σ) : Receiver → String → Finding Code × World Code σ
  | .ofInstance i, name => w.lookUpInstance i name
  | .ofClass k, name => w.lookUpFrom .classSide k name

/-- The parent of a class in a lineage, none when the class has left it. -/
def parentWithin? (w : World Code σ) (k above : ClassId) : Option ClassId :=
  if w.descendsFrom k above then (w.classAt above).parent else none

/-- Looks a method up above a class of a lineage, through what its parent
remembers. -/
def lookUpAboveClass (w : World Code σ) (side : Side) (k above : ClassId) (name : String) :
    Finding Code × World Code σ :=
  match w.parentWithin? k above with
  | some p => w.lookUpFrom side p name
  | none => (none, w)

def lookUpAbove (w : World Code σ) (on : Receiver) (level : Level) (name : String) :
    Finding Code × World Code σ :=
  match on, level with
  | .ofInstance i, .singleton =>
    match (w.stateAt i).methods.find? name with
    | some m => (some ⟨m, .own⟩, w)
    | none => w.lookUpFrom .instanceSide (w.instanceAt i).classId name
  | .ofInstance i, .own => w.lookUpFrom .instanceSide (w.instanceAt i).classId name
  | .ofInstance i, .ofClass k => w.lookUpAboveClass .instanceSide (w.instanceAt i).classId k name
  | .ofClass c, .ofClass k => w.lookUpAboveClass .classSide c k name
  | .ofClass _, _ => (none, w)

/-- The level of the innermost running body with this receiver and name. -/
def runningLevel? (w : World Code σ) (on : Receiver) (name : String) : Option Level :=
  (w.frames.find? fun f => f.receiver = on ∧ f.method = name).map (·.level)

/-- The level a super call starts from: that of the running body, or else that
of the method a call would find. -/
def superLevel (w : World Code σ) (on : Receiver) (name : String) :
    Option Level × World Code σ :=
  match w.runningLevel? on name with
  | some level => (some level, w)
  | none =>
    let (found, w) := w.lookUp on name
    (found.map (·.level), w)

/-- Looks up the method that a super call runs. -/
def lookUpSuper (w : World Code σ) (on : Receiver) (name : String) :
    Finding Code × World Code σ :=
  match w.superLevel on name with
  | (some level, w) => w.lookUpAbove on level name
  | (none, w) => (none, w)

end ObjectModel.World
