import ObjectModel.World.Lookup

/-!
# Reflection

What classes and instances tell about themselves. Resolving a name and asking
whether a receiver responds are lookups, whose findings may be remembered;
everything else here reads tables and changes nothing.
-/
namespace ObjectModel.World
variable {Code σ : Type}

/-- Whether a lineage defines a method for instances. -/
def understands (w : World Code σ) (k : ClassId) (name : String) : Bool :=
  (w.definition? .instanceSide k name).isSome

/-- The names of the methods of a lineage. -/
def methodNames (w : World Code σ) (side : Side) (k : ClassId) : List String :=
  sortNames ((w.lineage k).flatMap fun a => ((w.classAt a).table side).names)

/-- The names of the methods an instance answers to. -/
def instanceMethodNames (w : World Code σ) (i : InstanceId) : List String :=
  sortNames ((w.stateAt i).singletonMethods.names ++ (w.stateAt i).methods.names ++
    w.methodNames .instanceSide (w.instanceAt i).classId)

/-- Resolves a name once and for all: the method that a call would run. -/
def resolve? (w : World Code σ) (i : InstanceId) (name : String) :
    Option (Method Code) × World Code σ :=
  let (found, w) := w.lookUpInstance i (w.target (.ofInstance i) name)
  (found.map (·.method), w)

/-- Whether a receiver has a method. An instance follows aliases; a class asks
for a class method of that very name. -/
def responds (w : World Code σ) (on : Receiver) (name : String) : Bool × World Code σ :=
  match on with
  | .ofInstance i =>
    let (found, w) := w.lookUpInstance i (w.target on name)
    (found.isSome, w)
  | .ofClass k =>
    let (found, w) := w.lookUpFrom .classSide k name
    (found.isSome, w)

def classVarsOf (w : World Code σ) : Receiver → StoreId
  | .ofInstance i => (w.instanceAt i).classVars
  | .ofClass k => (w.classAt k).classVars

/-- The counters of a receiver's remembered findings of instance methods. -/
def cacheCounters (w : World Code σ) : Receiver → CacheCounters
  | .ofInstance i => (w.stateAt i).cache.counters
  | .ofClass k => (w.classAt k).cache.counters

def classDebug (w : World Code σ) (k : ClassId) : String :=
  let c := w.classAt k
  let parent :=
    match c.parent with
    | none => "None"
    | some p => Text.applied "Some" (Text.quote (w.classAt p).name)
  Text.record "Class"
    [("id", toString k.number), ("name", Text.quote c.name), ("parent", parent),
      ("flags", c.flags.debug)]

/-- The debug text of an instance, with its variables in the order in which their map has them. -/
def instanceDebug (w : World Code σ) (i : InstanceId) (order : List String) : String :=
  let r := w.instanceAt i
  Text.record "Instance"
    [("id", toString i.number), ("class", Text.quote (w.classAt r.classId).name),
      ("vars", Variables.debug r.state.vars order)]

end ObjectModel.World
