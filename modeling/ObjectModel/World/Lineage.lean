import ObjectModel.World.Basic

/-!
# Lineage

A class with its ancestors, nearest first, is its lineage. Everything that is
inherited is read along it: the stamp of the latest change, aliases, hooks and
the handler for missing methods.
-/
namespace ObjectModel.World
variable {Code σ : Type}

/-- Follows parent links, at most so many times. -/
def climb (w : World Code σ) : Nat → ClassId → List ClassId
  | 0, k => [k]
  | steps + 1, k =>
    match (w.classAt k).parent with
    | none => [k]
    | some p => k :: w.climb steps p

/-- A class and its ancestors, nearest first. No path of distinct classes has
more links than there are classes. -/
def lineage (w : World Code σ) (k : ClassId) : List ClassId := w.climb w.classes.size k

/-- The class whose lineage a receiver follows. -/
def classOf (w : World Code σ) : Receiver → ClassId
  | .ofInstance i => (w.instanceAt i).classId
  | .ofClass k => k

/-- Whether `other` is a class or one of its ancestors. -/
def descendsFrom (w : World Code σ) (k other : ClassId) : Bool := (w.lineage k).contains other

/-- Whether a class or one of its ancestors has a name. -/
def descendsFromNamed (w : World Code σ) (k : ClassId) (name : String) : Bool :=
  (w.lineage k).any fun a => (w.classAt a).name == name

/-- The stamp of the latest change in a lineage. -/
def lineageStamp (w : World Code σ) (k : ClassId) : Nat :=
  ((w.lineage k).map fun a => (w.classAt a).version).foldr max 0

/-- The stamp of the latest change to what a receiver answers. -/
def stampOf (w : World Code σ) : Receiver → Nat
  | .ofInstance i => max (w.stateAt i).version (w.lineageStamp (w.instanceAt i).classId)
  | .ofClass k => w.lineageStamp k

/-- What a name stands for on the nearest level of a lineage that aliases it. -/
def lineageAlias? (w : World Code σ) (k : ClassId) (name : String) : Option String :=
  (w.lineage k).findSome? fun a => (w.classAt a).aliases.find? name

/-- What a name stands for to a receiver, its own aliases first. -/
def alias? (w : World Code σ) : Receiver → String → Option String
  | .ofInstance i, name =>
    ((w.stateAt i).aliases.find? name).or (w.lineageAlias? (w.instanceAt i).classId name)
  | .ofClass k, name => w.lineageAlias? k name

/-- The name that a call of `name` looks for. Aliases are followed once. -/
def target (w : World Code σ) (on : Receiver) (name : String) : String :=
  (w.alias? on name).getD name

/-- The hooks of all levels of a receiver, nearest first. -/
def hookLevels (w : World Code σ) : Receiver → List (Hooks Code)
  | .ofInstance i =>
    (w.stateAt i).hooks :: (w.lineage (w.instanceAt i).classId).map fun a => (w.classAt a).hooks
  | .ofClass k => (w.lineage k).map fun a => (w.classAt a).hooks

def beforeHooks (w : World Code σ) (on : Receiver) (name : String) : List Code :=
  (w.hookLevels on).flatMap fun h => h.beforeOf name

def afterHooks (w : World Code σ) (on : Receiver) (name : String) : List Code :=
  (w.hookLevels on).flatMap fun h => h.afterOf name

/-- The handler of the nearest class of a lineage that has one. The flag is
asked before the handler. -/
def lineageHandler? (w : World Code σ) (k : ClassId) : Option Code :=
  (w.lineage k).findSome? fun a =>
    if (w.classAt a).flags.hasHandler then (w.classAt a).handler else none

/-- The handler that answers for a receiver: an instance has its own, a class
looks along its lineage. -/
def handler? (w : World Code σ) : Receiver → Option Code
  | .ofInstance i => (w.stateAt i).handler
  | .ofClass k => w.lineageHandler? k

def receiverName (w : World Code σ) : Receiver → String
  | .ofInstance i => (w.classAt (w.instanceAt i).classId).name
  | .ofClass k => "class " ++ (w.classAt k).name

end ObjectModel.World
