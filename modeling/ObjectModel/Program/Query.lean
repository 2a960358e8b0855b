import ObjectModel.World.Reflection

/-!
# Queries

Questions that a program may ask about the world. Asking changes nothing.
-/
namespace ObjectModel

/-- Which variables are meant. -/
inductive StoreRef where
  | instanceVars (i : InstanceId)
  | classVars (on : Receiver)
  deriving DecidableEq, Repr

inductive Query where
  | className (k : ClassId)
  | parent (k : ClassId)
  | lineage (k : ClassId)
  | descendsFrom (k other : ClassId)
  | descendsFromNamed (k : ClassId) (name : String)
  | understands (k : ClassId) (name : String)
  | methodNames (side : Side) (k : ClassId)
  /-- The names of the instance methods defined on the class itself. -/
  | ownMethods (k : ClassId)
  | aliases (k : ClassId)
  | flags (k : ClassId)
  | version (k : ClassId)
  | pool (k : ClassId)
  | classDebug (k : ClassId)
  /-- The class whose lineage a receiver follows. -/
  | classOf (on : Receiver)
  | instanceMethodNames (i : InstanceId)
  | singletonMethods (i : InstanceId)
  | hasSingletons (i : InstanceId)
  /-- The debug text of an instance. The order is that of the map of its variables at that
  moment, which a program cannot choose. -/
  | instanceDebug (i : InstanceId) (order : List String := [])
  | variablesOf (ref : StoreRef)
  /-- Which store holds the class variables of a receiver. -/
  | classVarsOf (on : Receiver)
  | cacheCounters (on : Receiver)
  | poolSummary (p : PoolId)
  /-- The number of running bodies. -/
  | depth
  deriving DecidableEq, Repr

namespace Query

abbrev Answer (Code : Type) : Query → Type
  | className _ => String
  | parent _ => Option ClassId
  | lineage _ => List ClassId
  | descendsFrom _ _ => Bool
  | descendsFromNamed _ _ => Bool
  | understands _ _ => Bool
  | methodNames _ _ => List String
  | ownMethods _ => List String
  | aliases _ => List (String × String)
  | flags _ => Flags
  | version _ => Nat
  | pool _ => Option PoolId
  | classDebug _ => String
  | classOf _ => ClassId
  | instanceMethodNames _ => List String
  | singletonMethods _ => List String
  | hasSingletons _ => Bool
  | instanceDebug _ _ => String
  | variablesOf _ => Variables Code
  | classVarsOf _ => StoreId
  | cacheCounters _ => CacheCounters
  | poolSummary _ => Pool.Summary
  | depth => Nat

end Query

namespace World
variable {Code σ : Type}

def variablesOf (w : World Code σ) : StoreRef → Variables Code
  | .instanceVars i => (w.stateAt i).vars
  | .classVars on => w.storeAt (w.classVarsOf on)

def answer (w : World Code σ) : (q : Query) → q.Answer Code
  | .className k => (w.classAt k).name
  | .parent k => (w.classAt k).parent
  | .lineage k => w.lineage k
  | .descendsFrom k other => w.descendsFrom k other
  | .descendsFromNamed k name => w.descendsFromNamed k name
  | .understands k name => w.understands k name
  | .methodNames side k => w.methodNames side k
  | .ownMethods k => (w.classAt k).methods.names
  | .aliases k => (w.classAt k).aliases.toList
  | .flags k => (w.classAt k).flags
  | .version k => (w.classAt k).version
  | .pool k => (w.classAt k).pool
  | .classDebug k => w.classDebug k
  | .classOf on => w.classOf on
  | .instanceMethodNames i => w.instanceMethodNames i
  | .singletonMethods i => (w.stateAt i).singletonMethods.names
  | .hasSingletons i => (w.stateAt i).singletons.isSome
  | .instanceDebug i order => w.instanceDebug i order
  | .variablesOf ref => w.variablesOf ref
  | .classVarsOf on => w.classVarsOf on
  | .cacheCounters on => w.cacheCounters on
  | .poolSummary p => (w.poolAt p).summary
  | .depth => w.frames.length

end World
end ObjectModel
