import ObjectModel.Lookup.Cache
import ObjectModel.Object.Hooks
import ObjectModel.Object.Variables

/-!
# Object state

Everything an instance has of its own, apart from its number and its class.
The state of an instance that is given up can be reset and serve another one.
-/
namespace ObjectModel

/-- The part of an instance that can be used again. -/
structure ObjectState (Code : Type) where
  methods : MethodDictionary Code := {}
  vars : Variables Code := {}
  hooks : Hooks Code := {}
  aliases : Aliases := {}
  cache : LookupCache Code := {}
  /-- The singleton methods, from the first definition of one on. -/
  singletons : Option (MethodDictionary Code) := none
  handler : Option Code := none
  version : Nat := 0
  deriving Inhabited

namespace ObjectState
variable {Code : Type}

def new : ObjectState Code := {}

/-- Clears every table and returns the version to zero. -/
def reset (s : ObjectState Code) : ObjectState Code :=
  { s with
    methods := {}
    vars := {}
    hooks := {}
    aliases := {}
    cache := s.cache.reset
    singletons := none
    handler := none
    version := 0 }

/-- Whether tables, remembered findings and version are those of a new state.
The handler and the counters of the cache are not looked at. -/
def isClean (s : ObjectState Code) : Bool :=
  s.methods.isEmpty && s.vars.isEmpty && s.hooks.isEmpty && s.aliases.isEmpty &&
    s.cache.isEmpty && s.singletons.isNone && s.version == 0

/-- The singleton methods, none before the first definition. -/
def singletonMethods (s : ObjectState Code) : MethodDictionary Code := s.singletons.getD {}

@[simp] theorem reset_eq_new (s : ObjectState Code) : s.reset = new := rfl

end ObjectState
end ObjectModel
