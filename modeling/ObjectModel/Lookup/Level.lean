import ObjectModel.Identity
import ObjectModel.Method.Basic

/-!
# Levels

A receiver's methods lie on levels: the singleton methods of an instance, its
own methods, then the classes of its lineage. A lookup finds a definition,
which is a method together with its level.
-/
namespace ObjectModel

/-- The level a method was found on. -/
inductive Level where
  /-- The singleton methods of the receiving instance. -/
  | singleton
  /-- The receiving instance's own methods. -/
  | own
  /-- The methods of a class. -/
  | ofClass (k : ClassId)
  deriving DecidableEq, Repr

def Level.debug : Level → String
  | singleton => "Eigen"
  | own => "Instance"
  | ofClass k => Text.applied "Class" (Text.applied "ClassId" (toString k.number))

/-- A method together with the level it was found on. -/
structure Definition (Code : Type) where
  method : Method Code
  level : Level
  deriving DecidableEq, Repr

/-- The outcome of a lookup: a definition, or the knowledge that there is
none. -/
abbrev Finding (Code : Type) := Option (Definition Code)

def Finding.debug {Code : Type} : Finding Code → String
  | none => "Missing"
  | some d =>
    Text.applied "Found"
      (Text.record "Resolved" [("method", Text.quote d.method.name), ("owner", d.level.debug)])

end ObjectModel
