import ObjectModel.Data.Table

/-!
# Hooks and aliases

Hooks are codes kept under the name of a method, to be run before or after
calls to it, in the order in which they were registered. An alias sends calls
of one name to another name.
-/
namespace ObjectModel

structure Hooks (Code : Type) where
  before : Table (List Code) := {}
  after : Table (List Code) := {}
  deriving Repr, Inhabited

namespace Hooks
variable {Code : Type}

def listOf (t : Table (List Code)) (name : String) : List Code := (t.find? name).getD []

/-- Adds a code after those under a name. -/
def append (t : Table (List Code)) (name : String) (code : Code) : Table (List Code) :=
  t.insert name (listOf t name ++ [code])

def addBefore (h : Hooks Code) (name : String) (code : Code) : Hooks Code :=
  { h with before := append h.before name code }

def addAfter (h : Hooks Code) (name : String) (code : Code) : Hooks Code :=
  { h with after := append h.after name code }

def beforeOf (h : Hooks Code) (name : String) : List Code := listOf h.before name

def afterOf (h : Hooks Code) (name : String) : List Code := listOf h.after name

def isEmpty (h : Hooks Code) : Bool := h.before.isEmpty && h.after.isEmpty

/-- Adding a hook lengthens the list of its name and no other. -/
theorem listOf_append (t : Table (List Code)) (name other : String) (code : Code) :
    listOf (append t name code) other =
      if other = name then listOf t name ++ [code] else listOf t other := by
  unfold listOf append
  rw [Table.find?_insert]
  split <;> rfl

end Hooks

/-- The names that stand for other names. -/
abbrev Aliases := Table String

end ObjectModel
