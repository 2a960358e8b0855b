/-!
# Registries

A registry numbers its records from one, in the order they were added, and
never removes one. Its view is `find?`.
-/
namespace ObjectModel

/-- Records numbered from one. -/
structure Registry (α : Type) where
  records : Array α := #[]
  deriving Repr

namespace Registry
variable {α : Type}

instance : Inhabited (Registry α) := ⟨{}⟩

/-- The number of records, which is also the greatest number given out. -/
def size (r : Registry α) : Nat := r.records.size

def find? (r : Registry α) (number : Nat) : Option α :=
  if number = 0 then none else r.records[number - 1]?

def next (r : Registry α) : Nat := r.size + 1

def add (r : Registry α) (record : α) : Registry α := ⟨r.records.push record⟩

/-- Changes the record with a number, if there is one. -/
def modify (r : Registry α) (number : Nat) (f : α → α) : Registry α :=
  if number = 0 then r else ⟨r.records.modify (number - 1) f⟩

@[simp] theorem size_add (r : Registry α) (record : α) : (r.add record).size = r.size + 1 := by
  simp [size, add]

@[simp] theorem size_modify (r : Registry α) (number : Nat) (f : α → α) :
    (r.modify number f).size = r.size := by
  unfold size modify
  split <;> simp

/-- Adding a record changes the view at the next number only. -/
theorem find?_add (r : Registry α) (record : α) (number : Nat) :
    (r.add record).find? number = if number = r.next then some record else r.find? number := by
  unfold find? add next size
  by_cases h : number = 0
  · simp [h]
  · rw [if_neg h, if_neg h, Array.getElem?_push]
    by_cases h' : number - 1 = r.records.size
    · rw [if_pos h', if_pos (by omega)]
    · rw [if_neg h', if_neg (by omega)]

/-- Changing a record changes the view at its number only. -/
theorem find?_modify (r : Registry α) (number other : Nat) (f : α → α) :
    (r.modify number f).find? other =
      if other = number then (r.find? other).map f else r.find? other := by
  unfold find? modify
  by_cases h : number = 0
  · subst h
    by_cases h' : other = 0 <;> simp [h']
  · rw [if_neg h]
    by_cases h' : other = 0
    · subst h'
      simp
    · rw [if_neg h', if_neg h', Array.getElem?_modify]
      by_cases h'' : other = number
      · subst h''
        simp
      · rw [if_neg (by omega), if_neg h'']

/-- The records in use are those numbered from one to the size. -/
theorem find?_isSome {r : Registry α} {number : Nat} :
    (r.find? number).isSome = true ↔ 1 ≤ number ∧ number ≤ r.size := by
  unfold find? size
  by_cases h : number = 0
  · simp [h]
  · rw [if_neg h, Option.isSome_iff_ne_none, Ne, Array.getElem?_eq_none_iff]
    omega

end Registry
end ObjectModel
