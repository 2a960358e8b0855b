import ObjectModel.Value

/-!
# Variables

A store keeps a value for each variable that is set. An unset variable reads
as nil.
-/
namespace ObjectModel

abbrev Variables (Code : Type) := Table (Value Code)

namespace Variables
variable {Code : Type}

/-- The value of a variable, nil when it is unset. -/
def get (s : Variables Code) (name : String) : Value Code := (s.find? name).getD .nil

/-- The variables in the order of a map, which the names tell: these come first, all others by
name. A map has its entries where their hashes put them in the room that it has, and it keeps
this room when it is cleared. So the order cannot be told from the entries, and is given. -/
def listed (s : Variables Code) (order : List String) : List (String × Value Code) :=
  s.toList.mergeSort fun a b => order.idxOf a.1 ≤ order.idxOf b.1

def debug (s : Variables Code) (order : List String := []) : String :=
  Text.map ((s.listed order).map fun e => (Text.quote e.1, e.2.debug))

/-- In every order all variables are listed. -/
theorem listed_perm (s : Variables Code) (order : List String) : (s.listed order).Perm s.toList :=
  List.mergeSort_perm _ _

/-- In whatever order a map has the variables, their names in this order give it. -/
theorem listed_of_perm {s : Variables Code} {entries : List (String × Value Code)}
    (h : entries.Perm s.toList) : s.listed (entries.map (·.1)) = entries := by
  have nodup : (entries.map (·.1)).Nodup :=
    (h.map (·.1)).nodup_iff.mpr (s.map_fst_toList ▸ s.nodup_names)
  have place : ∀ n (hn : n < entries.length), (entries.map (·.1)).idxOf entries[n].1 = n := by
    intro n hn
    have there := nodup.idxOf_getElem n (by rwa [List.length_map])
    rwa [List.getElem_map] at there
  refine List.Perm.eq_of_pairwise ?_ (List.pairwise_mergeSort ?_ ?_ _) ?_
    ((s.listed_perm _).trans h.symm)
  · intro a b ha hb le ge
    have ha' : a ∈ entries := h.mem_iff.mpr ((s.listed_perm _).mem_iff.mp ha)
    obtain ⟨i, hi, rfl⟩ := List.getElem_of_mem ha'
    obtain ⟨j, hj, rfl⟩ := List.getElem_of_mem hb
    simp only [place, decide_eq_true_eq] at le ge
    obtain rfl := Nat.le_antisymm le ge
    rfl
  · intro a b c hab hbc
    simp only [decide_eq_true_eq] at hab hbc ⊢
    exact Nat.le_trans hab hbc
  · intro a b
    simp only [Bool.or_eq_true, decide_eq_true_eq]
    exact Nat.le_total _ _
  · rw [List.pairwise_iff_getElem]
    intro i j hi hj below
    simp only [place, decide_eq_true_eq]
    exact Nat.le_of_lt below

end Variables

inductive StoreOp (Code : Type) where
  /-- Sets a variable; answers the value it had. -/
  | set (name : String) (v : Value Code)
  /-- Unsets a variable; answers the value it had. -/
  | remove (name : String)
  | clear
  /-- Sets a variable to a function of its value; answers the new value. -/
  | update (name : String) (f : Value Code → Reply Code)

namespace StoreOp
variable {Code : Type}

abbrev Answer : StoreOp Code → Type
  | set _ _ => Option (Value Code)
  | remove _ => Option (Value Code)
  | clear => Unit
  | update _ _ => Value Code

/-- Runs an operation on a store. New values take addresses from the given one
on; the next free address comes back with the store. -/
def apply (s : Variables Code) (address : Nat) :
    (op : StoreOp Code) → op.Answer × Variables Code × Nat
  | set name v => (s.find? name, s.insert name v, address)
  | remove name => (s.find? name, s.erase name, address)
  | clear => ((), {}, address)
  | update name f =>
    let (v, next) := (f (s.get name)).box address
    (v, s.insert name v, next)

end StoreOp
end ObjectModel
