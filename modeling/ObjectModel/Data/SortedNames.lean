/-!
# Sorted lists of names

Names are listed in ascending order of their characters' code points, each
name once. The main statements: sorting keeps exactly the names it is given,
and the result is strictly ascending.
-/
namespace ObjectModel

/-- Puts a name before the first greater one, unless it is there already. -/
def insertName (name : String) : List String → List String
  | [] => [name]
  | other :: rest =>
    if name = other then other :: rest
    else if name < other then name :: other :: rest
    else other :: insertName name rest

/-- The names of a list in ascending order, without repetition. -/
def sortNames (names : List String) : List String := names.foldr insertName []

theorem mem_insertName {x name : String} {names : List String} :
    x ∈ insertName name names ↔ x = name ∨ x ∈ names := by
  induction names with
  | nil => simp [insertName]
  | cons other rest ih =>
    unfold insertName
    split
    · rename_i h
      subst h
      simp
    · split
      · simp
      · simp only [List.mem_cons, ih]
        exact or_left_comm

@[simp] theorem mem_sortNames {x : String} {names : List String} :
    x ∈ sortNames names ↔ x ∈ names := by
  induction names with
  | nil => simp [sortNames]
  | cons other rest ih =>
    rw [sortNames, List.foldr_cons, mem_insertName, List.mem_cons]
    exact or_congr_right ih

theorem pairwise_insertName {name : String} {names : List String}
    (h : names.Pairwise (· < ·)) : (insertName name names).Pairwise (· < ·) := by
  induction names with
  | nil => simp [insertName]
  | cons other rest ih =>
    obtain ⟨first, tail⟩ := List.pairwise_cons.mp h
    unfold insertName
    split
    · exact h
    · split
      · rename_i below
        refine List.pairwise_cons.mpr ⟨fun x hx => ?_, h⟩
        rcases List.mem_cons.mp hx with rfl | hx
        · exact below
        · exact String.lt_trans below (first x hx)
      · rename_i apart notBelow
        refine List.pairwise_cons.mpr ⟨fun x hx => ?_, ih tail⟩
        rcases mem_insertName.mp hx with rfl | hx
        · exact String.not_le.mp fun le =>
            apart (String.le_antisymm le (String.not_lt.mp notBelow))
        · exact first x hx

/-- Sorted names are strictly ascending, so no name stands twice. -/
theorem pairwise_sortNames (names : List String) : (sortNames names).Pairwise (· < ·) := by
  induction names with
  | nil => exact .nil
  | cons other rest ih => exact pairwise_insertName ih

end ObjectModel
