import ObjectModel.Text.Blank
import Mathlib.Data.List.TakeWhile

/-!
# Trimmed texts

What is left of a text between the blanks at its ends, said without a way to find it.
Every text has exactly one such core, and trimming finds it.
-/
namespace ObjectModel.Text

/-- The text is the core between blanks, and the core neither begins nor ends with one. -/
structure Trims (text core : List Char) : Prop where
  parted : ∃ lead trail, text = lead ++ core ++ trail ∧
    (∀ c ∈ lead, isBlank c = true) ∧ ∀ c ∈ trail, isBlank c = true
  first : ∀ c ∈ core.head?, isBlank c = false
  last : ∀ c ∈ core.getLast?, isBlank c = false

variable {p : Char → Bool} {lead core trail text : List Char}

theorem head?_dropWhile (p : Char → Bool) (cs : List Char) :
    ∀ c ∈ (cs.dropWhile p).head?, p c = false := by
  intro c hc
  have := List.head?_dropWhile_not p cs
  rwa [Option.mem_def.mp hc] at this

theorem dropWhile_append_core (blank : ∀ c ∈ lead, p c = true)
    (first : ∀ c ∈ core.head?, p c = false) : (lead ++ core).dropWhile p = core := by
  rw [List.dropWhile_append_of_pos blank]
  cases core with
  | nil => rfl
  | cons c core => exact List.dropWhile_cons_of_neg (by simp [first c rfl])

/-- A text whose last character stays can lose blanks behind it only. -/
theorem reverse_dropWhile_reverse (blank : ∀ c ∈ trail, p c = true)
    (last : ∀ c ∈ core.getLast?, p c = false) :
    ((core ++ trail).reverse.dropWhile p).reverse = core := by
  rw [List.reverse_append, dropWhile_append_core, List.reverse_reverse]
  · simpa using blank
  · simpa using last

/-- The blanks behind a text, the ones in front left aside. -/
theorem dropWhile_eq_trim_append (text : List Char) :
    text.dropWhile isBlank =
      trim text ++ ((text.dropWhile isBlank).reverse.takeWhile isBlank).reverse := by
  rw [trim, ← List.reverse_append, List.takeWhile_append_dropWhile, List.reverse_reverse]

theorem trims_trim (text : List Char) : Trims text (trim text) where
  parted := by
    refine ⟨text.takeWhile isBlank,
      ((text.dropWhile isBlank).reverse.takeWhile isBlank).reverse, ?_,
      fun c => List.mem_takeWhile_imp, fun c hc => List.mem_takeWhile_imp (List.mem_reverse.mp hc)⟩
    rw [List.append_assoc, ← dropWhile_eq_trim_append, List.takeWhile_append_dropWhile]
  first c hc := by
    -- the first character of the core is the first one after the leading blanks
    refine head?_dropWhile isBlank text c ?_
    rw [dropWhile_eq_trim_append, List.head?_append, Option.mem_def.mp hc]
    rfl
  last c hc := by
    rw [trim, List.getLast?_reverse] at hc
    exact head?_dropWhile isBlank _ c hc

theorem Trims.trim_eq (h : Trims text core) : trim text = core := by
  obtain ⟨lead, trail, rfl, blank, blank'⟩ := h.parted
  rw [trim, List.append_assoc]
  cases core with
  | nil =>
    -- nothing but blanks, so those in front are all there is
    have all : ∀ c ∈ lead ++ trail, isBlank c = true := fun c hc =>
      (List.mem_append.mp hc).elim (blank c) (blank' c)
    have rest : (lead ++ trail).dropWhile isBlank = [] := List.dropWhile_eq_nil_iff.mpr all
    rw [List.nil_append, rest]
    rfl
  | cons c core =>
    rw [dropWhile_append_core blank (by simpa using h.first)]
    exact reverse_dropWhile_reverse blank' h.last

/-- Trimming finds the core of a text, which is the only one. -/
theorem trim_eq_iff : trim text = core ↔ Trims text core :=
  ⟨fun h => h ▸ trims_trim text, Trims.trim_eq⟩

theorem exists_trims_iff {P : List Char → Prop} :
    (∃ core, Trims text core ∧ P core) ↔ P (trim text) := by
  simp only [← trim_eq_iff, exists_eq_left']

end ObjectModel.Text
