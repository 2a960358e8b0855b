import ObjectModel.Data.SortedNames

/-!
# Tables

A table keeps one entry for each name. Its view is `find?`; the lemmas say
what each operation does to that view, and that the listed names are exactly
those with an entry.
-/
namespace ObjectModel

/-- Entries under names. -/
structure Table (α : Type) where
  entries : List (String × α) := []
  deriving Repr

namespace Table
variable {α β : Type}

instance : Inhabited (Table α) := ⟨{}⟩

/-- The entry of the first pair with a name. -/
def findIn (name : String) : List (String × α) → Option α
  | [] => none
  | (other, value) :: rest => if other = name then some value else findIn name rest

/-- Puts a value under a name, in place of the value that was there. -/
def putIn (name : String) (value : α) : List (String × α) → List (String × α)
  | [] => [(name, value)]
  | (other, old) :: rest =>
    if other = name then (name, value) :: rest else (other, old) :: putIn name value rest

/-- Takes every pair with a name out. -/
def dropIn (name : String) : List (String × α) → List (String × α)
  | [] => []
  | (other, value) :: rest =>
    if other = name then dropIn name rest else (other, value) :: dropIn name rest

def find? (t : Table α) (name : String) : Option α := findIn name t.entries

def contains (t : Table α) (name : String) : Bool := (t.find? name).isSome

def insert (t : Table α) (name : String) (value : α) : Table α :=
  ⟨putIn name value t.entries⟩

def erase (t : Table α) (name : String) : Table α :=
  ⟨dropIn name t.entries⟩

def size (t : Table α) : Nat := t.entries.length

def isEmpty (t : Table α) : Bool := t.entries.isEmpty

/-- The names with an entry, in order. -/
def names (t : Table α) : List String := sortNames (t.entries.map (·.1))

/-- The entries in the order of their names. -/
def toList (t : Table α) : List (String × α) :=
  t.names.filterMap fun name => (t.find? name).map (name, ·)

@[simp] theorem find?_empty (name : String) : (⟨[]⟩ : Table α).find? name = none := rfl

theorem isEmpty_iff {t : Table α} : t.isEmpty = true ↔ t = {} := by
  obtain ⟨entries⟩ := t
  cases entries <;> simp [isEmpty]

theorem findIn_putIn (name other : String) (value : α) (entries : List (String × α)) :
    findIn other (putIn name value entries) =
      if other = name then some value else findIn other entries := by
  induction entries with
  | nil => simp [putIn, findIn, eq_comm]
  | cons e rest ih =>
    obtain ⟨first, old⟩ := e
    by_cases h : first = name
    · subst h
      by_cases h' : other = first
      · simp [putIn, findIn, h']
      · simp [putIn, findIn, h', Ne.symm h']
    · by_cases h' : first = other
      · subst h'
        simp [putIn, findIn, h]
      · simp [putIn, findIn, h, h', ih]

theorem findIn_dropIn (name other : String) (entries : List (String × α)) :
    findIn other (dropIn name entries) = if other = name then none else findIn other entries := by
  induction entries with
  | nil => simp [dropIn, findIn]
  | cons e rest ih =>
    obtain ⟨first, old⟩ := e
    by_cases h : first = name
    · subst h
      by_cases h' : other = first
      · simpa [dropIn, h'] using ih
      · simpa [dropIn, findIn, h', Ne.symm h'] using ih
    · by_cases h' : first = other
      · subst h'
        simp [dropIn, findIn, h]
      · simp [dropIn, findIn, h, h', ih]

/-- Putting a value under a name changes the entry of that name only. -/
theorem find?_insert (t : Table α) (name other : String) (value : α) :
    (t.insert name value).find? other = if other = name then some value else t.find? other :=
  findIn_putIn name other value t.entries

@[simp] theorem find?_insert_self (t : Table α) (name : String) (value : α) :
    (t.insert name value).find? name = some value := by
  simp [find?_insert]

/-- Taking a name out changes the entry of that name only. -/
theorem find?_erase (t : Table α) (name other : String) :
    (t.erase name).find? other = if other = name then none else t.find? other :=
  findIn_dropIn name other t.entries

theorem findIn_isSome {name : String} {entries : List (String × α)} :
    (findIn name entries).isSome = true ↔ name ∈ entries.map (·.1) := by
  induction entries with
  | nil => simp [findIn]
  | cons e rest ih =>
    obtain ⟨first, old⟩ := e
    by_cases h : first = name
    · simp [findIn, h]
    · simp only [findIn, if_neg h, ih, List.map_cons, List.mem_cons]
      exact ⟨Or.inr, fun hn => hn.resolve_left fun he => h he.symm⟩

/-- The listed names are those with an entry. -/
theorem mem_names {t : Table α} {name : String} :
    name ∈ t.names ↔ (t.find? name).isSome = true := by
  rw [names, mem_sortNames, find?, findIn_isSome]

/-- The entries are listed under the names there are. -/
theorem map_fst_toList (t : Table α) : t.toList.map (·.1) = t.names := by
  have each : ∀ names : List String, (∀ name ∈ names, name ∈ t.names) →
      (names.filterMap fun name => (t.find? name).map (name, ·)).map (·.1) = names := by
    intro names h
    induction names with
    | nil => rfl
    | cons name rest ih =>
      obtain ⟨a, ha⟩ := Option.isSome_iff_exists.mp (mem_names.mp (h name List.mem_cons_self))
      have others := ih fun other ho => h other (List.mem_cons_of_mem _ ho)
      rw [List.filterMap_cons, ha, Option.map_some, List.map_cons, others]
  exact each t.names fun _ => id

theorem nodup_names (t : Table α) : t.names.Nodup := by
  refine List.Pairwise.imp ?_ (pairwise_sortNames (t.entries.map (·.1)))
  rintro a _ below rfl
  exact String.lt_irrefl a below

end Table
end ObjectModel
