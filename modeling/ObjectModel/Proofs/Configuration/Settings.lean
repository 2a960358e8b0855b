import ObjectModel.Configuration
import ObjectModel.Proofs.Text.Trimming
import Mathlib.Data.List.Induction

/-!
# What the settings are read from

A capacity is written as a decimal numeral and a switch as one of a few words, with any
blanks around them. What else a text holds counts for nothing, and so does every text under
another name.
-/
namespace ObjectModel.Configuration
variable {digits text core : List Char} {n : Nat}

/-- Decimal digits and the number they stand for. Zeros in front are allowed. -/
inductive Denotes : List Char → Nat → Prop
  | digit {d : Nat} (small : d < 10) : Denotes [d.digitChar] d
  | next {digits : List Char} {n d : Nat} (front : Denotes digits n) (small : d < 10) :
      Denotes (digits ++ [d.digitChar]) (10 * n + d)

theorem isDigit_digitChar {d : Nat} (small : d < 10) : d.digitChar.isDigit = true := by
  rw [Char.isDigit_iff_toNat, Nat.toNat_digitChar_of_lt_ten small]
  exact ⟨Nat.le_add_right 48 d, Nat.add_le_add_left (Nat.le_of_lt_succ small) 48⟩

theorem exists_digitChar {c : Char} (h : c.isDigit = true) : ∃ d < 10, c = d.digitChar := by
  rw [Char.isDigit_iff_toNat] at h
  obtain ⟨low, high⟩ : 48 ≤ c.toNat ∧ c.toNat ≤ 57 := h
  have small : c.toNat - 48 < 10 := by omega
  refine ⟨c.toNat - 48, small, Char.toNat_inj.mp ?_⟩
  rw [Nat.toNat_digitChar_of_lt_ten small]
  omega

theorem ofDigits_append_digitChar (digits : List Char) {d : Nat} (small : d < 10) :
    ofDigits (digits ++ [d.digitChar]) = 10 * ofDigits digits + d := by
  simp only [ofDigits, List.foldl_append, List.foldl_cons, List.foldl_nil]
  rw [show '0'.toNat = 48 from rfl, Nat.toNat_digitChar_sub_48_of_lt_ten small]

theorem Denotes.ne_nil (h : Denotes digits n) : digits ≠ [] := by
  cases h <;> simp

theorem Denotes.isDigit (h : Denotes digits n) : ∀ c ∈ digits, c.isDigit = true := by
  induction h with
  | digit small => simpa using isDigit_digitChar small
  | next _ small ih =>
    intro c hc
    obtain hc | hc := List.mem_append.mp hc
    · exact ih c hc
    · rw [List.mem_singleton.mp hc]
      exact isDigit_digitChar small

theorem Denotes.ofDigits_eq (h : Denotes digits n) : ofDigits digits = n := by
  induction h with
  | digit small => simpa [ofDigits] using ofDigits_append_digitChar [] small
  | next _ small ih => rw [ofDigits_append_digitChar _ small, ih]

theorem denotes_ofDigits (nonempty : digits ≠ []) (all : ∀ c ∈ digits, c.isDigit = true) :
    Denotes digits (ofDigits digits) := by
  induction digits using List.reverseRecOn with
  | nil => contradiction
  | append_singleton digits c ih =>
    obtain ⟨d, small, rfl⟩ := exists_digitChar (all c (by simp))
    rw [ofDigits_append_digitChar _ small]
    cases digits with
    | nil => simpa [ofDigits] using Denotes.digit small
    | cons c digits =>
      exact .next (ih (by simp) fun x hx => all x (List.mem_append_left _ hx)) small

theorem denotes_iff : Denotes digits n ↔
    (digits ≠ [] ∧ ∀ c ∈ digits, c.isDigit = true) ∧ ofDigits digits = n :=
  ⟨fun h => ⟨⟨h.ne_nil, h.isDigit⟩, h.ofDigits_eq⟩,
    fun ⟨⟨nonempty, all⟩, value⟩ => value ▸ denotes_ofDigits nonempty all⟩

/-- The printed form of a number denotes it. -/
theorem denotes_toString (n : Nat) : Denotes (toString n).toList n := by
  have printed : (toString n).toList = Nat.toDigits 10 n := Nat.toList_repr
  rw [printed, denotes_iff]
  refine ⟨⟨Nat.toDigits_ne_nil, fun c hc =>
    Nat.isDigit_of_mem_toDigits (by decide) (by decide) hc⟩, ?_⟩
  exact Nat.ofDigitChars_toDigits (by decide) (by decide)

/-- Digits with at most one sign in front, a plus. -/
def Numeral (text : List Char) (n : Nat) : Prop :=
  ∃ sign digits, text = sign ++ digits ∧ (sign = [] ∨ sign = ['+']) ∧ Denotes digits n

theorem unsigned_of_denotes (h : Denotes digits n) : unsigned digits = digits := by
  unfold unsigned
  split
  · -- a plus is not a digit
    exact absurd (h.isDigit '+' List.mem_cons_self) (by decide)
  · rfl

theorem numeral_iff : Numeral text n ↔ Denotes (unsigned text) n := by
  constructor
  · rintro ⟨sign, digits, rfl, rfl | rfl, h⟩
    · rwa [List.nil_append, unsigned_of_denotes h]
    · exact h
  · intro h
    unfold unsigned at h
    split at h
    · next digits => exact ⟨['+'], digits, rfl, .inr rfl, h⟩
    · exact ⟨[], text, rfl, .inl rfl, h⟩

/-- The text is a number of at most 64 bits, with blanks around it. -/
def Holds (text : String) (n : Nat) : Prop :=
  n < UInt64.size ∧ ∃ core, Text.Trims text.toList core ∧ Numeral core n

/-- The text is one of the words, with blanks around it and its letters of either case. -/
def Says (text : String) (words : List String) : Prop :=
  ∃ core, Text.Trims text.toList core ∧ String.ofList (core.map Char.toLower) ∈ words

theorem parseCapacity_eq_some_iff {text : String} :
    parseCapacity text = some n ↔ Holds text n := by
  rw [Holds, Text.exists_trims_iff, numeral_iff, denotes_iff, parseCapacity]
  simp only [Option.ite_none_right_eq_some, List.all_eq_true, Option.some.injEq]
  constructor
  · rintro ⟨⟨nonempty, all, small⟩, rfl⟩
    exact ⟨small, ⟨nonempty, all⟩, rfl⟩
  · rintro ⟨small, ⟨nonempty, all⟩, rfl⟩
    exact ⟨⟨nonempty, all, small⟩, rfl⟩

theorem says_iff {text : String} {words : List String} :
    Says text words ↔ word text ∈ words :=
  Text.exists_trims_iff (P := fun core => String.ofList (core.map Char.toLower) ∈ words)

/-- No word stands for on and for off. -/
theorem not_mem_offWords {w : String} (on : w ∈ onWords) : w ∉ offWords := by
  simp only [onWords, List.mem_cons, List.not_mem_nil, or_false] at on
  rcases on with rfl | rfl | rfl | rfl <;> decide

theorem parseFlag_eq_true_iff {text : String} :
    parseFlag text = some true ↔ Says text onWords := by
  rw [says_iff, parseFlag]
  split
  · simpa
  · split <;> simpa

theorem parseFlag_eq_false_iff {text : String} :
    parseFlag text = some false ↔ Says text offWords := by
  rw [says_iff, parseFlag]
  split
  · next on => simpa using not_mem_offWords on
  · split <;> simpa

/-- A capacity is read from its printed form, whatever blanks are around it. -/
theorem holds_printed {lead trail : List Char} (small : n < UInt64.size)
    (blank : ∀ c ∈ lead ++ trail, Text.isBlank c = true) :
    Holds (String.ofList (lead ++ (toString n).toList ++ trail)) n := by
  have nonblank : ∀ c ∈ (toString n).toList, Text.isBlank c = false := by
    intro c hc
    obtain ⟨d, small, rfl⟩ := exists_digitChar ((denotes_toString n).isDigit c hc)
    exact (by decide : ∀ d < 10, Text.isBlank (Nat.digitChar d) = false) d small
  refine ⟨small, (toString n).toList, ⟨⟨lead, trail, String.toList_ofList, ?_, ?_⟩, ?_, ?_⟩,
    [], _, rfl, .inl rfl, denotes_toString n⟩
  · exact fun c hc => blank c (List.mem_append_left _ hc)
  · exact fun c hc => blank c (List.mem_append_right _ hc)
  · exact fun c hc => nonblank c (List.mem_of_mem_head? hc)
  · exact fun c hc => nonblank c (List.mem_of_mem_getLast? hc)

/-- A text is set under the name and fits. -/
def Given (lookup : String → Option String) (name : String) (Fits : String → Prop) : Prop :=
  ∃ text, lookup name = some text ∧ Fits text

variable {lookup : String → Option String}

/-- The other settings are switched off. -/
def Ignoring (lookup : String → Option String) : Prop :=
  Given lookup "RCLASS_IGNORE_ENV" (Says · ["1", "true", "on", "yes"])

/-- What the settings are, for the texts that are set. -/
structure Reading (lookup : String → Option String) (c : Configuration) : Prop where
  ignored : Ignoring lookup → c = { poolCapacity := 64, resolutionCache := true }
  capacity : ¬ Ignoring lookup → ∀ n,
    Given lookup "RCLASS_POOL_CAPACITY" (Holds · n) → c.poolCapacity = n
  noCapacity : ¬ Ignoring lookup →
    (∀ n, ¬ Given lookup "RCLASS_POOL_CAPACITY" (Holds · n)) → c.poolCapacity = 64
  cacheOn : ¬ Ignoring lookup →
    Given lookup "RCLASS_RESOLUTION_CACHE" (Says · ["1", "true", "on", "yes"]) →
      c.resolutionCache = true
  cacheOff : ¬ Ignoring lookup →
    Given lookup "RCLASS_RESOLUTION_CACHE" (Says · ["0", "false", "off", "no"]) →
      c.resolutionCache = false
  noCache : ¬ Ignoring lookup →
    ¬ Given lookup "RCLASS_RESOLUTION_CACHE" (Says · ["1", "true", "on", "yes"]) →
    ¬ Given lookup "RCLASS_RESOLUTION_CACHE" (Says · ["0", "false", "off", "no"]) →
      c.resolutionCache = true

theorem given_iff {α : Type} {name : String} {Fits : String → Prop} {parse : String → Option α}
    {a : α} (parsed : ∀ {text}, parse text = some a ↔ Fits text) :
    (lookup name).bind parse = some a ↔ Given lookup name Fits := by
  simp only [Given, Option.bind_eq_some_iff, parsed]

theorem ignoring_iff : (lookup ignoreName).bind parseFlag = some true ↔ Ignoring lookup :=
  given_iff parseFlag_eq_true_iff

theorem ofSettings_of_ignoring (h : Ignoring lookup) : ofSettings lookup = {} :=
  if_pos (ignoring_iff.mpr h)

theorem ofSettings_of_heeding (h : ¬ Ignoring lookup) :
    ofSettings lookup =
      { poolCapacity := ((lookup poolCapacityName).bind parseCapacity).getD 64
        resolutionCache := ((lookup resolutionCacheName).bind parseFlag).getD true } :=
  if_neg (ignoring_iff.not.mpr h)

theorem reading_ofSettings (lookup : String → Option String) :
    Reading lookup (ofSettings lookup) where
  ignored := ofSettings_of_ignoring
  capacity heeding n given := by
    rw [ofSettings_of_heeding heeding]
    exact congrArg (·.getD 64) ((given_iff parseCapacity_eq_some_iff).mpr given)
  noCapacity heeding unset := by
    rw [ofSettings_of_heeding heeding]
    refine congrArg (·.getD 64) (Option.eq_none_iff_forall_ne_some.mpr fun n read => unset n ?_)
    exact (given_iff parseCapacity_eq_some_iff).mp read
  cacheOn heeding given := by
    rw [ofSettings_of_heeding heeding]
    exact congrArg (·.getD true) ((given_iff parseFlag_eq_true_iff).mpr given)
  cacheOff heeding given := by
    rw [ofSettings_of_heeding heeding]
    exact congrArg (·.getD true) ((given_iff parseFlag_eq_false_iff).mpr given)
  noCache heeding notOn notOff := by
    rw [ofSettings_of_heeding heeding]
    refine congrArg (·.getD true) (Option.eq_none_iff_forall_ne_some.mpr fun b read => ?_)
    cases b with
    | true => exact notOn ((given_iff parseFlag_eq_true_iff).mp read)
    | false => exact notOff ((given_iff parseFlag_eq_false_iff).mp read)

/-- The texts leave no choice. -/
theorem Reading.unique {c d : Configuration} (hc : Reading lookup c) (hd : Reading lookup d) :
    c = d := by
  by_cases heeding : Ignoring lookup
  · rw [hc.ignored heeding, hd.ignored heeding]
  have capacity : c.poolCapacity = d.poolCapacity := by
    by_cases given : ∃ n, Given lookup "RCLASS_POOL_CAPACITY" (Holds · n)
    · obtain ⟨n, given⟩ := given
      rw [hc.capacity heeding n given, hd.capacity heeding n given]
    · rw [hc.noCapacity heeding (not_exists.mp given), hd.noCapacity heeding (not_exists.mp given)]
  have cache : c.resolutionCache = d.resolutionCache := by
    by_cases on : Given lookup "RCLASS_RESOLUTION_CACHE" (Says · ["1", "true", "on", "yes"])
    · rw [hc.cacheOn heeding on, hd.cacheOn heeding on]
    by_cases off : Given lookup "RCLASS_RESOLUTION_CACHE" (Says · ["0", "false", "off", "no"])
    · rw [hc.cacheOff heeding off, hd.cacheOff heeding off]
    · rw [hc.noCache heeding on off, hd.noCache heeding on off]
  exact congrArg₂ Configuration.mk capacity cache

/-- The settings are what three texts say, each for itself, and the defaults where one says
nothing that can be read. Every number of 64 bits can be set by its printed form. -/
theorem settings_read_exactly (lookup : String → Option String) :
    (∀ c, ofSettings lookup = c ↔ Reading lookup c) ∧
    (∀ n lead trail, n < UInt64.size → (∀ c ∈ lead ++ trail, Text.isBlank c = true) →
      ¬ Ignoring lookup →
      lookup "RCLASS_POOL_CAPACITY" = some (String.ofList (lead ++ (toString n).toList ++ trail)) →
        (ofSettings lookup).poolCapacity = n) ∧
    ∀ other : String → Option String,
      (∀ name ∈ ["RCLASS_IGNORE_ENV", "RCLASS_POOL_CAPACITY", "RCLASS_RESOLUTION_CACHE"],
        other name = lookup name) → ofSettings other = ofSettings lookup := by
  refine ⟨fun c => ⟨fun h => h ▸ reading_ofSettings lookup, (reading_ofSettings lookup).unique⟩,
    fun n lead trail small blank heeding text => ?_, fun other same => ?_⟩
  · exact (reading_ofSettings lookup).capacity heeding n ⟨_, text, holds_printed small blank⟩
  · have ignore := same ignoreName (by simp [ignoreName])
    have capacity := same poolCapacityName (by simp [poolCapacityName])
    have cache := same resolutionCacheName (by simp [resolutionCacheName])
    rw [ofSettings, ofSettings, ignore, capacity, cache]

example : ofSettings (fun name =>
    if name = "RCLASS_POOL_CAPACITY" then some "\u2003+018446744073709551615\n"
    else if name = "RCLASS_RESOLUTION_CACHE" then some " Off " else none) =
      { poolCapacity := 18446744073709551615, resolutionCache := false } := by
  decide +kernel

end ObjectModel.Configuration
