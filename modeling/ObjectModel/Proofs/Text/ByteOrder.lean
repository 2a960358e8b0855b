import ObjectModel.Data.SortedNames
import Mathlib.Algebra.Group.Nat.Defs

/-!
# Byte order

Texts compare by the code points of their characters. To compare their UTF-8 bytes comes to
the same: where two characters first differ in a byte, the one that comes later has the
greater byte. So names that are sorted are in byte order.
-/
namespace ObjectModel.Text

/-- The UTF-8 bytes of a text. -/
def bytes (s : String) : List UInt8 := s.toByteArray.data.toList

theorem bytes_eq_flatMap (s : String) : bytes s = s.toList.flatMap String.utf8EncodeChar := by
  rw [bytes, ← String.utf8Encode_toList]
  exact List.toList_data_toByteArray

/-- Two lists differ in a byte, and where they first do the first one has the lesser. -/
inductive Below : List UInt8 → List UInt8 → Prop
  | here {x y : UInt8} {a b : List UInt8} (h : x < y) : Below (x :: a) (y :: b)
  | later (x : UInt8) {a b : List UInt8} (h : Below a b) : Below (x :: a) (x :: b)

variable {a b : List UInt8} {m n k : Nat}

/-- What comes behind makes no difference any more. -/
theorem Below.append (h : Below a b) (c d : List UInt8) : Below (a ++ c) (b ++ d) := by
  induction h with
  | here h => exact .here h
  | later x _ ih => exact .later x ih

theorem Below.prepend (p : List UInt8) (h : Below a b) : Below (p ++ a) (p ++ b) := by
  induction p with
  | nil => exact h
  | cons x p ih => exact .later x ih

theorem Below.lt (h : Below a b) : a < b := by
  induction h with
  | here h => exact List.cons_lt_cons_iff.mpr (.inl h)
  | later x _ ih => exact List.cons_lt_cons_iff.mpr (.inr ⟨rfl, ih⟩)

theorem ofNat_lt_ofNat (h : m < n) (hn : n < 256) : UInt8.ofNat m < UInt8.ofNat n :=
  (UInt8.ofNat_lt_iff_lt (Nat.lt_trans h hn) hn).mpr h

/-- How a code point is written: how many bits of it are in the first byte, what marks this
byte, and how many bytes follow, with six bits each. -/
structure Form where
  bits : Nat
  mark : Nat
  more : Nat

def formOf (n : Nat) : Form :=
  if n < 128 then ⟨7, 0, 0⟩
  else if n < 2048 then ⟨5, 192, 1⟩
  else if n < 65536 then ⟨4, 224, 2⟩
  else ⟨3, 240, 3⟩

/-- The first byte for the part of a number that it takes. -/
def Form.first (f : Form) (n : Nat) : UInt8 := UInt8.ofNat (n % 2 ^ f.bits + f.mark)

/-- A number behind a first byte, six bits to a byte. -/
def spread (first : Nat → UInt8) : Nat → Nat → List UInt8
  | 0, n => [first n]
  | k + 1, n => spread first k (n / 64) ++ [UInt8.ofNat (n % 64 + 128)]

/-- The ranges of the forms. -/
theorem formOf_cases (n : Nat) :
    n < 128 ∧ formOf n = ⟨7, 0, 0⟩ ∨ (128 ≤ n ∧ n < 2048) ∧ formOf n = ⟨5, 192, 1⟩ ∨
      (2048 ≤ n ∧ n < 65536) ∧ formOf n = ⟨4, 224, 2⟩ ∨ 65536 ≤ n ∧ formOf n = ⟨3, 240, 3⟩ := by
  unfold formOf
  split
  · exact .inl ⟨by omega, rfl⟩
  · split
    · exact .inr (.inl ⟨by omega, rfl⟩)
    · split
      · exact .inr (.inr (.inl ⟨by omega, rfl⟩))
      · exact .inr (.inr (.inr ⟨by omega, rfl⟩))

theorem utf8EncodeChar_eq (c : Char) :
    String.utf8EncodeChar c = spread (formOf c.toNat).first (formOf c.toNat).more c.toNat := by
  have code : c.val.toNat = c.toNat := rfl
  simp only [String.utf8EncodeChar, code]
  obtain ⟨hn, hf⟩ | ⟨hn, hf⟩ | ⟨hn, hf⟩ | ⟨hn, hf⟩ := formOf_cases c.toNat
  · rw [if_pos (by omega), hf, spread, Form.first, Nat.mod_eq_of_lt (by omega)]
    rfl
  · rw [if_neg (by omega), if_pos (by omega), hf]
    rfl
  · rw [if_neg (by omega), if_neg (by omega), if_pos (by omega), hf]
    simp [spread, Form.first, Nat.div_div_eq_div_mul]
  · rw [if_neg (by omega), if_neg (by omega), if_neg (by omega), hf]
    simp [spread, Form.first, Nat.div_div_eq_div_mul]

/-- The numbers that a form can write, and the bytes that may come first. -/
theorem formOf_fits (h : n < 1114112) :
    n < 2 ^ (formOf n).bits * 64 ^ (formOf n).more ∧ 2 ^ (formOf n).bits + (formOf n).mark ≤ 256 := by
  obtain ⟨hn, hf⟩ | ⟨hn, hf⟩ | ⟨hn, hf⟩ | ⟨-, hf⟩ := formOf_cases n <;> rw [hf]
  · exact ⟨hn, by decide⟩
  · exact ⟨hn.2, by decide⟩
  · exact ⟨hn.2, by decide⟩
  · exact ⟨Nat.lt_trans h (by decide), by decide⟩

/-- Greater numbers have the same form, or one with greater first bytes. -/
theorem formOf_of_lt (h : m < n) :
    formOf m = formOf n ∨ 2 ^ (formOf m).bits + (formOf m).mark ≤ (formOf n).mark := by
  obtain ⟨hm, hf⟩ | ⟨hm, hf⟩ | ⟨hm, hf⟩ | ⟨hm, hf⟩ := formOf_cases m <;>
    obtain ⟨hn, hg⟩ | ⟨hn, hg⟩ | ⟨hn, hg⟩ | ⟨hn, hg⟩ := formOf_cases n <;>
      first | exact .inl (hf.trans hg.symm) | (rw [hf, hg]; right; decide) | omega

/-- A spread number starts with its first byte. -/
theorem spread_eq_cons (first : Nat → UInt8) (k n : Nat) :
    ∃ rest, spread first k n = first (n / 64 ^ k) :: rest := by
  induction k generalizing n with
  | zero => exact ⟨[], by rw [spread, Nat.pow_zero, Nat.div_one]⟩
  | succ k ih =>
    obtain ⟨rest, he⟩ := ih (n / 64)
    rw [Nat.div_div_eq_div_mul, ← Nat.pow_succ'] at he
    exact ⟨_, by rw [spread, he, List.cons_append]⟩

/-- The greater number has the greater byte, if this holds for the part in the first byte. -/
theorem below_spread {first : Nat → UInt8} {bound : Nat}
    (hf : ∀ m n, m < n → n < bound → first m < first n) (h : m < n) (hn : n < bound * 64 ^ k) :
    Below (spread first k m) (spread first k n) := by
  induction k generalizing m n with
  | zero => exact .here (hf m n h (by simpa using hn))
  | succ k ih =>
    have high : n / 64 < bound * 64 ^ k := by
      rw [Nat.pow_succ, ← Nat.mul_assoc] at hn
      exact Nat.div_lt_of_lt_mul (by rwa [Nat.mul_comm])
    obtain less | same := Nat.lt_or_eq_of_le (Nat.div_le_div_right (c := 64) (Nat.le_of_lt h))
    · exact (ih less high).append _ _
    · rw [spread, spread, same]
      refine .prepend _ (.here (ofNat_lt_ofNat ?_ ?_)) <;> omega

/-- Where the bytes of two characters first differ, the greater one has the greater byte. -/
theorem below_utf8EncodeChar {c d : Char} (h : c < d) :
    Below (String.utf8EncodeChar c) (String.utf8EncodeChar d) := by
  have lt : c.toNat < d.toNat := UInt32.lt_iff_toNat_lt.mp h
  have bound : d.toNat < 1114112 := by
    rcases d.valid with h | h
    · exact Nat.lt_trans h (by decide)
    · exact h.2
  obtain ⟨fits, bytes⟩ := formOf_fits bound
  rw [utf8EncodeChar_eq, utf8EncodeChar_eq]
  obtain same | apart := formOf_of_lt lt
  · rw [same]
    refine below_spread (fun m n hm hn => ofNat_lt_ofNat ?_ ?_) lt fits
    · rw [Nat.mod_eq_of_lt hn, Nat.mod_eq_of_lt (Nat.lt_trans hm hn)]
      omega
    · have := Nat.mod_lt n (Nat.two_pow_pos (formOf d.toNat).bits)
      omega
  · obtain ⟨r, hr⟩ := spread_eq_cons (formOf c.toNat).first (formOf c.toNat).more c.toNat
    obtain ⟨s, hs⟩ := spread_eq_cons (formOf d.toNat).first (formOf d.toNat).more d.toNat
    rw [hr, hs]
    have low := Nat.mod_lt (c.toNat / 64 ^ (formOf c.toNat).more) (Nat.two_pow_pos (formOf c.toNat).bits)
    have high := Nat.mod_lt (d.toNat / 64 ^ (formOf d.toNat).more) (Nat.two_pow_pos (formOf d.toNat).bits)
    exact .here (ofNat_lt_ofNat (by omega) (by omega))

/-- The bytes of greater characters are greater. -/
theorem flatMap_utf8EncodeChar_lt {l r : List Char} (h : l < r) :
    l.flatMap String.utf8EncodeChar < r.flatMap String.utf8EncodeChar := by
  induction l generalizing r with
  | nil =>
    cases r with
    | nil => exact absurd h (List.not_lt_nil [])
    | cons d r =>
      obtain ⟨rest, hd⟩ := spread_eq_cons (formOf d.toNat).first (formOf d.toNat).more d.toNat
      rw [List.flatMap_cons, utf8EncodeChar_eq, hd]
      exact List.nil_lt_cons _ _
  | cons c l ih =>
    cases r with
    | nil => exact absurd h (List.not_lt_nil _)
    | cons d r =>
      rw [List.flatMap_cons, List.flatMap_cons]
      obtain less | ⟨rfl, rest⟩ := List.cons_lt_cons_iff.mp h
      · exact ((below_utf8EncodeChar less).append _ _).lt
      · exact List.append_left_lt (ih rest)

/-- Texts are in byte order exactly when they are in the order of code points. -/
theorem bytes_lt_iff {s t : String} : bytes s < bytes t ↔ s < t := by
  have mono : ∀ {s t : String}, s < t → bytes s < bytes t := fun h => by
    rw [bytes_eq_flatMap, bytes_eq_flatMap]
    exact flatMap_utf8EncodeChar_lt h
  refine ⟨fun h => String.not_le.mp fun le => ?_, mono⟩
  by_cases same : t = s
  · subst same
    exact List.lt_irrefl _ h
  · have greater : t < s := String.not_le.mp fun ge => same (String.le_antisymm le ge)
    exact List.lt_asymm h (mono greater)

end ObjectModel.Text

namespace ObjectModel

/-- Names in strict order of their bytes, so that none stands twice. -/
def Ascending (names : List String) : Prop := names.Pairwise fun a b => Text.bytes a < Text.bytes b

theorem ascending_sortNames (names : List String) : Ascending (sortNames names) :=
  (pairwise_sortNames names).imp Text.bytes_lt_iff.mpr

end ObjectModel
