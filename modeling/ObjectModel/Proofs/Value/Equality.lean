import ObjectModel.Value

/-!
# Equality of values

Two values are equal if they are the same one, or if both hold a number, a truth value or a
text and these compare as equal. The values of a program lie in one heap, where an address
holds one payload. On them equality is an equivalence, and identity refines it.
-/
namespace ObjectModel

namespace Binary64
variable {x y z : Binary64}

theorem numEq_iff : x.numEq y = true ↔
    (x.isNaN = false ∧ y.isNaN = false) ∧ (x = y ∨ x.isZero = true ∧ y.isZero = true) := by
  have bits : x = y ↔ x.bits = y.bits := ⟨congrArg bits, fun h => by cases x; cases y; simp_all⟩
  simp only [numEq, Bool.and_eq_true, Bool.or_eq_true, Bool.not_eq_true', beq_iff_eq, bits]

theorem numEq_comm (x y : Binary64) : x.numEq y = y.numEq x := by
  rw [Bool.eq_iff_iff, numEq_iff, numEq_iff, and_comm (a := x.isNaN = false), eq_comm (a := x),
    and_comm (a := x.isZero = true)]

theorem numEq_trans (h : x.numEq y = true) (h' : y.numEq z = true) : x.numEq z = true := by
  rw [numEq_iff] at *
  obtain ⟨⟨number, _⟩, rfl | ⟨zero, zero'⟩⟩ := h
  · exact h'
  · obtain ⟨⟨_, number'⟩, rfl | ⟨_, zero''⟩⟩ := h'
    · exact ⟨⟨number, number'⟩, .inr ⟨zero, zero'⟩⟩
    · exact ⟨⟨number, number'⟩, .inr ⟨zero, zero''⟩⟩

end Binary64

/-- What type a payload is of. -/
inductive Kind where
  | int
  | float
  | bool
  | text
  | method (receivers : Side)
  | foreign (typeName : String)
  deriving DecidableEq

/-- Payloads of these types compare by content. -/
def Kind.primitive : Kind → Bool
  | int | float | bool | text => true
  | method _ | foreign _ => false

namespace Payload
variable {Code : Type} {p q r : Payload Code}

def kind : Payload Code → Kind
  | int _ => .int
  | float _ => .float
  | bool _ => .bool
  | text _ => .text
  | method side _ => .method side
  | foreign name _ => .foreign name

/-- The kinds that compare by content, and how each one does. -/
theorem sameContent_iff : p.sameContent q = true ↔
    (∃ n, p = .int n ∧ q = .int n) ∨ (∃ b, p = .bool b ∧ q = .bool b) ∨
      (∃ s, p = .text s ∧ q = .text s) ∨
        ∃ x y, p = .float x ∧ q = .float y ∧ x.numEq y = true := by
  cases p <;> cases q <;> simp [sameContent]
  all_goals exact eq_comm

theorem sameContent_comm (p q : Payload Code) : p.sameContent q = q.sameContent p := by
  cases p <;> cases q <;> simp only [sameContent]
  case int.int m n => exact BEq.comm
  case float.float x y => exact Binary64.numEq_comm x y
  case bool.bool b c => exact BEq.comm
  case text.text s t => exact BEq.comm

theorem sameContent_trans (h : p.sameContent q = true) (h' : q.sameContent r = true) :
    p.sameContent r = true := by
  obtain ⟨n, rfl, rfl⟩ | ⟨b, rfl, rfl⟩ | ⟨s, rfl, rfl⟩ | ⟨x, y, rfl, rfl, eq⟩ := sameContent_iff.mp h
  · exact h'
  · exact h'
  · exact h'
  · cases r <;> try contradiction
    exact Binary64.numEq_trans eq h'

theorem kind_eq_of_sameContent (h : p.sameContent q = true) :
    p.kind = q.kind ∧ p.kind.primitive = true := by
  obtain ⟨_, rfl, rfl⟩ | ⟨_, rfl, rfl⟩ | ⟨_, rfl, rfl⟩ | ⟨_, _, rfl, rfl, _⟩ := sameContent_iff.mp h
  all_goals exact ⟨rfl, rfl⟩

end Payload

namespace Value
variable {Code : Type} {heap : Nat → Option (Payload Code)} {u v w : Value Code}

/-- What type the payload is of, if there is one. -/
def kind? (v : Value Code) : Option Kind := v.payload?.map Payload.kind

/-- The payload of a value is the one that the heap has at its address. -/
def LiesIn (heap : Nat → Option (Payload Code)) : Value Code → Prop
  | nil => True
  | object address p => heap address = some p

/-- The values of one program, whose payloads are in one heap. -/
abbrev Held (heap : Nat → Option (Payload Code)) : Type := { v : Value Code // v.LiesIn heap }

theorem same_self (v : Value Code) : v.same v = true := by
  cases v <;> simp [same]

/-- In a heap the same value has the same payload. -/
theorem eq_of_same (hv : v.LiesIn heap) (hw : w.LiesIn heap) (h : v.same w = true) : v = w := by
  cases v <;> cases w <;> try contradiction
  case nil.nil => rfl
  case object.object a p b q =>
    obtain rfl : a = b := beq_iff_eq.mp h
    obtain rfl : p = q := Option.some.inj (hv.symm.trans hw)
    rfl

/-- Both values hold payloads that are equal in content. -/
def Alike (v w : Value Code) : Prop :=
  ∃ p q, v.payload? = some p ∧ w.payload? = some q ∧ p.sameContent q = true

theorem equal_iff : v.equal w = true ↔ v.same w = true ∨ v.Alike w := by
  cases v <;> cases w <;> simp [equal, Alike, payload?]

theorem equal_of_same (h : v.same w = true) : v.equal w = true := equal_iff.mpr (.inl h)

theorem equal_self (v : Value Code) : v.equal v = true := equal_of_same v.same_self

theorem same_comm (v w : Value Code) : v.same w = w.same v := by
  cases v <;> cases w <;> simp only [same]
  exact BEq.comm

theorem Alike.symm (h : v.Alike w) : w.Alike v := by
  obtain ⟨p, q, hp, hq, h⟩ := h
  exact ⟨q, p, hq, hp, (q.sameContent_comm p).trans h⟩

theorem Alike.trans (h : u.Alike v) (h' : v.Alike w) : u.Alike w := by
  obtain ⟨p, q, hp, hq, alike⟩ := h
  obtain ⟨q', r, hq', hr, alike'⟩ := h'
  obtain rfl : q = q' := Option.some.inj (hq.symm.trans hq')
  exact ⟨p, r, hp, hr, Payload.sameContent_trans alike alike'⟩

theorem equal_comm (v w : Value Code) : v.equal w = w.equal v := by
  rw [Bool.eq_iff_iff, equal_iff, equal_iff, same_comm]
  exact or_congr_right ⟨Alike.symm, Alike.symm⟩

/-- Equal values of a heap are one and the same, or alike. -/
theorem eq_or_alike (hv : v.LiesIn heap) (hw : w.LiesIn heap) (h : v.equal w = true) :
    v = w ∨ v.Alike w := (equal_iff.mp h).imp_left (eq_of_same hv hw)

theorem equal_trans (hu : u.LiesIn heap) (hv : v.LiesIn heap) (hw : w.LiesIn heap)
    (h : u.equal v = true) (h' : v.equal w = true) : u.equal w = true := by
  obtain rfl | alike := eq_or_alike hu hv h
  · exact h'
  obtain rfl | alike' := eq_or_alike hv hw h'
  · exact h
  · exact equal_iff.mpr (.inr (alike.trans alike'))

/-- What tells nothing about identity and, for a float, nothing about its bits. -/
structure LooksLike (v w : Value Code) : Prop where
  isNil : v.isNil = w.isNil
  isTruthy : v.isTruthy = w.isTruthy
  typeName : v.typeName = w.typeName
  int : v.int? = w.int?
  bool : v.bool? = w.bool?
  text : v.text? = w.text?

theorem Alike.looksLike (h : v.Alike w) : v.LooksLike w := by
  obtain ⟨p, q, hp, hq, alike⟩ := h
  cases v <;> cases w <;> simp only [payload?, Option.some.injEq, reduceCtorEq] at hp hq
  subst hp hq
  obtain ⟨_, rfl, rfl⟩ | ⟨_, rfl, rfl⟩ | ⟨_, rfl, rfl⟩ | ⟨_, _, rfl, rfl, _⟩ :=
    Payload.sameContent_iff.mp alike
  all_goals exact ⟨rfl, rfl, rfl, rfl, rfl, rfl⟩

theorem Alike.kind?_eq (h : v.Alike w) : v.kind? = w.kind? ∧ ∀ k ∈ v.kind?, k.primitive = true := by
  obtain ⟨p, q, hp, hq, alike⟩ := h
  obtain ⟨kinds, primitive⟩ := Payload.kind_eq_of_sameContent alike
  refine ⟨by rw [kind?, kind?, hp, hq, Option.map_some, Option.map_some, kinds], fun k hk => ?_⟩
  rw [kind?, hp, Option.map_some, Option.mem_def, Option.some.injEq] at hk
  exact hk ▸ primitive

/-- Values of different types are not equal, and nothing equals nil but nil. -/
theorem kind?_eq_of_equal (hv : v.LiesIn heap) (hw : w.LiesIn heap) (h : v.equal w = true) :
    v.kind? = w.kind? := by
  obtain rfl | alike := eq_or_alike hv hw h
  · rfl
  · exact alike.kind?_eq.1

/-- Values that are not compared by content are equal only to themselves. -/
theorem equal_eq_same (h : ∀ k ∈ v.kind?, k.primitive = false) (w : Value Code) :
    v.equal w = v.same w := by
  rw [Bool.eq_iff_iff, equal_iff, or_iff_left]
  intro alike
  have primitive := alike.kind?_eq.2
  obtain ⟨p, _, hp, _⟩ := alike
  have held : p.kind ∈ v.kind? := by rw [kind?, hp]; rfl
  exact Bool.false_ne_true ((h _ held).symm.trans (primitive _ held))

/-- On the values of a program equality is an equivalence that identity refines. Equal values
look alike and are of one type, what is no primitive equals itself only, and a NaN equals
just its copies. -/
theorem equality_refined_by_identity (heap : Nat → Option (Payload Code)) :
    Equivalence (fun v w : Held heap => v.val.equal w.val = true) ∧
    (∀ v w : Value Code, v.same w = true → v.equal w = true) ∧
    (∀ v w : Held heap, v.val.equal w.val = true → v.val.LooksLike w.val) ∧
    (∀ v w : Held heap, v.val.kind? ≠ w.val.kind? → v.val.equal w.val = false) ∧
    (∀ v w : Held heap, (∀ k ∈ v.val.kind?, k.primitive = false) →
      (v.val.equal w.val = true ↔ v.val.same w.val = true)) ∧
    ∀ (a b : Nat) (x y : Binary64), x.isNaN = true → a ≠ b →
      (object a (.float x) : Value Code).equal (object b (.float y)) = false := by
  refine ⟨⟨fun v => equal_self v.val, fun h => (equal_comm _ _).trans h,
    fun {u v w} => equal_trans u.property v.property w.property⟩, fun _ _ => equal_of_same,
    fun v w h => ?_, fun v w h => ?_, fun v w h => ?_, fun a b x y nan distinct => ?_⟩
  · obtain eq | alike := eq_or_alike v.property w.property h
    · exact eq ▸ ⟨rfl, rfl, rfl, rfl, rfl, rfl⟩
    · exact alike.looksLike
  · exact Bool.eq_false_iff.mpr fun e => h (kind?_eq_of_equal v.property w.property e)
  · rw [equal_eq_same h]
  · simp [equal, same, Payload.sameContent, Binary64.numEq, nan, distinct]

/-- The two zeros are equal, a NaN is not equal to another one. -/
example : (object 0 (.float ⟨0⟩) : Value Unit).equal (object 1 (.float ⟨0x8000000000000000⟩)) = true ∧
    (object 0 (.float ⟨0x7FF8000000000000⟩) : Value Unit).equal
      (object 1 (.float ⟨0x7FF8000000000000⟩)) = false := by
  decide +kernel

end Value
end ObjectModel
