import ObjectModel.Proofs.Program.Protocol

/-!
# Responding and calling

Whether a receiver responds to a name is asked of the world, not of what is
remembered. An instance is asked for what a call of the name would look for. A
class is asked for a method of that very name, while a call of the name follows
an alias first. So for a class the two agree where no alias stands in the way, and
the answer for a call is the one for what the name stands for.
-/
namespace ObjectModel
variable {Code σ : Type}

namespace World
variable {w : World Code σ} {on : Receiver} {name : String}

/-- A method of that very name is found. -/
def Finds (w : World Code σ) (on : Receiver) (name : String) : Prop :=
  ∃ d, w.response on name = .body d

theorem finds_iff : w.Finds on name ↔ (w.nearest? on name).isSome = true := by
  unfold Finds response
  rw [findSome?_levels]
  cases w.nearest? on name with
  | some d => simp
  | none => cases w.handler? on <;> simp

theorem Sound.isSome_lookUp_iff (hw : w.Sound) (on : Receiver) (name : String) :
    (w.lookUp on name).1.isSome = true ↔ w.Finds on name := by
  rw [hw.lookUp_fst, finds_iff]

theorem Sound.responds_ofClass_iff (hw : w.Sound) (k : ClassId) :
    (w.responds (.ofClass k) name).1 = true ↔ w.Finds (.ofClass k) name :=
  hw.isSome_lookUp_iff (.ofClass k) name

theorem Sound.responds_ofInstance_iff (hw : w.Sound) (i : InstanceId) :
    (w.responds (.ofInstance i) name).1 = true ↔
      w.Finds (.ofInstance i) (w.meaning (.ofInstance i) name) := by
  rw [← target_eq_meaning]
  exact hw.isSome_lookUp_iff (.ofInstance i) _

/-- A name that no holder aliases stands for itself. -/
theorem meaning_of_no_alias (h : ∀ x ∈ w.holders on, (w.aliasesOf x).find? name = none) :
    w.meaning on name = name := by
  rw [meaning, List.findSome?_eq_none_iff.mpr h, Option.getD_none]

end World

namespace Run
variable {host : Host Code σ} {performer : Performer Code σ} {on : Receiver} {name : String}
  {args : List (Value Code)} {w : World Code σ}

/-- Without hooks before it, a call is answered by what its name stands for in the
world it starts in. -/
theorem call_of_no_befores (hw : w.Sound) (h : w.befores on name = []) :
    call host performer on name args w =
      (respond host performer on (w.meaning on name) args (w.response on (w.meaning on name)) >>=
        finish host performer on name args) (w.lookUp on (w.meaning on name)).2 := by
  rw [call_eq, h]
  change Except.bind (dispatch host performer on (w.meaning on name) args w) _ = _
  rw [dispatch_eq hw]
  rfl

/-- Wherever a run has got, a class responds to a name exactly when it finds a method
of that very name, and a call without hooks before it is answered by what is found
for the name that the name stands for. The two agree where no holder has an alias
for the name. For an instance they always do. -/
theorem classes_respond_to_own_names (host : Host Code σ) (h : σ) (past : List (Step Code σ))
    (fuel : Nat) (k : ClassId) (name : String) (args : List (Value Code)) :
    let w := (World.initial h).after past
    let on : Receiver := .ofClass k
    (∀ asked, (w.responds on asked).1 = true ↔ w.Finds on asked) ∧
    (w.befores on name = [] → host.performer (fuel + 1) (.call on name args) w =
      (respond host (host.performer fuel) on (w.meaning on name) args
          (w.response on (w.meaning on name)) >>=
        finish host (host.performer fuel) on name args) (w.lookUp on (w.meaning on name)).2) ∧
    ((∀ x ∈ w.holders on, (w.aliasesOf x).find? name = none) →
      ((w.responds on name).1 = true ↔ w.Finds on (w.meaning on name))) ∧
    ∀ i asked, (w.responds (.ofInstance i) asked).1 = true ↔
      w.Finds (.ofInstance i) (w.meaning (.ofInstance i) asked) := by
  intro w on
  have hw : w.Sound := World.sound_after h past
  refine ⟨fun asked => hw.responds_ofClass_iff k, fun hb => call_of_no_befores hw hb, ?_, ?_⟩
  · intro hx
    rw [World.meaning_of_no_alias hx]
    exact hw.responds_ofClass_iff k
  · intro i asked
    exact hw.responds_ofInstance_iff i

/-- A class with an alias is asked for the method itself. -/
theorem class_responds_to_unaliased_name :
    let past : List (Step Nat Unit) :=
      [.perform (.newClass "K" {}), .perform (.defineClassMethod ⟨1⟩ "create" (.variadic 0)),
        .perform (.addAlias (.ofClass ⟨1⟩) "make" "create")]
    let w := (World.initial ()).after past
    w.befores (.ofClass ⟨1⟩) "create" = [] ∧ (w.responds (.ofClass ⟨1⟩) "create").1 = true ∧
      w.Finds (.ofClass ⟨1⟩) (w.meaning (.ofClass ⟨1⟩) "create") := by
  intro past w
  let idle : Host Nat Unit := ⟨fun _ _ _ => .done (.ok .unit), fun _ _ => .done (),
    fun _ _ _ => .done (), fun _ _ _ => .done (.ok .nil)⟩
  have agree := (classes_respond_to_own_names idle () past 0 ⟨1⟩ "create" []).2.2.1
  have own : ∀ x ∈ w.holders (.ofClass ⟨1⟩), (w.aliasesOf x).find? "create" = none := by decide
  have asked : (w.responds (.ofClass ⟨1⟩) "create").1 = true := by decide
  exact ⟨by decide, asked, (agree own).mp asked⟩

/-- A class denies an alias that it answers to, and claims a name that its alias sends
elsewhere. -/
theorem class_denies_its_alias :
    let past : List (Step Nat Unit) :=
      [.perform (.newClass "K" {}), .perform (.defineClassMethod ⟨1⟩ "create" (.variadic 0)),
        .perform (.addAlias (.ofClass ⟨1⟩) "make" "create"),
        .perform (.defineClassMethod ⟨1⟩ "old" (.variadic 0)),
        .perform (.addAlias (.ofClass ⟨1⟩) "old" "gone")]
    let w := (World.initial ()).after past
    (w.befores (.ofClass ⟨1⟩) "make" = [] ∧ (w.responds (.ofClass ⟨1⟩) "make").1 = false ∧
      w.Finds (.ofClass ⟨1⟩) (w.meaning (.ofClass ⟨1⟩) "make")) ∧
    w.befores (.ofClass ⟨1⟩) "old" = [] ∧ (w.responds (.ofClass ⟨1⟩) "old").1 = true ∧
      ¬ w.Finds (.ofClass ⟨1⟩) (w.meaning (.ofClass ⟨1⟩) "old") := by
  simp only [World.finds_iff]
  decide

end Run
end ObjectModel
