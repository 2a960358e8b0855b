import ObjectModel.Proofs.Program.Responds
import ObjectModel.Proofs.Text.ByteOrder

/-!
# What is listed and what is found

The names that classes and instances list are those under which a lookup finds a method,
whatever has been remembered: lists are put together from tables, lookups go through caches.
An alias is no name of a method, so an instance may respond to more names than it lists, but
what such a name stands for is listed.
-/
namespace ObjectModel
variable {Code σ : Type}

namespace World
variable {w : World Code σ} {i : InstanceId} {k : ClassId} {side : Side} {name : String}

/-- A class or one of its ancestors defines a method of a name on a side. -/
def DefinedAlong (w : World Code σ) (side : Side) (k : ClassId) (name : String) : Prop :=
  ∃ a ∈ w.lineage k, (((w.classAt a).table side).find? name).isSome = true

/-- An instance has a method of a name: as a singleton method, as one of its own, or from a
class. -/
def HasMethod (w : World Code σ) (i : InstanceId) (name : String) : Prop :=
  ((w.stateAt i).singletonMethods.find? name).isSome = true ∨
    ((w.stateAt i).methods.find? name).isSome = true ∨
      w.DefinedAlong .instanceSide (w.classOf (.ofInstance i)) name

theorem mem_methodNames : name ∈ w.methodNames side k ↔ w.DefinedAlong side k name := by
  simp only [methodNames, mem_sortNames, List.mem_flatMap, Table.mem_names, DefinedAlong]

theorem mem_instanceMethodNames : name ∈ w.instanceMethodNames i ↔ w.HasMethod i name := by
  rw [instanceMethodNames, mem_sortNames, List.mem_append, List.mem_append, Table.mem_names,
    Table.mem_names, mem_methodNames, or_assoc]
  rfl

theorem isSome_definition?_iff :
    (w.definition? side k name).isSome = true ↔ w.DefinedAlong side k name := by
  simp only [definition?, List.findSome?_isSome_iff, Option.isSome_map, DefinedAlong]

theorem Sound.isSome_lookUpFrom_iff (hw : w.Sound) :
    (w.lookUpFrom side k name).1.isSome = true ↔ w.DefinedAlong side k name := by
  rw [hw.lookUpFrom_fst, isSome_definition?_iff]

/-- An instance finds the names of its methods. -/
theorem finds_ofInstance_iff : w.Finds (.ofInstance i) name ↔ w.HasMethod i name := by
  rw [finds_iff, ← findSome?_levels, List.findSome?_isSome_iff]
  constructor
  · rintro ⟨level, hlevel, hd⟩
    rw [definitionOn?, Option.isSome_map] at hd
    rcases List.mem_cons.mp hlevel with rfl | hlevel
    · exact .inl hd
    · rcases List.mem_cons.mp hlevel with rfl | hlevel
      · exact .inr (.inl hd)
      · obtain ⟨a, ha, rfl⟩ := List.mem_map.mp hlevel
        exact .inr (.inr ⟨a, ha, hd⟩)
  · have defined : ∀ level ∈ w.levels (.ofInstance i),
        ((w.tableOn (.ofInstance i) level).find? name).isSome = true →
          ∃ level ∈ w.levels (.ofInstance i),
            (w.definitionOn? (.ofInstance i) name level).isSome = true :=
      fun level hlevel hm => ⟨level, hlevel, by rwa [definitionOn?, Option.isSome_map]⟩
    rintro (hm | hm | ⟨a, ha, hm⟩)
    · exact defined .singleton (by simp [levels]) hm
    · exact defined .own (by simp [levels]) hm
    · refine defined (.ofClass a) ?_ hm
      exact List.mem_cons_of_mem _ (List.mem_cons_of_mem _ (List.mem_map_of_mem ha))

theorem Sound.isSome_resolve?_iff (hw : w.Sound) :
    (w.resolve? i name).1.isSome = true ↔
      w.Finds (.ofInstance i) (w.meaning (.ofInstance i) name) := by
  rw [← target_eq_meaning, ← hw.isSome_lookUp_iff]
  exact Bool.eq_iff_iff.mp (Option.isSome_map ..)

end World

namespace Run
variable {host : Host Code σ} {p : Performer Code σ} {w : World Code σ} {i : InstanceId}
  {name : String} {args : List (Value Code)}

/-- What a call without hooks does, and whether the instance responds to its name. -/
theorem callBare_of_response (hw : w.Sound) :
    let on : Receiver := .ofInstance i
    let target := w.meaning on name
    let v := (w.lookUp on target).2
    match w.response on target with
    | .body d => (w.responds on name).1 = true ∧
        callBare host p i name args w = invokeFound host p d on args v
    | .handler code => (w.responds on name).1 = false ∧
        callBare host p i name args w = runMissing host p code target args v
    | .undefined => (w.responds on name).1 = false ∧
        callBare host p i name args w = .ok (.error (.undefinedMethod target (w.receiverName on)), v) := by
  intro on target v
  have run : callBare host p i name args w = respond host p on target args (w.response on target) v := by
    rw [← dispatch_eq hw, ← show w.target on name = target from World.target_eq_meaning w on name]
    rfl
  have responds : (w.responds on name).1 = true ↔ ∃ d, w.response on target = .body d :=
    hw.responds_ofInstance_iff i
  cases hr : w.response on target with
  | body d => exact ⟨responds.mpr ⟨d, hr⟩, by rw [run, hr]; rfl⟩
  | handler code =>
    refine ⟨Bool.eq_false_iff.mpr fun h => ?_, by rw [run, hr]; rfl⟩
    obtain ⟨d, hd⟩ := responds.mp h
    cases hr.symm.trans hd
  | undefined =>
    have recalled := World.recalled_lookUp w on target
    refine ⟨Bool.eq_false_iff.mpr fun h => ?_, ?_⟩
    · obtain ⟨d, hd⟩ := responds.mp h
      cases hr.symm.trans hd
    · rw [run, hr, ← World.bare_receiverName recalled.same on]
      rfl

/-- Wherever a run has got, whatever was defined, removed, moved and remembered on its way:
a class lists the names under which it finds methods, on each side, and understands those of
its instances. An instance lists the names of its singleton methods, of its own methods and
of those of its classes. It responds to a name, and resolves it, exactly when it lists what
the name stands for, and then a call without hooks runs the method. If it does not respond,
such a call comes to the handler, or else fails. All lists are in strict byte order. -/
theorem lists_agree_with_lookups (host : Host Code σ) (h : σ) (past : List (Step Code σ)) (fuel : Nat) :
    let w := (World.initial h).after past
    (∀ k name,
      (name ∈ w.methodNames .instanceSide k ↔ w.understands k name = true) ∧
      (name ∈ w.methodNames .instanceSide k ↔ (w.lookUpFrom .instanceSide k name).1.isSome = true) ∧
      (name ∈ w.methodNames .classSide k ↔ (w.lookUpFrom .classSide k name).1.isSome = true)) ∧
    (∀ i name, name ∈ w.instanceMethodNames i ↔ w.HasMethod i name) ∧
    (∀ i name args,
      let on : Receiver := .ofInstance i
      let target := w.meaning on name
      let v := (w.lookUp on target).2
      ((w.responds on name).1 = true ↔ (w.resolve? i name).1.isSome = true) ∧
      ((w.responds on name).1 = true ↔ target ∈ w.instanceMethodNames i) ∧
      match w.response on target with
      | .body d => (w.responds on name).1 = true ∧
          host.performer (fuel + 1) (.callBare i name args) w =
            invokeFound host (host.performer fuel) d on args v
      | .handler code => (w.responds on name).1 = false ∧
          host.performer (fuel + 1) (.callBare i name args) w =
            runMissing host (host.performer fuel) code target args v
      | .undefined => (w.responds on name).1 = false ∧
          host.performer (fuel + 1) (.callBare i name args) w =
            .ok (.error (.undefinedMethod target (w.receiverName on)), v)) ∧
    ∀ k i, Ascending (w.methodNames .instanceSide k) ∧ Ascending (w.methodNames .classSide k) ∧
      Ascending (w.classAt k).methods.names ∧ Ascending (w.instanceMethodNames i) ∧
      Ascending (w.stateAt i).singletonMethods.names := by
  intro w
  have hw : w.Sound := World.sound_after h past
  refine ⟨fun k name => ⟨?_, ?_, ?_⟩, fun i name => World.mem_instanceMethodNames,
    fun i name args => ⟨?_, ?_, ?_⟩, fun k i => ⟨?_, ?_, ?_, ?_, ?_⟩⟩
  · rw [World.mem_methodNames, World.understands, World.isSome_definition?_iff]
  · rw [World.mem_methodNames, hw.isSome_lookUpFrom_iff]
  · rw [World.mem_methodNames, hw.isSome_lookUpFrom_iff]
  · rw [hw.responds_ofInstance_iff, hw.isSome_resolve?_iff]
  · rw [hw.responds_ofInstance_iff, World.finds_ofInstance_iff, World.mem_instanceMethodNames]
  · exact callBare_of_response hw
  · exact ascending_sortNames _
  · exact ascending_sortNames _
  · exact ascending_sortNames _
  · exact ascending_sortNames _
  · exact ascending_sortNames _

/-- An alias is responded to and not listed. -/
example :
    let w : World Nat Unit := (World.initial ()).after
      [.perform (.newClass "A" {}), .perform (.defineMethod (.ofClass ⟨1⟩) "f" (.variadic 0)),
        .perform (.addAlias (.ofClass ⟨1⟩) "g" "f"), .perform (.instantiate ⟨1⟩)]
    (w.responds (.ofInstance ⟨1⟩) "g").1 = true ∧ w.instanceMethodNames ⟨1⟩ = ["f"] := by
  decide +kernel

end Run
end ObjectModel
