import ObjectModel.Proofs.Lineage.Forest
import ObjectModel.Proofs.World.Outline

/-!
# Shared class variables

A class takes over the store of its parent at the moment it gets the parent, and
keeps it from then on. As long as no class with children is moved to another
store, everything in a lineage shares one store, and what is set through one
class is read through the others. A move of a class with children leaves its
children with the store they had.
-/
namespace ObjectModel
variable {Code σ : Type}

open Relation (ReflTransGen)

namespace World
variable {w v : World Code σ} {k p : ClassId}

/-- The store of the class variables of a class. -/
def storeOf (w : World Code σ) (k : ClassId) : StoreId := w.classVarsOf (.ofClass k)

/-- Every class that has a parent holds the store of its parent. -/
def SharesStores (w : World Code σ) : Prop :=
  ∀ k p, w.parentOf k = some p → w.storeOf k = w.storeOf p

/-- A property of every step of a run, in the world in which it is taken. -/
def Along (P : World Code σ → Step Code σ → Prop) : World Code σ → List (Step Code σ) → Prop
  | _, [] => True
  | w, s :: steps => P w s ∧ Along P (s.next w) steps

end World

/-- A step that gives a class a parent names one that is there. -/
def Step.NamesParent (w : World Code σ) (s : Step Code σ) : Prop :=
  ∀ child parent, s = .perform (.inherit child parent) → w.Has (.ofClass parent)

/-- A step moves a class that has a child below a parent with another store than
the child has. -/
def Step.Splits (w : World Code σ) (s : Step Code σ) : Prop :=
  ∃ child parent k, s = .perform (.inherit child parent) ∧ w.descendsFrom parent child = false ∧
    w.parentOf k = some child ∧ w.storeOf k ≠ w.storeOf parent

namespace World
variable {w v : World Code σ} {s : Step Code σ} {child parent k p x : ClassId}

/-- An operation leaves the parent and the store of a class alone, or moves the
class. -/
theorem redrawClass_links (w : World Code σ) (k : ClassId) (c : ClassRecord Code)
    (op : Operation Code σ) :
    (op.redrawClass w k c).parent = c.parent ∧ (op.redrawClass w k c).classVars = c.classVars ∨
      ∃ parent, op = .inherit k parent ∧ w.descendsFrom parent k = false ∧
        (op.redrawClass w k c).parent = some parent ∧
        (op.redrawClass w k c).classVars = (w.classAt parent).classVars := by
  unfold Operation.redrawClass
  split
  · next child parent =>
    split
    · next h =>
      obtain ⟨rfl, hp⟩ := h
      exact .inr ⟨parent, rfl, hp, rfl, rfl⟩
    · exact .inl ⟨rfl, rfl⟩
  · split <;> exact .inl ⟨rfl, rfl⟩
  · split <;> exact .inl ⟨rfl, rfl⟩
  · split <;> exact .inl ⟨rfl, rfl⟩
  · split <;> exact .inl ⟨rfl, rfl⟩
  · split <;> exact .inl ⟨rfl, rfl⟩
  · exact .inl ⟨rfl, rfl⟩

theorem links_next (hk : w.Has (.ofClass k)) (s : Step Code σ) :
    (s.next w).parentOf k = w.parentOf k ∧ (s.next w).storeOf k = w.storeOf k ∨
      ∃ parent, s = .perform (.inherit k parent) ∧ w.descendsFrom parent k = false ∧
        (s.next w).parentOf k = some parent ∧ (s.next w).storeOf k = w.storeOf parent := by
  have drawn := (s.redrawn_next w).classes k hk
  have hparent : (s.next w).parentOf k = (s.redrawClass w k (w.classAt k)).parent :=
    congrArg (·.parent) drawn
  have hstore : (s.next w).storeOf k = (s.redrawClass w k (w.classAt k)).classVars :=
    congrArg (·.classVars) drawn
  rw [hparent, hstore]
  cases s with
  | perform op =>
    rcases redrawClass_links w k (w.classAt k) op with same | ⟨parent, rfl, moved⟩
    · exact .inl same
    · exact .inr ⟨parent, rfl, moved⟩
  | _ => exact .inl ⟨rfl, rfl⟩

/-- A class that is not moved keeps its parent and its store. -/
theorem links_next_of_ne (hk : w.Has (.ofClass k)) (hs : ∀ parent, s ≠ .perform (.inherit k parent)) :
    (s.next w).parentOf k = w.parentOf k ∧ (s.next w).storeOf k = w.storeOf k := by
  rcases links_next hk s with same | ⟨parent, he, _⟩
  · exact same
  · exact absurd he (hs parent)

theorem links_inherit (hc : w.Has (.ofClass child)) (hp : w.descendsFrom parent child = false) :
    (w.inherit child parent).2.parentOf child = some parent ∧
      (w.inherit child parent).2.storeOf child = w.storeOf parent := by
  have drawn := ((Operation.inherit child parent).redrawn_apply w).classes child hc
  have hd : (Operation.inherit child parent).redrawClass w child (w.classAt child) =
      { w.classAt child with parent := some parent, classVars := (w.classAt parent).classVars } :=
    if_pos ⟨rfl, hp⟩
  rw [hd] at drawn
  exact ⟨congrArg (·.parent) drawn, congrArg (·.classVars) drawn⟩

/-- A class that a step makes has no parent, and a store of its own. -/
theorem links_new (hk : ¬ w.Has (.ofClass k)) (s : Step Code σ) :
    (s.next w).parentOf k = none ∧
      ((s.next w).Has (.ofClass k) →
        ((s.next w).stores.find? ((s.next w).storeOf k).number).isSome = true) := by
  by_cases hv : (s.next w).Has (.ofClass k)
  · rcases ((s.redrawn_next w).has _).mp hv with h | hm
    · exact absurd h hk
    · cases s with
      | perform op =>
        cases op with
        | newClass name c =>
          obtain rfl := Receiver.ofClass.inj (Option.some.inj hm)
          rw [parentOf, storeOf, classVarsOf, Step.next, Operation.apply, classAt_newClass]
          refine ⟨rfl, fun _ => Registry.find?_isSome.mpr ⟨Nat.succ_pos _, ?_⟩⟩
          simp [newClass, Registry.next]
        | instantiate a => simp [Step.makes?, Operation.makes?] at hm
        | _ => contradiction
      | _ => contradiction
  · refine ⟨?_, fun h => absurd h hv⟩
    rw [parentOf, classAt_of_not_has hv]
    rfl

/-- Every parent is there, and so is the store of every class. -/
structure Housed (w : World Code σ) : Prop where
  parents : ∀ k p, w.parentOf k = some p → w.Has (.ofClass p)
  stores : ∀ k, w.Has (.ofClass k) → (w.stores.find? (w.storeOf k).number).isSome = true

theorem parentOf_initial (h : σ) (k : ClassId) : (initial h : World Code σ).parentOf k = none := by
  rw [parentOf, classAt_initial]
  rfl

theorem housed_initial (h : σ) : (initial h : World Code σ).Housed where
  parents k p hp := by
    rw [parentOf_initial] at hp
    contradiction
  stores k hk := by
    have hn := has_ofClass_iff.mp hk
    simp [initial, Registry.size] at hn
    omega

theorem Housed.next (hh : w.Housed) (hn : s.NamesParent w) : (s.next w).Housed where
  parents k p hp := by
    have stays : ∀ x, w.Has x → (s.next w).Has x := fun x hx =>
      ((s.redrawn_next w).has x).mpr (.inl hx)
    by_cases hk : w.Has (.ofClass k)
    · rcases links_next hk s with ⟨same, _⟩ | ⟨parent, he, _, hparent, _⟩
      · rw [same] at hp
        exact stays _ (hh.parents k p hp)
      · obtain rfl := Option.some.inj (hparent.symm.trans hp)
        exact stays _ (hn k parent he)
    · rw [(links_new hk s).1] at hp
      contradiction
  stores k hv := by
    have stays : ∀ n, (w.stores.find? n).isSome = true → ((s.next w).stores.find? n).isSome = true := by
      intro n hs
      rw [Registry.find?_isSome] at hs ⊢
      exact ⟨hs.1, Nat.le_trans hs.2 (s.redrawn_next w).stores⟩
    by_cases hk : w.Has (.ofClass k)
    · rcases links_next hk s with ⟨_, same⟩ | ⟨parent, he, _, _, hstore⟩
      · rw [same]
        exact stays _ (hh.stores k hk)
      · rw [hstore]
        exact stays _ (hh.stores parent (hn k parent he))
    · exact (links_new hk s).2 hv

/-- Exactly the steps that split end sharing. -/
theorem SharesStores.next_iff (hs : w.SharesStores) (hw : w.Rooted) (hh : w.Housed)
    (hn : s.NamesParent w) : (s.next w).SharesStores ↔ ¬ s.Splits w := by
  constructor
  · rintro shared ⟨child, parent, k, rfl, hp, hk, hne⟩
    have hkc : k ≠ child := by
      rintro rfl
      exact (hw.chain k).parent_ne hk
    obtain ⟨hparent, hstore⟩ := links_next_of_ne (s := .perform (.inherit child parent))
      (has_of_parentOf hk) (by rintro a ⟨⟩; exact hkc rfl)
    have hchild := (links_inherit (hh.parents k child hk) hp).2
    refine hne ?_
    calc
      w.storeOf k = (w.inherit child parent).2.storeOf k := hstore.symm
      _ = (w.inherit child parent).2.storeOf child := shared k child (hparent.trans hk)
      _ = w.storeOf parent := hchild
  · intro whole k p hp
    have hk : w.Has (.ofClass k) := by
      by_contra hn
      rw [(links_new hn s).1] at hp
      contradiction
    rcases links_next hk s with ⟨hparent, hstore⟩ | ⟨parent, rfl, hd, hparent, hstore⟩
    · rw [hparent] at hp
      rw [hstore, hs k p hp]
      -- The parent may have been moved in its turn.
      rcases links_next (hh.parents k p hp) s with ⟨_, same⟩ | ⟨parent, rfl, hd, _, hmoved⟩
      · exact same.symm
      · rw [hmoved, ← hs k p hp]
        by_contra hne
        exact whole ⟨p, parent, k, rfl, hd, hp, hne⟩
    · obtain rfl := Option.some.inj (hparent.symm.trans hp)
      have hne : parent ≠ k := by
        rintro rfl
        rw [hw.forest.refl] at hd
        contradiction
      have stays := links_next_of_ne (s := .perform (.inherit k parent)) (hn k parent rfl)
        (by rintro a ⟨⟩; exact hne rfl)
      rw [hstore, stays.2]

theorem SharesStores.after_iff (hs : w.SharesStores) (hw : w.Sound) (hh : w.Housed)
    {steps : List (Step Code σ)} (hn : Along Step.NamesParent w steps) :
    (∀ earlier, earlier <+: steps → (w.after earlier).SharesStores) ↔
      Along (fun w s => ¬ s.Splits w) w steps := by
  induction steps generalizing w with
  | nil =>
    refine iff_of_true (fun earlier he => ?_) trivial
    rw [List.prefix_nil.mp he]
    exact hs
  | cons s steps ih =>
    obtain ⟨hn, hrest⟩ := hn
    have hnext := hs.next_iff hw.rooted hh hn
    constructor
    · intro shared
      have first : (s.next w).SharesStores := shared [s] ⟨steps, rfl⟩
      refine ⟨hnext.mp first, (ih first (hw.next s) (hh.next hn) hrest).mp fun earlier he => ?_⟩
      exact shared (s :: earlier) ((List.prefix_cons_inj s).mpr he)
    · rintro ⟨whole, rest⟩ earlier he
      cases earlier with
      | nil => exact hs
      | cons t earlier =>
        obtain ⟨rfl, hrests⟩ := List.cons_prefix_cons.mp he
        have first := hnext.mpr whole
        exact (ih first (hw.next t) (hh.next hn) hrest).mpr rest earlier hrests

theorem Housed.after (hh : w.Housed) {steps : List (Step Code σ)}
    (hn : Along Step.NamesParent w steps) : (w.after steps).Housed := by
  induction steps generalizing w with
  | nil => exact hh
  | cons s steps ih => exact ih (hh.next hn.1) hn.2

theorem SharesStores.storeOf_of_links (hs : w.SharesStores)
    (run : ReflTransGen (fun a b => w.parentOf a = some b) k x) : w.storeOf k = w.storeOf x := by
  induction run with
  | refl => rfl
  | tail _ hp ih => exact ih.trans (hs _ _ hp)

/-- Where stores are shared, a class shares its store with its ancestors and its
descendants. -/
theorem SharesStores.storeOf_eq (hs : w.SharesStores) (hw : w.Rooted)
    (hx : w.descendsFrom k x = true ∨ w.descendsFrom x k = true) : w.storeOf k = w.storeOf x := by
  rcases hx with hx | hx
  · exact hs.storeOf_of_links (hw.descendsFrom_iff_links.mp hx)
  · exact (hs.storeOf_of_links (hw.descendsFrom_iff_links.mp hx)).symm

/-- Classes with one store read there what any of them has put there. -/
theorem variablesOf_applyToStore (hstore : w.storeOf k = w.storeOf x)
    (hh : (w.stores.find? (w.storeOf k).number).isSome = true) (op : StoreOp Code) :
    (w.applyToStore (.classVars (.ofClass k)) op).2.variablesOf (.classVars (.ofClass x)) =
      (op.apply (w.variablesOf (.classVars (.ofClass k))) w.nextAddress).2.1 := by
  obtain ⟨old, hold⟩ := Option.isSome_iff_exists.mp hh
  have hx : (w.stores.find? (w.storeOf x).number) = some old := hstore ▸ hold
  change ((w.stores.modify (w.storeOf k).number fun _ => _).find? (w.storeOf x).number).getD {} = _
  rw [Registry.find?_modify, if_pos (congrArg _ hstore.symm), hx]
  rfl

/-- The answer of an update is what it puts into the store. -/
theorem get_update (vars : Variables Code) (address : Nat) (name : String)
    (f : Value Code → Reply Code) :
    Variables.get ((StoreOp.update name f).apply vars address).2.1 name =
      ((StoreOp.update name f).apply vars address).1 := by
  simp [StoreOp.apply, Variables.get]

theorem get_set (vars : Variables Code) (address : Nat) (name : String) (v : Value Code) :
    Variables.get ((StoreOp.set name v).apply vars address).2.1 name = v := by
  simp [StoreOp.apply, Variables.get]

/-- Along a run that only names parents that are there, every class with a parent
shares the store of its parent until the first step that splits. A class that is
moved takes over the store of its parent, and no other class changes its store.
While stores are shared, what is set or updated through a class is read through
its ancestors and its descendants. -/
theorem stores_shared_until_split (h : σ) (past : List (Step Code σ))
    (hn : Along Step.NamesParent (initial h) past) :
    let w := (initial h).after past
    ((∀ earlier, earlier <+: past → ((initial h).after earlier).SharesStores) ↔
      Along (fun w s => ¬ s.Splits w) (initial h) past) ∧
    (∀ child parent, w.Has (.ofClass child) → w.descendsFrom parent child = false →
      (w.inherit child parent).2.storeOf child = w.storeOf parent ∧
        ∀ k, k ≠ child → (w.inherit child parent).2.storeOf k = w.storeOf k) ∧
    (w.SharesStores → ∀ k x, w.Has (.ofClass k) →
      w.descendsFrom k x = true ∨ w.descendsFrom x k = true → ∀ name,
        (∀ v, ((w.applyToStore (.classVars (.ofClass k)) (.set name v)).2.variablesOf
          (.classVars (.ofClass x))).get name = v) ∧
        ∀ f, ((w.applyToStore (.classVars (.ofClass k)) (.update name f)).2.variablesOf
          (.classVars (.ofClass x))).get name =
            (w.applyToStore (.classVars (.ofClass k)) (.update name f)).1) := by
  intro w
  have hw : w.Sound := sound_after h past
  have hh : w.Housed := (housed_initial h).after hn
  have hs : (initial h : World Code σ).SharesStores := by
    intro k p hp
    rw [parentOf_initial] at hp
    contradiction
  refine ⟨hs.after_iff (sound_initial h) (housed_initial h) hn, fun child parent hc hp => ?_, ?_⟩
  · refine ⟨(links_inherit hc hp).2, fun k hk => ?_⟩
    rw [storeOf, classVarsOf, classAt_inherit_of_ne hk, storeOf, classVarsOf]
  · intro hs k x hk hx name
    have hstore := hs.storeOf_eq hw.rooted hx
    refine ⟨fun v => ?_, fun f => ?_⟩
    · rw [variablesOf_applyToStore hstore (hh.stores k hk), get_set]
    · rw [variablesOf_applyToStore hstore (hh.stores k hk), get_update]
      rfl

/-- A class reads what is set through its child. -/
theorem stores_shared_with_child :
    let past : List (Step Unit Unit) :=
      [.perform (.newClass "A" {}), .perform (.newClass "B" {}), .perform (.inherit ⟨2⟩ ⟨1⟩)]
    let w := (initial ()).after past
    Along Step.NamesParent (initial ()) past ∧ w.SharesStores ∧ w.Has (.ofClass ⟨2⟩) ∧
      w.descendsFrom ⟨2⟩ ⟨1⟩ = true ∧ ∀ v,
        ((w.applyToStore (.classVars (.ofClass ⟨2⟩)) (.set "x" v)).2.variablesOf
          (.classVars (.ofClass ⟨1⟩))).get "x" = v := by
  intro past w
  have named : Along Step.NamesParent (initial ()) past := by
    refine ⟨?_, ?_, ?_, trivial⟩ <;> rintro child parent ⟨⟩
    rfl
  have shared : w.SharesStores := by
    intro k p hp
    obtain ⟨n⟩ := k
    obtain ⟨(hlow : 1 ≤ n), (hhigh : n ≤ 2)⟩ := has_ofClass_iff.mp (has_of_parentOf hp)
    obtain rfl | rfl : n = 1 ∨ n = 2 := by omega
    · contradiction
    · obtain rfl : ⟨1⟩ = p := Option.some.inj hp
      rfl
  have hd : w.descendsFrom ⟨2⟩ ⟨1⟩ = true := by decide
  refine ⟨named, shared, rfl, hd, fun v => ?_⟩
  exact ((stores_shared_until_split () past named).2.2 shared ⟨2⟩ ⟨1⟩ rfl (.inl hd) "x").1 v

/-- A child of a class that gets a parent of its own does not read what is set
through the class from then on. -/
theorem stores_split_by_late_parent :
    let past : List (Step Unit Unit) :=
      [.perform (.newClass "G" {}), .perform (.newClass "A" {}), .perform (.newClass "B" {}),
        .perform (.inherit ⟨3⟩ ⟨2⟩), .perform (.inherit ⟨2⟩ ⟨1⟩)]
    let w := (initial ()).after past
    let v : Value Unit := .object 0 (.int 1)
    w.parentOf ⟨3⟩ = some ⟨2⟩ ∧ w.storeOf ⟨3⟩ ≠ w.storeOf ⟨2⟩ ∧
      ((w.applyToStore (.classVars (.ofClass ⟨2⟩)) (.set "x" v)).2.variablesOf
        (.classVars (.ofClass ⟨3⟩))).get "x" ≠ v := by
  decide

end World
end ObjectModel
