import ObjectModel.Proofs.Program.Pairing
import ObjectModel.Proofs.Program.Transparency

/-!
# Pools are transparent

Whether classes take the states of their instances from pools makes no difference to
a program that does not ask about pools. What enters a pool is reset, so a state out
of a pool is a new one, whoever had it before. Only the order in which its map has the
variables may still be another one, and shows in debug texts.
-/
namespace ObjectModel
variable {Code σ α : Type}

/-- The veil before everything about pools. -/
def Veil.pooling : Veil := { pools := true }

/-- The second program is the first one with no class ever using a pool. What the
programs do next may not depend on what an answer tells about pools. The maps of variables
may have other orders in the second run than in the first one. -/
inductive Script.Unpooled : Script Code σ α → Script Code σ α → Prop
  | done (a : α) : Unpooled (done a) (done a)
  | usePool (k : ClassId) (p : PoolId) {next : Unit → Script Code σ α} {s : Script Code σ α}
      (h : Unpooled (next ()) s) : Unpooled (operate (.usePool k p) next) s
  | operate (op : Operation Code σ) {next next' : op.Answer → Script Code σ α}
      (hop : ∀ k p, op ≠ .usePool k p)
      (h : ∀ a b, op.SameBehind .pooling a b → Unpooled (next a) (next' b)) :
      Unpooled (operate op next) (operate op next')
  | sketch (i : InstanceId) (order order' : List String) {next next' : String → Script Code σ α}
      (h : ∀ a b, SameSketch a b → Unpooled (next a) (next' b)) :
      Unpooled (operate (.query (.instanceDebug i order)) next)
        (operate (.query (.instanceDebug i order')) next')
  | send (m : Message Code) {next next' : Outcome Code → Script Code σ α}
      (h : ∀ outcome, Unpooled (next outcome) (next' outcome)) :
      Unpooled (send m next) (send m next')

/-- The second host is the first one with no class ever using a pool. -/
structure Host.Unpooled (host host' : Host Code σ) : Prop where
  body : ∀ code on args, (host.body code on args).Unpooled (host'.body code on args)
  before : ∀ code args, (host.before code args).Unpooled (host'.before code args)
  after : ∀ code x args, (host.after code x args).Unpooled (host'.after code x args)
  missing : ∀ code name args, (host.missing code name args).Unpooled (host'.missing code name args)

namespace Run

open World (SameBehind)

variable {host host' : Host Code σ} {p p' : Performer Code σ} {w v : World Code σ}

theorem coupling_pooling : Coupling (SameBehind .pooling : World Code σ → World Code σ → Prop) :=
  SameBehind.coupling rfl rfl

theorem paired_unpooled
    (hp : ∀ m w v, SameBehind .pooling w v → Paired (SameBehind .pooling) Eq (p m w) (p' m v))
    {s s' : Script Code σ α} (hs : s.Unpooled s') (h : SameBehind .pooling w v) :
    Paired (SameBehind .pooling) Eq (s.run p w) (s'.run p' v) := by
  induction hs generalizing w v with
  | done a => exact .ended rfl h
  | @usePool k q next s _ ih =>
    have unseen : SameBehind .pooling (w.usePool k q) v :=
      Eq.trans h (World.usePool_hidden rfl k q w).symm
    exact ih unseen
  | operate op _ _ ih => exact paired_modifyGet (ih _ _ (World.sameBehind_apply h nofun op) (h.apply op))
  | sketch i order order' _ ih =>
    exact ih _ _ (World.sameSketch_instanceDebug h i order order') h
  | send m _ ih =>
    refine (hp m w v h).bind ?_
    rintro outcome _ w' v' _ _ rfl h'
    exact ih outcome h'

end Run

namespace Host
variable {host host' : Host Code σ}

open World (SameBehind)

theorem paired_performer_unpooled (hh : host.Unpooled host') (fuel : Nat) (m : Message Code)
    (w v : World Code σ) (h : SameBehind .pooling w v) :
    Run.Paired (SameBehind .pooling) Eq (host.performer fuel m w) (host'.performer fuel m v) := by
  induction fuel generalizing m w v with
  | zero => exact .halted _
  | succ fuel ih =>
    refine Run.pair_deliver Run.coupling_pooling (Run.balanced_performer host fuel)
      (Run.balanced_performer host' fuel) ?_ ?_ ?_ ?_ ?_ h m
    · exact fun code on args _ _ => Run.paired_unpooled ih (hh.body code on args)
    · exact fun h on => World.same_of_behind (f := (·.hookLevels on))
        (fun u => u.hookLevels_behind rfl on) h
    · exact fun code args _ _ => Run.paired_unpooled ih (hh.before code args)
    · exact fun code x args _ _ => Run.paired_unpooled ih (hh.after code x args)
    · exact fun code name args _ _ => Run.paired_unpooled ih (hh.missing code name args)

/-- Two ends of a run that cannot be told apart but by pools: the answers are the same,
the same code has run in the same order, and from there on all that lookups find and
all that operations answer is the same, as far as it does not tell about pools. The debug
text of an instance lists the same variables, in whatever orders their maps have them. -/
inductive SameButPools : Except Halt (α × World Code σ) → Except Halt (α × World Code σ) → Prop
  | ended {a : α} {w v : World Code σ} (worlds : v.behind .pooling = w.behind .pooling)
      (trace : v.trace = w.trace)
      (answers : ∀ op : Operation Code σ, op.SameBehind .pooling (op.apply w).1 (op.apply v).1)
      (sketches : ∀ i order order', SameSketch (w.instanceDebug i order) (v.instanceDebug i order'))
      (found : ∀ on name, (v.lookUp on name).1 = (w.lookUp on name).1)
      (above : ∀ on name, (v.lookUpSuper on name).1 = (w.lookUpSuper on name).1) :
      SameButPools (.ok (a, w)) (.ok (a, v))
  | halted (e : Halt) : SameButPools (.error e) (.error e)

/-- A program comes to the same end with pools and without: whichever classes share
whichever pools, and whatever has been put into them. The answer may hold all that a
program was told on its way. Wherever a new instance gets its state from, it has
nothing of its own but the handler of its class. -/
theorem pooling_is_transparent (hh : host.Unpooled host') {s s' : Script Code σ α}
    (hs : s.Unpooled s') (h : σ) (fuel : Nat) :
    SameButPools (host.run fuel s (.initial h)) (host'.run fuel s' (.initial h)) ∧
      ∀ (w : World Code σ) k, (w.instantiate k).2.stateAt (w.instantiate k).1 =
        { ObjectState.new with handler := w.lineageHandler? k } := by
  constructor
  · have finish := Run.paired_unpooled (paired_performer_unpooled hh fuel) hs
      (w := .initial h) (v := .initial h) rfl
    change SameButPools (s.run (host.performer fuel) _) (s'.run (host'.performer fuel) _)
    generalize s.run (host.performer fuel) _ = x at finish
    generalize s'.run (host'.performer fuel) _ = y at finish
    cases finish with
    | @ended a b w v answers worlds =>
      subst answers
      have shown : ∀ u : World Code σ, (u.behind .pooling).trace = u.trace :=
        World.trace_behind rfl rfl
      refine .ended worlds ?_ (World.sameBehind_apply worlds nofun)
        (World.sameSketch_instanceDebug worlds) (fun on name => ?_) fun on name => ?_
      · rw [← shown w, ← worlds, shown v]
      · exact (Run.coupling_pooling.found worlds on name).symm
      · exact (Run.coupling_pooling.foundAbove worlds on name).symm
    | halted e => exact .halted e
  · intro w k
    rw [World.instantiate_eq, World.stateAt, World.instanceAt_add, World.instances_freshState,
      if_pos rfl]

/-- An instance that has had a method and a handler of its own is retired before the
next one is made and asked for the method. -/
def recycling (k : ClassId) : Script Unit Unit (Outcome Unit × Outcome Unit) :=
  .operate (.instantiate k) fun i =>
    .operate (.defineMethod (.ofInstance i) "f" (.ofSignature .nullary ())) fun _ =>
      .operate (.setHandler (.ofInstance i) ()) fun _ =>
        .send (.call (.ofInstance i) "f" []) fun found =>
          .operate (.retire i) fun _ =>
            .operate (.instantiate k) fun j =>
              .send (.call (.ofInstance j) "f" []) fun missing => .done (found, missing)

/-- What the first instance had does not come back with its state, and without a pool
nothing else would have happened. -/
theorem pooling_is_transparent_to_recycling :
    let pooled : Script Unit Unit (Outcome Unit × Outcome Unit) :=
      .operate (.newPool 1) fun p =>
        .operate (.newClass "A" {}) fun k => .operate (.usePool k p) fun _ => recycling k
    let unpooled : Script Unit Unit (Outcome Unit × Outcome Unit) :=
      .operate (.newPool 1) fun _ => .operate (.newClass "A" {}) recycling
    (idle.run 2 pooled (.initial ())).map (fun e => (e.1, (e.2.poolAt ⟨1⟩).counters.hits)) =
        .ok ((.ok .nil, .error (.undefinedMethod "f" "A")), 1) ∧
      (idle.run 2 unpooled (.initial ())).map (·.1) = (idle.run 2 pooled (.initial ())).map (·.1) := by
  intro pooled unpooled
  have hh : idle.Unpooled idle :=
    ⟨fun _ _ _ => .done _, fun _ _ => .done _, fun _ _ _ => .done _, fun _ _ _ => .done _⟩
  have hr : ∀ k, (recycling k).Unpooled (recycling k) := by
    intro k
    refine .operate _ nofun ?_
    rintro i _ rfl
    refine .operate _ nofun fun _ _ _ => .operate _ nofun fun _ _ _ => .send _ fun found => ?_
    refine .operate _ nofun fun _ _ _ => .operate _ nofun ?_
    rintro j _ rfl
    exact .send _ fun missing => .done _
  have hs : pooled.Unpooled unpooled := by
    refine .operate _ nofun fun p _ _ => .operate _ nofun ?_
    rintro k _ rfl
    exact .usePool k p (hr k)
  have same := (pooling_is_transparent hh hs () 2).1
  refine ⟨by decide +kernel, ?_⟩
  generalize idle.run 2 pooled _ = x at same
  generalize idle.run 2 unpooled _ = y at same
  cases same with
  | ended => rfl
  | halted e => rfl

end Host
end ObjectModel
