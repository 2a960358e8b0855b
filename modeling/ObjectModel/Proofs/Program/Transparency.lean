import ObjectModel.Proofs.Program.Pairing

/-!
# Caches are transparent

Which classes remember their lookups makes no difference to a program that does
not ask about remembering. Two runs that differ in this only go through worlds
that differ in caches only, and answer alike at every step.
-/
namespace ObjectModel
variable {Code σ α : Type}

/-- Answers to a question that are the same but for what they tell about
remembering. -/
def Query.Agree : (q : Query) → q.Answer Code → q.Answer Code → Prop
  | .cacheCounters _, _, _ => True
  | .classDebug _, _, _ => True
  | .flags _, a, b => { a with uncached := false } = { b with uncached := false }
  | _, a, b => a = b

/-- Answers of an operation that are the same but for what they tell about
remembering. -/
def Operation.Agree : (op : Operation Code σ) → op.Answer → op.Answer → Prop
  | .query q, a, b => q.Agree a b
  | _, a, b => a = b

/-- Answers that are the same behind the veil before remembering agree. -/
theorem Operation.agree_of_sameBehind {op : Operation Code σ} {a b : op.Answer}
    (h : op.SameBehind .caching a b) : op.Agree a b := by
  cases op with
  | query q =>
    cases q with
    | cacheCounters on => trivial
    | classDebug k => trivial
    | depth => exact h rfl
    | pool k => exact h rfl
    | poolSummary p => exact h.2 rfl
    | instanceDebug i order => exact h.2 rfl
    | _ => exact h
  | retire i => exact h rfl
  | release p s => exact h rfl
  | clearPool p => exact h rfl
  | _ => exact h

/-- Two programs that are the same but for the configurations of the classes they
make. What they do next may not depend on what an answer tells about
remembering. -/
inductive Script.Alike : Script Code σ α → Script Code σ α → Prop
  | done (a : α) : Alike (done a) (done a)
  | newClass (name : String) (c c' : Configuration) {next next' : ClassId → Script Code σ α}
      (h : ∀ k, Alike (next k) (next' k)) :
      Alike (operate (.newClass name c) next) (operate (.newClass name c') next')
  | operate (op : Operation Code σ) {next next' : op.Answer → Script Code σ α}
      (h : ∀ a b, op.Agree a b → Alike (next a) (next' b)) :
      Alike (operate op next) (operate op next')
  | send (m : Message Code) {next next' : Outcome Code → Script Code σ α}
      (h : ∀ outcome, Alike (next outcome) (next' outcome)) :
      Alike (send m next) (send m next')

/-- Two hosts whose bodies, hooks and handlers are alike. -/
structure Host.Alike (host host' : Host Code σ) : Prop where
  body : ∀ code on args, (host.body code on args).Alike (host'.body code on args)
  before : ∀ code args, (host.before code args).Alike (host'.before code args)
  after : ∀ code result args, (host.after code result args).Alike (host'.after code result args)
  missing : ∀ code name args, (host.missing code name args).Alike (host'.missing code name args)

/-- Sound worlds that differ in what is remembered only. -/
structure World.Twin (w v : World Code σ) : Prop where
  left : w.Sound
  right : v.Sound
  same : v.bare = w.bare

namespace World
variable {w v : World Code σ}

/-- Classes that are made with different configurations differ in the mark of those
that do not remember. -/
theorem newClass_alike (w : World Code σ) (name : String) (c c' : Configuration) :
    SameBehind .caching (w.newClass name c).2 (w.newClass name c').2 := by
  simp only [SameBehind, newClass, behind_addClass]
  rfl

namespace Twin

theorem looks (h : w.Twin v) : SameBehind .caching w v := by
  rw [SameBehind, ← bare_eq_behind, ← bare_eq_behind, h.same]

theorem next (h : w.Twin v) (s s' : Step Code σ)
    (looks : SameBehind .caching (s.next w) (s'.next v)) : (s.next w).Twin (s'.next v) where
  left := h.left.next s
  right := h.right.next s'
  same := by rw [bare_eq_behind, bare_eq_behind, looks]

theorem recalled {w' v' : World Code σ} (h : w.Twin v) (hw : Recalled w w') (hv : Recalled v v') :
    w'.Twin v' :=
  ⟨hw.sound h.left, hv.sound h.right, hv.same.trans (h.same.trans hw.same.symm)⟩

theorem apply (h : w.Twin v) (op : Operation Code σ) : (op.apply w).2.Twin (op.apply v).2 :=
  h.next (.perform op) (.perform op) (h.looks.apply op)

theorem newClass (h : w.Twin v) (name : String) (c c' : Configuration) :
    (w.newClass name c).2.Twin (v.newClass name c').2 := by
  refine h.next (.perform (.newClass name c)) (.perform (.newClass name c')) ?_
  exact Eq.trans (newClass_alike v name c c') (h.looks.apply (.newClass name c))

theorem answer (h : w.Twin v) (op : Operation Code σ) : op.Agree (op.apply w).1 (op.apply v).1 :=
  Operation.agree_of_sameBehind (sameBehind_apply h.looks (fun _ => ⟨h.left, h.right⟩) op)

theorem lookUp (h : w.Twin v) (on : Receiver) (name : String) :
    (w.lookUp on name).1 = (v.lookUp on name).1 :=
  lookUp_fst_same h.looks (fun _ => ⟨h.left, h.right⟩) on name

theorem lookUpSuper (h : w.Twin v) (on : Receiver) (name : String) :
    (w.lookUpSuper on name).1 = (v.lookUpSuper on name).1 := by
  rw [h.left.lookUpSuper_fst, h.right.lookUpSuper_fst, bare_superDefinition? h.same]

/-- Runs go side by side in twin worlds. -/
theorem coupling : Run.Coupling (Twin : World Code σ → World Code σ → Prop) where
  vars h := h.looks.vars
  target h := target_same h.looks
  handler h := h.looks.handler
  receiverName h := h.looks.receiverName
  found h := h.lookUp
  lookUp h on name := h.recalled (recalled_lookUp _ on name) (recalled_lookUp _ on name)
  foundAbove h := h.lookUpSuper
  lookUpSuper h on name :=
    h.recalled (recalled_lookUpSuper _ on name) (recalled_lookUpSuper _ on name)
  boxed h reply := h.answer (.box reply)
  box h reply := h.apply (.box reply)
  assign h i name x := h.next (.assign i name x) (.assign i name x) (h.looks.assign i name x)
  body h m on args := h.next (.record _) (.record _) (h.looks.body m on args)
  event h e := h.next (.record e) (.record e) ((independent_record e).congr h.looks)
  push h f := h.next (.push f) (.push f) (h.looks.push f)
  pop _ h _ _ _ := h.next .pop .pop h.looks.pop

end Twin
end World

namespace Run

open World (Twin)

theorem paired_alike {p p' : Performer Code σ}
    (hp : ∀ m w v, Twin w v → Paired Twin Eq (p m w) (p' m v)) {s s' : Script Code σ α}
    (hs : s.Alike s') {w v : World Code σ} (h : w.Twin v) :
    Paired Twin Eq (s.run p w) (s'.run p' v) := by
  induction hs generalizing w v with
  | done a => exact .ended rfl h
  | @newClass name c c' next next' _ ih =>
    refine paired_modifyGet ?_
    -- The next number is the same in both worlds.
    have number : (w.newClass name c).1 = (v.newClass name c').1 := h.answer (.newClass name c)
    change Paired Twin Eq ((next (w.newClass name c).1).run p _) ((next' (v.newClass name c').1).run p' _)
    rw [← number]
    exact ih _ (h.newClass name c c')
  | operate op _ ih => exact paired_modifyGet (ih _ _ (h.answer op) (h.apply op))
  | send m _ ih =>
    refine (hp m w v h).bind ?_
    rintro outcome _ w' v' _ _ rfl h'
    exact ih outcome h'

end Run

namespace Host
variable {host host' : Host Code σ}

open World (Twin)

theorem paired_performer_alike (hh : host.Alike host') (fuel : Nat) (m : Message Code)
    (w v : World Code σ) (h : w.Twin v) :
    Run.Paired Twin Eq (host.performer fuel m w) (host'.performer fuel m v) := by
  induction fuel generalizing m w v with
  | zero => exact .halted _
  | succ fuel ih =>
    refine Run.pair_deliver Twin.coupling (Run.balanced_performer host fuel)
      (Run.balanced_performer host' fuel) ?_ ?_ ?_ ?_ ?_ h m
    · exact fun code on args _ _ => Run.paired_alike ih (hh.body code on args)
    · exact fun h on => World.same_of_behind (f := (·.hookLevels on))
        (fun u => u.hookLevels_behind rfl on) h.looks
    · exact fun code args _ _ => Run.paired_alike ih (hh.before code args)
    · exact fun code x args _ _ => Run.paired_alike ih (hh.after code x args)
    · exact fun code name args _ _ => Run.paired_alike ih (hh.missing code name args)

/-- Two ends of a run that cannot be told apart but by what is remembered: the
answers are the same, the same code has run in the same order, and stamps,
variables and all that lookups find, with the levels, are the same. -/
inductive SameEnd : Except Halt (α × World Code σ) → Except Halt (α × World Code σ) → Prop
  | ended {a : α} {w v : World Code σ} (worlds : v.bare = w.bare) (trace : v.trace = w.trace)
      (stamps : ∀ x, v.stampOf x = w.stampOf x)
      (vars : ∀ ref, v.variablesOf ref = w.variablesOf ref)
      (found : ∀ on name, (v.lookUp on name).1 = (w.lookUp on name).1)
      (above : ∀ on name, (v.lookUpSuper on name).1 = (w.lookUpSuper on name).1) :
      SameEnd (.ok (a, w)) (.ok (a, v))
  | halted (e : Halt) : SameEnd (.error e) (.error e)

/-- Whichever classes a program makes with a cache and whichever without, its
runs come to the same end. The answer may hold all that a program was told on
its way. -/
theorem caches_are_transparent (hh : host.Alike host') {s s' : Script Code σ α} (hs : s.Alike s')
    (h : σ) (fuel : Nat) :
    SameEnd (host.run fuel s (.initial h)) (host'.run fuel s' (.initial h)) := by
  have start : World.Twin (World.initial h : World Code σ) (.initial h) :=
    ⟨World.sound_initial h, World.sound_initial h, rfl⟩
  have finish := Run.paired_alike (paired_performer_alike hh fuel) hs start
  change SameEnd (s.run (host.performer fuel) _) (s'.run (host'.performer fuel) _)
  generalize s.run (host.performer fuel) _ = x at finish
  generalize s'.run (host'.performer fuel) _ = y at finish
  cases finish with
  | @ended a b w v answers worlds =>
    subst answers
    refine .ended worlds.same (congrArg (·.trace) worlds.same) (World.bare_stampOf worlds.same)
      (fun ref => ?_) (fun on name => ?_) fun on name => ?_
    · exact (worlds.answer (.query (.variablesOf ref))).symm
    · exact (worlds.lookUp on name).symm
    · exact (worlds.lookUpSuper on name).symm
  | halted e => exact .halted e

/-- A call that fails, a definition, and the call again, now found. -/
def redefinitionProgram (c : Configuration) : Script Unit Unit (Outcome Unit × Outcome Unit) :=
  .operate (.newClass "A" c) fun k =>
    .operate (.instantiate k) fun i =>
      .send (.call (.ofInstance i) "f" []) fun missing =>
        .operate (.defineMethod (.ofClass k) "f" (.ofSignature .nullary ())) fun _ =>
          .send (.call (.ofInstance i) "f" []) fun found => .done (missing, found)

/-- A host whose codes do nothing. -/
def idle : Host Unit Unit where
  body _ _ _ := .done (.ok .unit)
  before _ _ := .done ()
  after _ _ _ := .done ()
  missing _ _ _ := .done (.ok .nil)

/-- The finding that a method is missing is forgotten in time. -/
theorem caches_are_transparent_to_redefinition :
    (idle.run 2 (redefinitionProgram { resolutionCache := true }) (.initial ())).map (·.1) =
        .ok (.error (.undefinedMethod "f" "A"), .ok .nil) ∧
      (idle.run 2 (redefinitionProgram { resolutionCache := true }) (.initial ())).map (·.1) =
        (idle.run 2 (redefinitionProgram { resolutionCache := false }) (.initial ())).map (·.1) := by
  have hh : idle.Alike idle :=
    ⟨fun _ _ _ => .done _, fun _ _ => .done _, fun _ _ _ => .done _, fun _ _ _ => .done _⟩
  have hs (c c' : Configuration) : (redefinitionProgram c).Alike (redefinitionProgram c') := by
    refine .newClass "A" c c' fun k => .operate _ ?_
    rintro i _ rfl
    refine .send _ fun missing => .operate _ ?_
    rintro _ _ rfl
    exact .send _ fun found => .done _
  have twins := caches_are_transparent hh (hs { resolutionCache := true } { resolutionCache := false })
    () 2
  refine ⟨by decide +kernel, ?_⟩
  generalize idle.run 2 (redefinitionProgram { resolutionCache := true }) _ = x at twins
  generalize idle.run 2 (redefinitionProgram { resolutionCache := false }) _ = y at twins
  cases twins with
  | ended => rfl
  | halted e => rfl

end Host
end ObjectModel
