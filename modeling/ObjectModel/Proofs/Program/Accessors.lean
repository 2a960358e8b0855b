import ObjectModel.Proofs.Program.Observation
import ObjectModel.Proofs.Program.Refusal
import ObjectModel.Proofs.World.Giving

/-!
# Attribute accessors

A class that defines accessors has a reader and a writer for each variable. As long as an
instance finds them, variables are registers: a reader answers what its variable was given
last, through the writer or directly, and no call changes any other variable. This holds for
every interleaving of reading and writing on any instances.
-/
namespace ObjectModel
variable {Code σ : Type}

/-- The names that accessors of variables are defined under. -/
def accessorNames (names : List String) : List String := names ++ names.map (· ++ "=")

namespace World
variable {w v u : World Code σ} {k : ClassId} {names : List String} {i : InstanceId} {name : String}

/-- A class has the accessors of variables under their names. -/
structure HasAccessors (w : World Code σ) (k : ClassId) (names : List String) : Prop where
  reader : ∀ x ∈ names, (w.methodsIn (.ofClass .instanceSide k)).find? x =
    some ((Method.reader x).named x .instanceSide)
  writer : ∀ x ∈ names, (w.methodsIn (.ofClass .instanceSide k)).find? (x ++ "=") =
    some ((Method.writer x).named (x ++ "=") .instanceSide)

theorem has_defineMethod (on x : Receiver) (name : String) (m : Method Code) :
    (w.defineMethod on name m).Has x ↔ w.Has x :=
  (sameOutlines_defineMethod w on name m).has x

section
variable {f : String → String} {m : String → Method Code}

/-- Methods defined one after another leave the methods of other names alone. -/
theorem find?_foldl_of_ne (hk : w.Has (.ofClass k)) (hn : ∀ a ∈ names, f a ≠ name) :
    ((names.foldl (fun w a => w.defineMethod (.ofClass k) (f a) (m a)) w).classAt k).methods.find?
      name = (w.classAt k).methods.find? name := by
  induction names generalizing w with
  | nil => rfl
  | cons a names ih =>
    have rest := ih ((has_defineMethod (.ofClass k) _ (f a) (m a)).mpr hk)
      fun b hb => hn b (List.mem_cons_of_mem a hb)
    have first := (installs_defineMethod hk (f a) (m a)).others name
      (hn a List.mem_cons_self).symm
    exact rest.trans first

/-- Methods defined one after another are all there if their names differ. -/
theorem find?_foldl_of_mem (hf : Function.Injective f) (hk : w.Has (.ofClass k)) {a : String}
    (ha : a ∈ names) :
    ((names.foldl (fun w a => w.defineMethod (.ofClass k) (f a) (m a)) w).classAt k).methods.find?
      (f a) = some ((m a).named (f a) .instanceSide) := by
  induction names generalizing w with
  | nil => contradiction
  | cons b names ih =>
    have hk' := (has_defineMethod (.ofClass k) (.ofClass k) (f b) (m b)).mpr hk
    by_cases later : a ∈ names
    · exact ih hk' later
    · obtain rfl := (List.mem_cons.mp ha).resolve_right later
      refine (find?_foldl_of_ne hk' fun c hc same => later ?_).trans
        (installs_defineMethod hk (f a) (m a)).installed
      exact hf same ▸ hc

end

theorem has_defineReaders (w : World Code σ) (k : ClassId) (names : List String) (x : Receiver) :
    (w.defineReaders k names).Has x ↔ w.Has x :=
  (Operation.sameOutlines_of_definitions?
    (rfl : (Operation.defineReaders k names : Operation Code σ).definitions? = _)).has x

/-- The definition of accessors puts all of them in place, unless one takes the name of
another. -/
theorem hasAccessors_defineAccessors (hk : w.Has (.ofClass k))
    (distinct : ∀ a ∈ names, ∀ b ∈ names, a ≠ b ++ "=") :
    (w.defineAccessors k names).HasAccessors k names where
  reader x hx := by
    have kept : ∀ b ∈ names, b ++ "=" ≠ x := fun b hb same => distinct x hx b hb same.symm
    refine (find?_foldl_of_ne ((has_defineReaders w k names _).mpr hk) kept).trans ?_
    exact find?_foldl_of_mem Function.injective_id hk hx
  writer x hx :=
    find?_foldl_of_mem (f := (· ++ "=")) (fun a b => String.append_left_inj "=" |>.mp)
      ((has_defineReaders w k names _).mpr hk) hx

theorem Steady.hasAccessors (h : Steady w v) (hw : w.HasAccessors k names) :
    v.HasAccessors k names :=
  ⟨fun x hx => h.methods _ ▸ hw.reader x hx, fun x hx => h.methods _ ▸ hw.writer x hx⟩

/-- An instance comes to a class for a name: no alias and no method is in the way. -/
structure ComesTo (w : World Code σ) (i : InstanceId) (k : ClassId) (name : String) : Prop where
  has : w.Has (.ofInstance i)
  plain : w.target (.ofInstance i) name = name
  exposed : w.Exposes (.ofInstance i) (.ofClass .instanceSide k) name

theorem Steady.comesTo (h : Steady w v) (hw : w.Sound) (hi : w.ComesTo i k name) :
    v.ComesTo i k name where
  has := (h.has _).mpr hi.has
  plain := by
    rw [target_eq_meaning, h.meaning hw, ← target_eq_meaning, hi.plain]
  exposed := by
    have defined : v.definedIn name = w.definedIn name := by
      funext p
      rw [definedIn, h.methods, definedIn]
    rw [Exposes, h.order hw, defined]
    exact hi.exposed

/-- What the class has under the name is what the instance finds. -/
theorem ComesTo.nearest? (hi : w.ComesTo i k name) (hw : w.Sound) {m : Method Code}
    (hm : (w.methodsIn (.ofClass .instanceSide k)).find? name = some m) :
    w.nearest? (.ofInstance i) name = some ⟨m, .ofClass k⟩ := by
  have here : w.definedIn name (.ofClass .instanceSide k) = some ⟨m, .ofClass k⟩ := by
    rw [definedIn, hm]
    rfl
  rw [hw.nearest?_eq, findSome?_of_changed (a := .ofClass .instanceSide k)
    (hw.rooted.nodup_order _) fun _ _ => rfl]
  refine (if_pos hi.exposed).trans ?_
  rw [here]
  rfl

end World

namespace Run

open World (Steady Gives)

variable {host : Host Code σ} {performer : Performer Code σ} {w v u : World Code σ}
  {i : InstanceId} {name x : String} {args : List (Value Code)} {level : Level}

/-- What is found is invoked within its frame, in a world that has only looked it up. -/
theorem dispatch_gives {g : Gifts Code} {on : Receiver} {d : Definition Code}
    {outcome : Outcome Code} (hw : w.Sound) (found : w.nearest? on name = some d)
    (ran : ∀ v, Gives .nothing w v →
      ∃ u, invoke host performer d.method on args v = .ok (outcome, u) ∧ Gives g v u) :
    ∃ u, dispatch host performer on name args w = .ok (outcome, u) ∧ Gives g w u := by
  have looked : w.lookUp on name = (some d, (w.lookUp on name).2) :=
    Prod.ext ((hw.lookUp_fst on name).trans found) rfl
  have start : Gives .nothing w ((w.lookUp on name).2.pushFrame ⟨on, d.method.name, d.level⟩) :=
    (World.recalled_lookUp w on name).gives.then_nothing (World.gives_pushFrame _ _)
  obtain ⟨u, invoked, gives⟩ := ran _ start
  refine ⟨u.popFrame, ?_, start.after_nothing (gives.then_nothing (World.gives_popFrame u))⟩
  rw [dispatch_of_found host performer looked]
  exact invokeFound_of_eq_ok host performer invoked

/-- A reader answers the variable, nil when it is unset, and changes nothing. -/
theorem dispatch_reader (hw : w.Sound) (found : w.nearest? (.ofInstance i) name =
      some ⟨(Method.reader x).named name .instanceSide, level⟩) :
    ∃ u, dispatch host performer (.ofInstance i) name [] w =
      .ok (.ok (((w.variablesOf (.instanceVars i)).find? x).getD .nil), u) ∧
        Gives .nothing w u := by
  refine dispatch_gives hw found fun v same => ?_
  have vars : (w.variablesOf (.instanceVars i)).find? x = (v.variablesOf (.instanceVars i)).find? x :=
    (same.vars i x).symm
  rw [vars]
  exact ⟨_, rfl, World.gives_record v _⟩

/-- A writer answers its argument, and gives it to the variable. -/
theorem dispatch_writer (hw : w.Sound) (hi : w.Has (.ofInstance i))
    (found : w.nearest? (.ofInstance i) name =
      some ⟨(Method.writer x).named name .instanceSide, level⟩) (value : Value Code) :
    ∃ u, dispatch host performer (.ofInstance i) name [value] w = .ok (.ok value, u) ∧
      Gives (.single i x (some value)) w u := by
  refine dispatch_gives hw found fun v same => ?_
  let started := v.record
    (.body ((Method.writer x).named name .instanceSide) (.ofInstance i) [value] v.frames)
  have set : Gives (.single i x (some value)) started
      (started.modifyState i fun s => { s with vars := s.vars.insert x value }) :=
    World.gives_modifyState (f := fun s => s.insert x value) ((same.has _).mpr hi)
      fun y => Table.find?_insert _ x y value
  exact ⟨_, rfl, (World.gives_record v _).after_nothing set⟩

/-- Wherever calls find the same as in the given world, a run ends and gives variables
nothing. -/
def Spares (w : World Code σ) (r : Run Code σ Unit) : Prop :=
  ∀ v, v.Sound → Steady w v → ∃ u, r v = .ok ((), u) ∧ Gives .nothing v u

/-- The hooks around calls of a name leave variables alone. A hook that sets a variable would
give it a value, as a program does between two calls. -/
structure SparingHooks (host : Host Code σ) (performer : Performer Code σ) (w : World Code σ)
    (i : InstanceId) (name : String) : Prop where
  before : ∀ code ∈ w.befores (.ofInstance i) name, ∀ args,
    Spares w (runBefore host performer code args)
  after : ∀ code ∈ w.afters (.ofInstance i) name, ∀ result args,
    Spares w (runAfter host performer code result args)

/-- Looking around and taking notes leaves variables alone. -/
theorem gives_of_observes {lines : String → Bool} {s : Script Code σ Unit} (hs : s.Observes lines)
    (performer : Performer Code σ) (w : World Code σ) :
    ∃ v, s.run performer w = .ok ((), v) ∧ Gives .nothing w v := by
  induction hs generalizing w with
  | done => exact ⟨w, rfl, .refl w⟩
  | ask q _ ih => exact ih _ w
  | note line _ _ ih =>
    obtain ⟨v, ran, gives⟩ := ih (w.note line)
    exact ⟨v, ran, (World.gives_note w line).after_nothing gives⟩

theorem sparingHooks_of_observes {lines : String → Bool} (hh : host.Observes lines)
    (w : World Code σ) (i : InstanceId) (name : String) :
    SparingHooks host performer w i name where
  before code _ args v _ _ := by
    obtain ⟨u, ran, gives⟩ :=
      gives_of_observes (hh.before code args) performer (v.record (.before code args))
    exact ⟨u, ran, (World.gives_record v _).after_nothing gives⟩
  after code _ result args v _ _ := by
    obtain ⟨u, ran, gives⟩ :=
      gives_of_observes (hh.after code result args) performer (v.record (.after code result args))
    exact ⟨u, ran, (World.gives_record v _).after_nothing gives⟩

theorem forM_spares {run : Code → Run Code σ Unit} {codes : List Code}
    (stepwise : ∀ code, (run code).Stepwise) (h : ∀ code ∈ codes, Spares w (run code))
    (hv : v.Sound) (steady : Steady w v) :
    ∃ u, codes.forM run v = .ok ((), u) ∧ u.Sound ∧ Gives .nothing v u := by
  induction codes generalizing v with
  | nil => exact ⟨v, rfl, hv, .refl v⟩
  | cons code codes ih =>
    obtain ⟨t, first, gives⟩ := h code List.mem_cons_self v hv steady
    obtain ⟨steps, rfl⟩ := stepwise code v () t first
    obtain ⟨u, rest, hu, more⟩ := ih (fun c hc => h c (List.mem_cons_of_mem code hc))
      (hv.after steps) (steady.trans gives.toSteady)
    exact ⟨u, (bind_of_eq_ok first).trans rest, hu, gives.after_nothing more⟩

/-- With such hooks a call does what it dispatches. -/
theorem call_gives {g : Gifts Code} {r : Value Code} (hp : ∀ m, (performer m).Stepwise)
    (hw : w.Sound) (hv : v.Sound) (steady : Steady w v)
    (hooks : SparingHooks host performer w i name)
    (plain : w.target (.ofInstance i) name = name)
    (ran : ∀ t, t.Sound → Gives .nothing v t →
      ∃ u, dispatch host performer (.ofInstance i) name args t = .ok (.ok r, u) ∧ u.Sound ∧
        Gives g t u) :
    ∃ u, call host performer (.ofInstance i) name args v = .ok (.ok r, u) ∧ Gives g v u := by
  have spareBefore : ∀ code ∈ v.befores (.ofInstance i) name,
      Spares w (runBefore host performer code args) := by
    rw [World.befores, steady.flatMap_holders hw _ (·.beforeOf name)]
    exact fun code hc => hooks.before code hc args
  obtain ⟨t, before, ht, start⟩ :=
    forM_spares (fun _ => stepwise_recorded hp _ _) spareBefore hv steady
  obtain ⟨u, answer, hu, gives⟩ := ran t ht start
  have there : Steady w u := (steady.trans start.toSteady).trans gives.toSteady
  have spareAfter : ∀ code ∈ u.afters (.ofInstance i) name,
      Spares w (runAfter host performer code r args) := by
    rw [World.afters, there.flatMap_holders hw _ (·.afterOf name)]
    exact fun code hc => hooks.after code hc r args
  obtain ⟨last, after, -, finish⟩ :=
    forM_spares (fun _ => stepwise_recorded hp _ _) spareAfter hu there
  refine ⟨last, ?_, start.after_nothing (gives.then_nothing finish)⟩
  rw [call_eq, steady.meaning hw, ← World.target_eq_meaning, plain]
  refine (bind_of_eq_ok before).trans ((bind_of_eq_ok answer).trans ?_)
  exact finish_ok_eq_ok_iff.mpr ⟨rfl, forM_eq_ok_iff.mp after⟩

end Run

/-- One access to a variable of an instance. Accessors are called with hooks or without. -/
inductive Access (Code : Type) where
  | read (i : InstanceId) (x : String) (hooked : Bool)
  | write (i : InstanceId) (x : String) (value : Value Code) (hooked : Bool)
  | set (i : InstanceId) (x : String) (value : Value Code)
  | remove (i : InstanceId) (x : String)

/-- A call of an instance, with hooks or without. -/
def Message.calling (hooked : Bool) (i : InstanceId) (name : String) (args : List (Value Code)) :
    Message Code :=
  if hooked then .call (.ofInstance i) name args else .callBare i name args

namespace Access
variable {host : Host Code σ} {w v : World Code σ} {k : ClassId} {names : List String} {fuel : Nat}

/-- An access, and what follows the answer to its call. -/
def followedBy {α : Type} (a : Access Code) (next : Option (Outcome Code) → Script Code σ α) :
    Script Code σ α :=
  match a with
  | read i x hooked => .send (.calling hooked i x []) fun outcome => next (some outcome)
  | write i x value hooked =>
    .send (.calling hooked i (x ++ "=") [value]) fun outcome => next (some outcome)
  | set i x value => .operate (.store (.instanceVars i) (.set x value)) fun _ => next none
  | remove i x => .operate (.store (.instanceVars i) (.remove x)) fun _ => next none

/-- Makes accesses one after another, and tells the answers to their calls. -/
def program (told : List (Option (Outcome Code))) :
    List (Access Code) → Script Code σ (List (Option (Outcome Code)))
  | [] => .done told
  | a :: rest => a.followedBy fun answer => program (told ++ [answer]) rest

/-- What an access gives to variables. -/
def gifts : Access Code → Gifts Code
  | read _ _ _ => .nothing
  | write i x value _ | set i x value => .single i x (some value)
  | remove i x => .single i x none

/-- What several accesses give to variables: the last gift counts. -/
def allGifts (acts : List (Access Code)) : Gifts Code :=
  fun i x => acts.reverse.findSome? fun a => a.gifts i x

/-- What a variable was given last, starting from what it has in a world. -/
def lastGiven (w : World Code σ) (past : List (Access Code)) (i : InstanceId) (x : String) :
    Option (Value Code) :=
  (allGifts past i x).getD ((w.variablesOf (.instanceVars i)).find? x)

/-- The answer to the call of an access, for what variables have been given: a reader
answers that, a writer its argument. -/
def answer (given : InstanceId → String → Option (Value Code)) :
    Access Code → Option (Outcome Code)
  | read i x _ => some (.ok ((given i x).getD .nil))
  | write _ _ value _ => some (.ok value)
  | set _ _ _ | remove _ _ => none

/-- The answers to accesses, after those of the past. -/
def answers (w : World Code σ) (past : List (Access Code)) :
    List (Access Code) → List (Option (Outcome Code))
  | [] => []
  | a :: rest => a.answer (lastGiven w past) :: answers w (past ++ [a]) rest

/-- An accessor is called for a variable that has one, on an instance that comes to it, and
around hooks that leave variables alone. Variables are set and removed on any instance. -/
def Fits (host : Host Code σ) (fuel : Nat) (w : World Code σ) (k : ClassId)
    (names : List String) : Access Code → Prop
  | read i x hooked => x ∈ names ∧ w.ComesTo i k x ∧
    (hooked = true → Run.SparingHooks host (host.performer fuel) w i x)
  | write i x _ hooked => x ∈ names ∧ w.ComesTo i k (x ++ "=") ∧
    (hooked = true → Run.SparingHooks host (host.performer fuel) w i (x ++ "="))
  | set i _ _ | remove i _ => w.Has (.ofInstance i)

theorem allGifts_concat (past : List (Access Code)) (a : Access Code) :
    allGifts (past ++ [a]) = fun i x => (a.gifts i x).or (allGifts past i x) := by
  funext i x
  rw [allGifts, List.reverse_append, List.reverse_singleton, List.singleton_append,
    List.findSome?_cons]
  cases a.gifts i x <;> rfl

/-- A call of an accessor does what it dispatches, with hooks and without. -/
theorem calling_gives {g : Gifts Code} {r : Value Code} {hooked : Bool} {i : InstanceId}
    {name : String} {args : List (Value Code)} (hw : w.Sound) (hv : v.Sound)
    (steady : World.Steady w v) (comes : w.ComesTo i k name)
    (hooks : hooked = true → Run.SparingHooks host (host.performer fuel) w i name)
    (ran : ∀ t, t.Sound → World.Gives .nothing v t →
      ∃ u, Run.dispatch host (host.performer fuel) (.ofInstance i) name args t = .ok (.ok r, u) ∧
        World.Gives g t u) :
    ∃ u, host.performer (fuel + 1) (.calling hooked i name args) v = .ok (.ok r, u) ∧ u.Sound ∧
      World.Gives g v u := by
  have hp := host.stepwise_performer fuel
  suffices called : ∃ u, host.performer (fuel + 1) (.calling hooked i name args) v =
      .ok (.ok r, u) ∧ World.Gives g v u by
    obtain ⟨u, performed, gives⟩ := called
    obtain ⟨steps, rfl⟩ := host.stepwise_performer (fuel + 1) _ v _ u performed
    exact ⟨_, performed, hv.after steps, gives⟩
  cases hooked with
  | true =>
    refine Run.call_gives hp hw hv steady (hooks rfl) comes.plain fun t ht start => ?_
    obtain ⟨u, answer, gives⟩ := ran t ht start
    obtain ⟨steps, rfl⟩ := Run.keeps_dispatch Run.kept_steps hp _ _ _ t _ u answer
    exact ⟨_, answer, ht.after steps, gives⟩
  | false =>
    have plain : v.target (.ofInstance i) name = name := (steady.comesTo hw comes).plain
    obtain ⟨u, answer, gives⟩ := ran v hv (.refl v)
    refine ⟨u, ?_, gives⟩
    change Run.dispatch host (host.performer fuel) (.ofInstance i) (v.target (.ofInstance i) name)
      args v = _
    rw [plain, answer]

/-- One access, in a world where calls find the same as in the first one. -/
theorem step_gives {α : Type} (hw : w.Sound) (hv : v.Sound) (steady : World.Steady w v)
    (accessors : w.HasAccessors k names) {a : Access Code} (fits : a.Fits host fuel w k names)
    (next : Option (Outcome Code) → Script Code σ α) :
    ∃ u, host.run (fuel + 1) (a.followedBy next) v =
        host.run (fuel + 1)
          (next (a.answer fun i x => (v.variablesOf (.instanceVars i)).find? x)) u ∧
      u.Sound ∧ World.Gives a.gifts v u := by
  cases a with
  | read i x hooked =>
    obtain ⟨hx, comes, hooks⟩ := fits
    have ran : ∀ t, t.Sound → World.Gives .nothing v t →
        ∃ u, Run.dispatch host (host.performer fuel) (.ofInstance i) x [] t =
          .ok (.ok (((v.variablesOf (.instanceVars i)).find? x).getD .nil), u) ∧
            World.Gives .nothing t u := by
      intro t ht start
      have there := steady.trans start.toSteady
      have same : (t.variablesOf (.instanceVars i)).find? x =
          (v.variablesOf (.instanceVars i)).find? x := start.vars i x
      rw [← same]
      exact Run.dispatch_reader ht
        ((there.comesTo hw comes).nearest? ht ((there.hasAccessors accessors).reader x hx))
    obtain ⟨u, performed, hu, gives⟩ := calling_gives hw hv steady comes hooks ran
    exact ⟨u, Run.bind_of_eq_ok performed, hu, gives⟩
  | write i x value hooked =>
    obtain ⟨hx, comes, hooks⟩ := fits
    have ran : ∀ t, t.Sound → World.Gives .nothing v t →
        ∃ u, Run.dispatch host (host.performer fuel) (.ofInstance i) (x ++ "=") [value] t =
          .ok (.ok value, u) ∧ World.Gives (.single i x (some value)) t u := by
      intro t ht start
      have there := steady.trans start.toSteady
      have comes' := there.comesTo hw comes
      exact Run.dispatch_writer ht comes'.has
        (comes'.nearest? ht ((there.hasAccessors accessors).writer x hx)) value
    obtain ⟨u, performed, hu, gives⟩ := calling_gives hw hv steady comes hooks ran
    exact ⟨u, Run.bind_of_eq_ok performed, hu, gives⟩
  | set i x value =>
    have hi : v.Has (.ofInstance i) := (steady.has (.ofInstance i)).mpr fits
    exact ⟨_, rfl, hv.next (.perform (.store (.instanceVars i) (.set x value))),
      World.gives_set hi x value⟩
  | remove i x =>
    have hi : v.Has (.ofInstance i) := (steady.has (.ofInstance i)).mpr fits
    exact ⟨_, rfl, hv.next (.perform (.store (.instanceVars i) (.remove x))),
      World.gives_remove hi x⟩

/-- All accesses, after those of the past. -/
theorem program_gives (hw : w.Sound) (accessors : w.HasAccessors k names)
    {rest : List (Access Code)} (fits : ∀ a ∈ rest, a.Fits host fuel w k names)
    {past : List (Access Code)} (hv : v.Sound) (given : World.Gives (allGifts past) w v)
    (told : List (Option (Outcome Code))) :
    ∃ u, host.run (fuel + 1) (program told rest) v = .ok (told ++ answers w past rest, u) ∧
      World.Gives (allGifts (past ++ rest)) w u := by
  induction rest generalizing v past told with
  | nil =>
    refine ⟨v, ?_, by rwa [List.append_nil]⟩
    rw [answers, List.append_nil]
    rfl
  | cons a rest ih =>
    have vars : (fun i x => (v.variablesOf (.instanceVars i)).find? x) = lastGiven w past := by
      funext i x
      exact given.vars i x
    obtain ⟨u, first, hu, gives⟩ := step_gives hw hv given.toSteady accessors
      (fits a List.mem_cons_self) fun answer => program (told ++ [answer]) rest
    have both : World.Gives (allGifts (past ++ [a])) w u := by
      rw [allGifts_concat]
      exact given.trans gives
    obtain ⟨last, ran, all⟩ := ih (fun b hb => fits b (List.mem_cons_of_mem a hb)) hu both
      (told ++ [a.answer (lastGiven w past)])
    refine ⟨last, ?_, by rwa [List.append_assoc] at all⟩
    rw [vars] at first
    rw [program, first, ran, answers, List.append_assoc]
    rfl

/-- A class has defined accessors, none with the name of another, and still has them. Then
accesses to variables come to their ends, in any order and on any instances that find the
accessors: every reader answers what its variable was given last, nil if it was given nothing
or was removed, and every writer its argument. Afterwards every variable of every instance is
what it was given last, and class variables are what they were. -/
theorem accessors_are_registers (host : Host Code σ) (h : σ) (early late : List (Step Code σ))
    (k : ClassId) (names : List String) (fuel : Nat) (acts : List (Access Code)) :
    let before := (World.initial h).after early
    let made := before.defineAccessors k names
    let w := made.after late
    before.Has (.ofClass k) → (∀ a ∈ names, ∀ b ∈ names, a ≠ b ++ "=") →
    (∀ name ∈ accessorNames names, (w.methodsIn (.ofClass .instanceSide k)).find? name =
      (made.methodsIn (.ofClass .instanceSide k)).find? name) →
    (∀ a ∈ acts, a.Fits host fuel w k names) →
      ∃ u, host.run (fuel + 1) (program [] acts) w = .ok (answers w [] acts, u) ∧
        (∀ i x, (u.variablesOf (.instanceVars i)).find? x = lastGiven w acts i x) ∧
        ∀ on, u.variablesOf (.classVars on) = w.variablesOf (.classVars on) := by
  intro before made w hk distinct kept fits
  have hw : w.Sound := ((World.sound_after h early).next (.perform (.defineAccessors k names))).after late
  have defined := World.hasAccessors_defineAccessors hk distinct
  have accessors : w.HasAccessors k names := by
    refine ⟨fun x hx => ?_, fun x hx => ?_⟩
    · exact (kept x (List.mem_append_left _ hx)).trans (defined.reader x hx)
    · exact (kept _ (List.mem_append_right _ (List.mem_map_of_mem hx))).trans (defined.writer x hx)
  have start : World.Gives (allGifts []) w w := .refl w
  obtain ⟨u, ran, gives⟩ := program_gives hw accessors fits hw start []
  exact ⟨u, ran, gives.vars, gives.classVars⟩

/-- Accesses to two instances, one of them of a child, with a hook that takes notes. -/
theorem accessors_of_child_are_registers :
    let early : List (Step Unit Unit) :=
      [.perform (.newClass "K" {}), .perform (.newClass "L" {}), .perform (.inherit ⟨2⟩ ⟨1⟩)]
    let late : List (Step Unit Unit) :=
      [.perform (.instantiate ⟨1⟩), .perform (.instantiate ⟨2⟩),
        .perform (.addBefore (.ofClass ⟨1⟩) "a" ())]
    let made := ((World.initial ()).after early).defineAccessors ⟨1⟩ ["a", "b"]
    let w := made.after late
    let one : Value Unit := .object 0 (.int 1)
    let two : Value Unit := .object 1 (.int 2)
    let acts : List (Access Unit) :=
      [.write ⟨1⟩ "a" one true, .write ⟨2⟩ "a" two false, .read ⟨1⟩ "a" true, .read ⟨2⟩ "a" true,
        .set ⟨2⟩ "b" one, .remove ⟨1⟩ "a", .read ⟨1⟩ "a" false, .read ⟨2⟩ "b" false]
    ∃ u, Host.observer.run 2 (program [] acts) w =
        .ok ([some (.ok one), some (.ok two), some (.ok one), some (.ok two), none, none,
          some (.ok .nil), some (.ok one)], u) ∧
      (u.variablesOf (.instanceVars ⟨1⟩)).find? "a" = none ∧
      (u.variablesOf (.instanceVars ⟨2⟩)).find? "a" = some two := by
  intro early late made w one two acts
  have comes : ∀ i ∈ [(⟨1⟩ : InstanceId), ⟨2⟩], ∀ name ∈ accessorNames ["a", "b"],
      w.ComesTo i ⟨1⟩ name := by
    have has : ∀ i ∈ [(⟨1⟩ : InstanceId), ⟨2⟩], (w.instances.find? i.number).isSome = true := by
      decide +kernel
    have free : ∀ i ∈ [(⟨1⟩ : InstanceId), ⟨2⟩], ∀ name ∈ accessorNames ["a", "b"],
        w.target (.ofInstance i) name = name ∧
          w.Exposes (.ofInstance i) (.ofClass .instanceSide ⟨1⟩) name := by decide +kernel
    exact fun i hi name hn => ⟨has i hi, (free i hi name hn).1, (free i hi name hn).2⟩
  have observes : Host.observer.Observes fun _ => true :=
    ⟨fun _ _ => .note "before" rfl .done, fun _ _ _ => .note "after" rfl .done⟩
  have hooks : ∀ i name, Run.SparingHooks Host.observer (Host.observer.performer 1) w i name :=
    fun i name => Run.sparingHooks_of_observes observes w i name
  have fits : ∀ a ∈ acts, a.Fits Host.observer 1 w ⟨1⟩ ["a", "b"] := by
    simp only [acts, List.forall_mem_cons]
    refine ⟨⟨?_, comes _ ?_ _ ?_, fun _ => hooks _ _⟩, ⟨?_, comes _ ?_ _ ?_, fun _ => hooks _ _⟩,
      ⟨?_, comes _ ?_ _ ?_, fun _ => hooks _ _⟩, ⟨?_, comes _ ?_ _ ?_, fun _ => hooks _ _⟩,
      (comes ⟨2⟩ ?_ "b" ?_).has, (comes ⟨1⟩ ?_ "a" ?_).has,
      ⟨?_, comes _ ?_ _ ?_, fun _ => hooks _ _⟩, ⟨?_, comes _ ?_ _ ?_, fun _ => hooks _ _⟩,
      fun _ h => by contradiction⟩ <;> decide
  obtain ⟨u, ran, vars, -⟩ := accessors_are_registers Host.observer () early late ⟨1⟩ ["a", "b"] 1
    acts rfl (by decide) (by decide +kernel) fits
  refine ⟨u, ?_, (vars _ _).trans ?_, (vars _ _).trans ?_⟩
  · have told : answers w [] acts = [some (.ok one), some (.ok two), some (.ok one),
        some (.ok two), none, none, some (.ok .nil), some (.ok one)] := by decide +kernel
    rw [← told]
    exact ran
  · decide +kernel
  · decide +kernel

end Access
end ObjectModel
