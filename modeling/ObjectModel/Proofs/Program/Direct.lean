import ObjectModel.Proofs.Lineage.Stamps
import ObjectModel.Proofs.Lookup.Exposure
import ObjectModel.Proofs.Program.Heeding
import ObjectModel.Proofs.Program.SuperCall
import ObjectModel.Proofs.World.Outline

/-!
# Direct invocation

A method that was resolved before can be invoked without a lookup. Then there is no
frame for its body. As long as the code that runs leaves methods and parents alone this
makes no difference, not even to super calls: without the frame they start from the
nearest definition, and that is the one whose body is running.
-/
namespace ObjectModel
variable {Code σ α : Type}

/-- The veil before what is remembered and what is running. -/
def Veil.framing : Veil := { caches := true, frames := true }

namespace World
variable {w v u : World Code σ} {x : Receiver}

/-- No table of methods and no parent has changed. -/
structure Settled (w v : World Code σ) : Prop where
  methods : ∀ p, v.methodsIn p = w.methodsIn p
  parents : v.parentOf = w.parentOf

theorem Settled.refl (w : World Code σ) : Settled w w := ⟨fun _ => rfl, rfl⟩

/-- What is nearest to a receiver stays so, unless its class is another one. -/
theorem Settled.nearest? (h : Settled w v) (hw : w.Sound) (hv : v.Sound)
    (hx : v.classOf x = w.classOf x) (name : String) : v.nearest? x name = w.nearest? x name := by
  have lineage : v.lineage = w.lineage := lineage_of_parentOf hw.rooted h.parents
  have order : v.order (.ofReceiver x) = w.order (.ofReceiver x) := by
    cases x with
    | ofInstance i =>
      have hi : (v.instanceAt i).classId = (w.instanceAt i).classId := hx
      simp only [Seeker.ofReceiver, World.order, lineage, hi]
    | ofClass k => simp only [Seeker.ofReceiver, World.order, lineage]
  have defined : v.definedIn name = w.definedIn name := by
    funext p
    rw [definedIn, h.methods, definedIn]
  rw [hv.nearest?_eq, hw.nearest?_eq, order, defined]

theorem methodsIn_congr {p : Place}
    (hc : ∀ k, p.holder = .ofClass k → (v.classAt k).lookupPart = (w.classAt k).lookupPart)
    (hi : ∀ i, p.holder = .ofInstance i →
      (v.instanceAt i).lookupPart = (w.instanceAt i).lookupPart) : v.methodsIn p = w.methodsIn p := by
  cases p with
  | singleton i => exact congrArg (·.state.singletonMethods) (hi i rfl)
  | own i => exact congrArg (·.state.methods) (hi i rfl)
  | ofClass side k => exact (classAt_congr (hc k rfl)).2.1 side

theorem methodsIn_of_blank {p : Place} {i : InstanceId}
    (h : (w.stateAt i).lookupPart = ObjectState.new) (hp : p.holder = .ofInstance i) :
    w.methodsIn p = {} := by
  cases p with
  | singleton j =>
    obtain rfl := Receiver.ofInstance.inj hp
    exact congrArg (·.singletonMethods) h
  | own j =>
    obtain rfl := Receiver.ofInstance.inj hp
    exact congrArg (·.methods) h
  | ofClass side k => contradiction

theorem Recalled.settled (h : Recalled w v) : Settled w v := by
  refine ⟨fun p => ?_, bare_parentOf h.same⟩
  cases p with
  | singleton i => exact congrArg (·.state.singletonMethods) (bare_instanceAt h.same i)
  | own i => exact congrArg (·.state.methods) (bare_instanceAt h.same i)
  | ofClass side k =>
    rw [methodsIn, ← table_bare, bare_classAt h.same, table_bare]
    rfl

/-- Idle changes leave methods and parents alone, but for those of what was there and is
blank now. -/
theorem Settled.idle {spared : Option InstanceId} (h : Settled w v) (hi : Idle spared v u)
    (hs : ∀ i, spared = some i → ¬ w.Has (.ofInstance i)) : Settled w u := by
  suffices last : Settled v u from
    ⟨fun p => (last.methods p).trans (h.methods p), last.parents.trans h.parents⟩
  cases hi with
  | quiet hq =>
    refine ⟨fun p => methodsIn_congr (fun k _ => hq.classes k) fun i _ => hq.instances i, ?_⟩
    exact funext fun k => (classAt_congr (hq.classes k)).1
  | recalled hr => exact hr.settled
  | renewed i hi hn =>
    refine ⟨fun p => ?_, funext fun k => (classAt_congr (hn.classes k)).1⟩
    by_cases hp : p.holder = .ofInstance i
    · -- What is blank now was not there before, so it had no methods.
      have before : (w.stateAt i).lookupPart = ObjectState.new := by
        rw [stateAt, instanceAt_of_not_has (hs i hi)]
        rfl
      rw [methodsIn_of_blank hn.state hp, h.methods, methodsIn_of_blank before hp]
    · refine methodsIn_congr (fun k _ => hn.classes k) fun j hj => hn.instances j ?_
      rintro rfl
      exact hp hj

end World

/-- A step that defines, removes and retires nothing leaves methods and parents alone. -/
theorem Step.settled_next {w : World Code σ} {s : Step Code σ} (h : s.redefines? w = none)
    (hs : ∀ i, s.renews? w = some i → ¬ w.Has (.ofInstance i)) : World.Settled w (s.next w) := by
  have run := idle_next h
  generalize s.next w = u at run
  induction run with
  | refl => exact .refl w
  | tail _ hstep ih => exact ih.idle hstep hs

/-- An operation changes no table of methods and no parent, and asks neither how deeply
bodies are nested nor how often findings have served. -/
structure Operation.Discreet (w : World Code σ) (op : Operation Code σ) : Prop where
  settled : World.Settled w (op.apply w).2
  depth : op ≠ .query .depth
  counters : ∀ on, op ≠ .query (.cacheCounters on)

/-- What defines, removes and retires nothing, and asks neither of this, is discreet. -/
theorem Operation.discreet_of_not_redefines {w : World Code σ} {op : Operation Code σ}
    (h : op.redefines? w = none) (retires : ∀ i, op ≠ .retire i) (depth : op ≠ .query .depth)
    (counters : ∀ on, op ≠ .query (.cacheCounters on)) : op.Discreet w where
  settled := by
    refine Step.settled_next (s := .perform op) h fun i hi there => ?_
    refine World.renews_ne there ?_ i hi rfl
    rintro ⟨j, hj, -⟩
    exact retires j (Step.perform.inj hj)
  depth := depth
  counters := counters

namespace World
variable {w v u : World Code σ} {f : Frame} {below : List Frame}

/-- One world has the frame of a body that runs without one in the other world, below
the frames of what the body has called. Otherwise the worlds look the same, and the body
is that of the nearest definition. -/
structure Detached (f : Frame) (below : List Frame) (w v : World Code σ) : Prop where
  left : w.Sound
  right : v.Sound
  looks : SameBehind .framing w v
  frames : ∃ inner, w.frames = inner ++ f :: below ∧ v.frames = inner ++ below
  apart : ∀ g ∈ below, ¬ (g.receiver = f.receiver ∧ g.method = f.method)
  there : w.Has f.receiver
  nearest : (w.nearest? f.receiver f.method).map (·.level) = some f.level

namespace Detached

/-- Without its frame a super call of the body starts from where it is defined. -/
theorem startLevel? (h : Detached f below w v) (on : Receiver) (name : String) :
    w.startLevel? on name = v.startLevel? on name := by
  obtain ⟨inner, hw, hv⟩ := h.frames
  simp only [World.startLevel?, runningLevel?, findSome?_levels, ← nearest?_same h.looks, hw, hv,
    List.find?_append]
  by_cases hf : f.receiver = on ∧ f.method = name
  · obtain ⟨rfl, rfl⟩ := hf
    have none_below : below.find? (fun g => g.receiver = f.receiver ∧ g.method = f.method) = none :=
      List.find?_eq_none.mpr fun g hg => by simpa using h.apart g hg
    rw [List.find?_cons_of_pos (by simp), none_below, h.nearest]
    cases inner.find? _ <;> rfl
  · rw [List.find?_cons_of_neg (by simpa using hf)]

/-- Steps on both sides keep worlds alike, if the frames that they push and pop are. -/
theorem next (h : Detached f below w v) (s s' : Step Code σ) (settled : Settled w (s.next w))
    (looks : SameBehind .framing (s.next w) (s'.next v))
    (frames : ∃ inner, (s.next w).frames = inner ++ f :: below ∧
      (s'.next v).frames = inner ++ below) : Detached f below (s.next w) (s'.next v) where
  left := h.left.next s
  right := h.right.next s'
  looks := looks
  frames := frames
  apart := h.apart
  there := h.left.has_next h.there s
  nearest := by
    rw [settled.nearest? h.left (h.left.next s) (Step.classOf_next h.there s), h.nearest]

/-- Steps that neither push nor pop. -/
theorem still (h : Detached f below w v) (s s' : Step Code σ) (settled : Settled w (s.next w))
    (looks : SameBehind .framing (s.next w) (s'.next v)) (hw : (s.next w).frames = w.frames)
    (hv : (s'.next v).frames = v.frames) : Detached f below (s.next w) (s'.next v) := by
  refine h.next s s' settled looks ?_
  rw [hw, hv]
  exact h.frames

theorem apply (h : Detached f below w v) (op : Operation Code σ)
    (settled : Settled w (op.apply w).2) : Detached f below (op.apply w).2 (op.apply v).2 :=
  h.still (.perform op) (.perform op) settled (h.looks.apply op) (op.silent_apply w).frames
    (op.silent_apply v).frames

theorem answer (h : Detached f below w v) {op : Operation Code σ} (hop : op.Discreet w) :
    (op.apply w).1 = (op.apply v).1 := by
  have same := sameBehind_apply h.looks (fun _ => ⟨h.left, h.right⟩) op
  exact Operation.eq_of_sameBehind same rfl rfl (fun _ => hop.depth) fun _ => hop.counters

theorem found (h : Detached f below w v) (on : Receiver) (name : String) :
    (w.lookUp on name).1 = (v.lookUp on name).1 :=
  lookUp_fst_same h.looks (fun _ => ⟨h.left, h.right⟩) on name

theorem lookUp (h : Detached f below w v) (on : Receiver) (name : String) :
    Detached f below (w.lookUp on name).2 (v.lookUp on name).2 := by
  refine h.still (.lookUp on name) (.lookUp on name) (recalled_lookUp w on name).settled ?_
    (recalled_lookUp w on name).silent.frames (recalled_lookUp v on name).silent.frames
  exact (lookUp_hidden rfl v on name).trans (Eq.trans h.looks (lookUp_hidden rfl w on name).symm)

theorem foundAbove (h : Detached f below w v) (on : Receiver) (name : String) :
    (w.lookUpSuper on name).1 = (v.lookUpSuper on name).1 := by
  rw [h.left.lookUpSuper_fst, h.right.lookUpSuper_fst]
  exact superDefinition?_same h.looks (h.startLevel? on name)

theorem lookUpSuper (h : Detached f below w v) (on : Receiver) (name : String) :
    Detached f below (w.lookUpSuper on name).2 (v.lookUpSuper on name).2 := by
  refine h.still (.lookUpSuper on name) (.lookUpSuper on name)
    (recalled_lookUpSuper w on name).settled ?_ (recalled_lookUpSuper w on name).silent.frames
    (recalled_lookUpSuper v on name).silent.frames
  exact (lookUpSuper_hidden rfl v on name).trans
    (Eq.trans h.looks (lookUpSuper_hidden rfl w on name).symm)

/-- What discreet operations do keeps such worlds alike. -/
theorem coupling (f : Frame) (below : List Frame) :
    Run.Coupling.Under (Operation.Discreet : Rule Code σ) (Detached f below) where
  vars h := h.looks.vars
  target h := target_same h.looks
  handler h := h.looks.handler
  receiverName h := h.looks.receiverName
  found h := h.found
  lookUp h := h.lookUp
  foundAbove h := h.foundAbove
  lookUpSuper h := h.lookUpSuper
  boxed h reply := same_of_behind (f := fun u => (u.box reply).1) (fun _ => rfl) h.looks
  box h reply := h.apply (.box reply) (Step.settled_next (s := .perform (.box reply)) rfl nofun)
  assign h i name x := h.next (.assign i name x) (.assign i name x) (Step.settled_next rfl nofun)
    (h.looks.assign i name x) h.frames
  body h m on args := h.next (.record _) (.record _) (Step.settled_next rfl nofun)
    (h.looks.body m on args) h.frames
  event h e := h.next (.record e) (.record e) (Step.settled_next rfl nofun)
    ((independent_record e).congr h.looks) h.frames
  push h g := by
    refine h.next (.push g) (.push g) (Step.settled_next rfl nofun) (h.looks.push g) ?_
    obtain ⟨inner, hw, hv⟩ := h.frames
    exact ⟨g :: inner, congrArg (g :: ·) hw, congrArg (g :: ·) hv⟩
  pop h h' g hw hv := by
    refine h'.next .pop .pop (Step.settled_next rfl nofun) h'.looks.pop ?_
    obtain ⟨inner, hw₀, hv₀⟩ := h.frames
    exact ⟨inner, (congrArg List.tail hw).trans hw₀, (congrArg List.tail hv).trans hv₀⟩
  hooks h on := same_of_behind (f := (·.hookLevels on)) (fun u => u.hookLevels_behind rfl on) h.looks
  answer h op hop := h.answer hop
  apply h op hop := h.apply op hop.settled

end Detached

theorem pushFrame_hidden {veil : Veil} (hv : veil.frames = true) (w : World Code σ) (f : Frame) :
    (w.pushFrame f).behind veil = w.behind veil := by
  simp only [pushFrame, behind, hv, Veil.cover_true]

theorem popFrame_hidden {veil : Veil} (hv : veil.frames = true) (w : World Code σ) :
    w.popFrame.behind veil = w.behind veil := by
  simp only [popFrame, behind, hv, Veil.cover_true]

/-- An instance that has a method is there. -/
theorem has_of_nearest? {i : InstanceId} {name : String} {d : Definition Code}
    (h : w.nearest? (.ofInstance i) name = some d) : w.Has (.ofInstance i) := by
  by_contra hi
  have blank : w.classAt default = default := by
    apply classAt_of_not_has
    intro hk
    exact Nat.not_succ_le_zero 0 (has_ofClass_iff.mp hk).1
  have line : w.lineage default = [default] :=
    lineage_eq (.root (by rw [parentOf, blank]; rfl))
  rw [nearest?, ownMethod?, stateAt, instanceAt_of_not_has hi] at h
  change w.definition? .instanceSide default name = some d at h
  rw [definition?, line, List.findSome?_singleton, blank] at h
  contradiction

/-- Within the frame of the nearest definition and without, worlds are alike. -/
theorem detached_pushFrame {i : InstanceId} {name : String} {d : Definition Code} (hu : u.Sound)
    (hv : v.Sound) (looks : SameBehind .framing u v) (frames : v.frames = u.frames)
    (found : u.nearest? (.ofInstance i) name = some d)
    (apart : u.framesOf (.ofInstance i) name = []) :
    Detached ⟨.ofInstance i, name, d.level⟩ u.frames (u.pushFrame ⟨.ofInstance i, name, d.level⟩)
      v := by
  have there : u.Has (.ofInstance i) := has_of_nearest? found
  have hidden : SameBehind .framing u (u.pushFrame ⟨.ofInstance i, name, d.level⟩) :=
    pushFrame_hidden rfl u _
  refine ⟨hu.next (.push _), hv, Eq.trans looks hidden.symm, ⟨[], rfl, frames⟩, fun g hg => ?_,
    there, ?_⟩
  · simpa using List.filter_eq_nil_iff.mp apart g hg
  · rw [← nearest?_same hidden, found]
    rfl

end World

namespace Host
variable {host : Host Code σ} {p : Performer Code σ} {w v u : World Code σ}

open World (SameBehind Detached)

/-- Two ends of a run that cannot be told apart but by what is remembered: the answers are
the same, the same code has run in the same order, though perhaps within other frames,
and from there on all that lookups find and all that operations answer is the same,
unless they ask how often findings have served. -/
inductive SameButFindings :
    Except Halt (α × World Code σ) → Except Halt (α × World Code σ) → Prop
  | ended {a : α} {w v : World Code σ} (worlds : v.behind .framing = w.behind .framing)
      (ran : v.trace.filterMap Veil.framing.ofEvent = w.trace.filterMap Veil.framing.ofEvent)
      (frames : v.frames = w.frames)
      (answers : ∀ op : Operation Code σ, (∀ on, op ≠ .query (.cacheCounters on)) →
        (op.apply v).1 = (op.apply w).1)
      (found : ∀ on name, (v.lookUp on name).1 = (w.lookUp on name).1)
      (above : ∀ on name, (v.lookUpSuper on name).1 = (w.lookUpSuper on name).1) :
      SameButFindings (.ok (a, w)) (.ok (a, v))
  | halted (e : Halt) : SameButFindings (.error e) (.error e)

theorem sameButFindings_of_frames {a : α} (hw : w.Sound) (hv : v.Sound)
    (looks : SameBehind .framing w v) (frames : v.frames = w.frames) :
    SameButFindings (.ok (a, w)) (.ok (a, v)) := by
  have sound : Veil.framing.caches = true → w.Sound ∧ v.Sound := fun _ => ⟨hw, hv⟩
  refine .ended looks (congrArg (·.trace) looks) frames (fun op hop => ?_) (fun on name => ?_)
    fun on name => ?_
  · by_cases hd : op = .query .depth
    · subst hd
      exact congrArg List.length frames
    · have same := World.sameBehind_apply looks sound op
      exact (Operation.eq_of_sameBehind same rfl rfl (fun _ => hd) fun _ => hop).symm
  · exact (World.lookUp_fst_same looks sound on name).symm
  · have start : w.startLevel? on name = v.startLevel? on name := by
      simp only [World.startLevel?, World.findSome?_levels, World.runningLevel?, frames,
        World.nearest?_same looks]
    rw [hv.lookUpSuper_fst, hw.lookUpSuper_fst, World.superDefinition?_same looks start]

/-- The frame comes off at the end. -/
theorem invokeFound_of_detached {d : Definition Code} {on : Receiver} {args : List (Value Code)}
    (hp : ∀ m, Run.Balanced (p m)) (frames : v.frames = u.frames)
    (inner : Run.Paired (Detached ⟨on, d.method.name, d.level⟩ u.frames) Eq
      (Run.invoke host p d.method on args (u.pushFrame ⟨on, d.method.name, d.level⟩))
      (Run.invoke host p d.method on args v)) :
    SameButFindings (Run.invokeFound host p d on args u)
      (Run.invoke host p d.method on args v) := by
  have run : Run.invokeFound host p d on args u =
      Except.bind (Run.invoke host p d.method on args (u.pushFrame ⟨on, d.method.name, d.level⟩))
        fun e => .ok (e.1, e.2.popFrame) := rfl
  rw [run]
  generalize hx : Run.invoke host p d.method on args (u.pushFrame _) = x at inner
  generalize hy : Run.invoke host p d.method on args v = y at inner
  cases inner with
  | halted e => exact .halted e
  | @ended a b w' v' answers h =>
    subst answers
    have left := Run.keeps_invoke Run.kept_frames hp d.method on args _ _ _ hx
    have right := Run.keeps_invoke Run.kept_frames hp d.method on args _ _ _ hy
    refine sameButFindings_of_frames (h.left.next .pop) h.right ?_ ?_
    · exact Eq.trans h.looks (World.popFrame_hidden rfl w').symm
    · exact right.trans (frames.trans (congrArg List.tail left).symm)

/-- A call without hooks that finds a definition runs it within its frame. -/
theorem callBare_of_found {i : InstanceId} {name : String} {args : List (Value Code)}
    {d : Definition Code}
    (found : w.lookUp (.ofInstance i) (w.target (.ofInstance i) name) = (some d, u)) :
    Run.callBare host p i name args w = Run.invokeFound host p d (.ofInstance i) args u := by
  have looked : (modifyGet fun v => v.lookUp (.ofInstance i) (w.target (.ofInstance i) name) :
      Run Code σ _) w = .ok (some d, u) := congrArg Except.ok found
  have current : (get : Run Code σ _) w = .ok (w, w) := rfl
  unfold Run.callBare
  rw [Run.bind_of_eq_ok current]
  unfold Run.dispatch
  rw [Run.bind_of_eq_ok looked]

/-- A method that was resolved before does, when it is invoked, what a call of its name
without hooks does, wherever a run has got: if no body of this method is running on the
instance, and if the code that runs on the way is discreet. Bodies may call any methods
of any objects and go on to the next definitions above theirs, and they may fail. The
method may be invoked at once, or it may have been held since before. -/
theorem direct_invocation_agrees (h : σ) (past : List (Step Code σ)) (host : Host Code σ)
    (fuel : Nat) (i : InstanceId) (name : String) (args : List (Value Code)) (m : Method Code) :
    let w := (World.initial h).after past
    (w.resolve? i name).1 = some m → w.framesOf (.ofInstance i) m.name = [] →
    host.Heeds Operation.Discreet fuel (.callBare i name args) w →
    ∀ v ∈ [w, (w.resolve? i name).2],
      SameButFindings (host.performer fuel (.callBare i name args) w)
        (host.performer fuel (.invoke m (.ofInstance i) args) v) := by
  intro w resolved apart discreet v hv
  have hw : w.Sound := World.sound_after h past
  have hn : w.Named := World.named_after h past
  cases fuel with
  | zero => exact .halted _
  | succ fuel =>
    let target := w.target (.ofInstance i) name
    let u := (w.lookUp (.ofInstance i) target).2
    obtain ⟨d, hd, rfl⟩ := Option.map_eq_some_iff.mp resolved
    have found : w.lookUp (.ofInstance i) target = (some d, u) := Prod.ext hd rfl
    have nearest : w.nearest? (.ofInstance i) target = some d := (hw.lookUp_fst _ _).symm.trans hd
    have hname : d.method.name = target := hn.name_of_nearest? nearest
    have recalled : World.Recalled w u := World.recalled_lookUp w _ _
    have hidden : u.behind .framing = w.behind .framing := World.lookUp_hidden rfl w _ _
    have frames : u.frames = w.frames := recalled.silent.frames
    -- Both worlds in which the method may be invoked differ from `u` in caches at most.
    have hv : v.Sound ∧ SameBehind .framing u v ∧ v.frames = u.frames := by
      obtain rfl | hv := List.mem_cons.mp hv
      · exact ⟨hw, hidden.symm, frames.symm⟩
      · obtain rfl := List.mem_singleton.mp hv
        exact ⟨recalled.sound hw, rfl, rfl⟩
    have start : Detached ⟨.ofInstance i, d.method.name, d.level⟩ u.frames
        (u.pushFrame ⟨.ofInstance i, d.method.name, d.level⟩) v := by
      refine World.detached_pushFrame (recalled.sound hw) hv.1 hv.2.1 hv.2.2 ?_ ?_
      · rw [hname, World.bare_nearest? recalled.same, nearest]
      · rw [World.framesOf, frames]
        exact apart
    have balanced := Run.balanced_performer host fuel
    change SameButFindings (Run.callBare host (host.performer fuel) i name args w)
      (Run.invoke host (host.performer fuel) d.method (.ofInstance i) args v)
    rw [callBare_of_found found]
    refine invokeFound_of_detached balanced hv.2.2 ?_
    refine Run.paired_invoke_heeding (p := host.performer fuel) (Detached.coupling _ _)
      (fun _ _ _ h hm => paired_performer_heeding (Detached.coupling _ _) host fuel h hm) start ?_
    exact fun accepts => discreet _ _ (.callBare (.body found accepts))

/-- A host whose bodies take a note, and then answer nothing or go on to the next
definition above. -/
def climbing : Host Bool Unit where
  body up on _ := .operate (.note "f") fun _ =>
    match up, on with
    | true, some on => .send (.callSuper on "f" []) fun outcome => .done (outcome.map .existing)
    | _, _ => .done (.ok .unit)
  before _ _ := .done ()
  after _ _ _ := .done ()
  missing _ _ _ := .done (.ok .nil)

/-- A method that was resolved by an alias goes on to the definition above its own. -/
theorem direct_invocation_of_alias_agrees :
    let past : List (Step Bool Unit) :=
      [.perform (.newClass "A" {}), .perform (.newClass "B" {}), .perform (.inherit ⟨2⟩ ⟨1⟩),
        .perform (.defineMethod (.ofClass ⟨1⟩) "f" (.ofSignature .receiver false)),
        .perform (.defineMethod (.ofClass ⟨2⟩) "f" (.ofSignature .receiver true)),
        .perform (.addAlias (.ofClass ⟨2⟩) "g" "f"), .perform (.instantiate ⟨2⟩)]
    let w := (World.initial ()).after past
    let m : Method Bool := (Method.ofSignature .receiver true).named "f" .instanceSide
    (climbing.performer 2 (.callBare ⟨1⟩ "g" []) w).map (fun e => (e.1, e.2.notes)) =
        .ok (.ok .nil, ["f", "f"]) ∧
      (climbing.performer 2 (.invoke m (.ofInstance ⟨1⟩) []) w).map (·.1) =
        (climbing.performer 2 (.callBare ⟨1⟩ "g" []) w).map (·.1) := by
  intro past w m
  have resolved : (w.resolve? ⟨1⟩ "g").1 = some m := by decide +kernel
  have apart : w.framesOf (.ofInstance ⟨1⟩) m.name = [] := rfl
  have within : climbing.Within (· = .note "f") := by
    refine ⟨fun up on args => ⟨rfl, fun _ => ?_⟩, fun _ _ => trivial, fun _ _ _ => trivial,
      fun _ _ _ => trivial⟩
    cases up <;> cases on <;> first | trivial | exact fun _ => trivial
  have discreet : climbing.Heeds Operation.Discreet 2 (.callBare ⟨1⟩ "g" []) w := by
    refine within.heeds (fun v op hop => ?_) 2 _ w
    subst hop
    exact Operation.discreet_of_not_redefines rfl nofun nofun nofun
  have same := direct_invocation_agrees () past climbing 2 ⟨1⟩ "g" [] m resolved apart discreet w
    List.mem_cons_self
  refine ⟨by decide +kernel, ?_⟩
  generalize climbing.performer 2 (.callBare ⟨1⟩ "g" []) _ = x at same
  generalize climbing.performer 2 (.invoke m (.ofInstance ⟨1⟩) []) _ = y at same
  cases same with
  | ended => rfl
  | halted e => rfl

end Host
end ObjectModel
