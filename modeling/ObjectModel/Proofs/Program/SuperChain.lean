import ObjectModel.Proofs.Program.SuperCall

/-!
# Chains of super calls

When every definition of a name does nothing but call the next one above and add
its own text, one call runs all of them, the nearest first. The texts come back
the other way round. By induction on the definitions that are left above the
running one.
-/
namespace ObjectModel
variable {Code σ : Type}

/-- The records of one world are those of another, but for what is remembered. -/
structure World.Kept (w v : World Code σ) : Prop where
  sound : v.Sound
  named : v.Named
  classes : v.bare.classes = w.bare.classes
  instances : v.bare.instances = w.bare.instances

namespace World.Kept
variable {w v u : World Code σ} {on : Receiver} {name : String}

theorem refl (hw : w.Sound) (hn : w.Named) : Kept w w := ⟨hw, hn, rfl, rfl⟩

theorem recalled (h : Kept w v) (hu : Recalled v u) : Kept w u where
  sound := hu.sound h.sound
  named := hu.named h.named
  classes := (congrArg (·.classes) hu.same).trans h.classes
  instances := (congrArg (·.instances) hu.same).trans h.instances

theorem of_records (h : Kept w v) (hc : u.classes = v.classes) (hi : u.instances = v.instances)
    (hl : u.clock = v.clock) : Kept w u where
  sound := (quiet_of_records hc hi hl).sound h.sound
  named := (quiet_of_records hc hi hl).named h.named
  classes := by
    rw [bare, hc]
    exact h.classes
  instances := by
    rw [bare, hi]
    exact h.instances

theorem levels (h : Kept w v) : v.levels on = w.levels on := by
  rw [← levels_bare, levels_of_records h.classes h.instances, levels_bare]

theorem definitionOn? (h : Kept w v) : v.definitionOn? on name = w.definitionOn? on name := by
  funext level
  rw [← definitionOn?_bare, definitionOn?_of_records h.classes h.instances, definitionOn?_bare]

theorem receiverName (h : Kept w v) : v.receiverName on = w.receiverName on := by
  rw [← receiverName_bare, receiverName_of_records h.classes h.instances, receiverName_bare]

theorem afterHooks (h : Kept w v) : v.afterHooks on name = w.afterHooks on name := by
  rw [World.afterHooks, ← hookLevels_bare, hookLevels_of_records h.classes h.instances,
    hookLevels_bare, World.afterHooks]

/-- Within the body of one definition a super call runs the next one. -/
theorem superDefinition? (h : Kept w v) {before after : List (Definition Code)}
    {d : Definition Code} {frames : List Frame}
    (hd : (w.levels on).filterMap (w.definitionOn? on name) = before ++ d :: after)
    (hf : v.frames = ⟨on, name, d.level⟩ :: frames) :
    v.superDefinition? on name = after.head? := by
  have hstart : v.startLevel? on name = some d.level := by
    simp [startLevel?, runningLevel?, hf]
  have hplace : ∀ a e, v.definitionOn? on name a = some e → e.level = a :=
    fun a e he => (definitionOn?_eq_some.mp he).1
  rw [← h.levels, ← h.definitionOn?] at hd
  rw [World.superDefinition?, hstart, Option.bind_some, levelsAfter, ← List.head?_filterMap,
    filterMap_after hplace (h.sound.rooted.nodup_levels on) hd]

end World.Kept

/-- A definition in a chain of super calls: what it is called with, and the text
it adds. -/
structure Rung (Code : Type) where
  definition : Definition Code
  args : List (Value Code)
  tag : String

namespace Rung
variable {host : Host Code σ} {performer : Performer Code σ} {on : Receiver} {name : String}
  {r : Rung Code} {u v : World Code σ} {args : List (Value Code)}

/-- The frame in which its body runs. -/
def frame (r : Rung Code) (on : Receiver) (name : String) : Frame := ⟨on, name, r.definition.level⟩

/-- The start of its body. -/
def entry (r : Rung Code) (on : Receiver) (frames : List Frame) : Event Code :=
  .body r.definition.method on r.args frames

/-- A body that does nothing but call the next definition above, if it is told to,
and add a text to the result. -/
def script (tag : String) (on : Receiver) (name : String) :
    Option (List (Value Code)) → Script Code σ (Except ObjectError (Reply Code))
  | none => .done (.ok (.text tag))
  | some args => .send (.callSuper on name args) fun
    | .ok v => .done (.ok (.text (v.display ++ tag)))
    | .error e => .done (.error e)

/-- The definition accepts its arguments, and its body is such a script. -/
structure Runs (host : Host Code σ) (on : Receiver) (name : String)
    (above : Option (List (Value Code))) (r : Rung Code) : Prop where
  accepts : r.definition.method.arity.accepts r.args.length = true
  body : ∃ code, r.definition.method.body = .host code ∧
    host.body code (if r.definition.method.signature.takesReceiver then some on else none) r.args =
      script r.tag on name above

/-- Running a rung is running its script after a mark. -/
theorem Runs.invoke {above : Option (List (Value Code))} (h : Runs host on name above r) :
    Run.invoke host performer r.definition.method on r.args u =
      ((script r.tag on name above).run performer >>= fun
        | .error e => return .error e
        | .ok reply => do return .ok (← Run.box reply)) (u.record (r.entry on u.frames)) := by
  obtain ⟨code, hcode, hbody⟩ := h.body
  rw [Run.invoke_of_accepts host performer h.accepts, ← hbody]
  simp only [Run.runBody, hcode]
  rfl

theorem Runs.invoke_top (h : Runs host on name none r) :
    Run.invoke host performer r.definition.method on r.args u =
      .ok (.ok (.object u.nextAddress (.text r.tag)),
        { u.record (r.entry on u.frames) with nextAddress := u.nextAddress + 1 }) := by
  rw [h.invoke]
  rfl

/-- What a body makes of the outcome of its super call. -/
def result (r : Rung Code) (v : World Code σ) : Outcome Code → Outcome Code × World Code σ
  | .ok x => (.ok (.object v.nextAddress (.text (x.display ++ r.tag))),
      { v with nextAddress := v.nextAddress + 1 })
  | .error e => (.error e, v)

theorem Runs.invoke_above {outcome : Outcome Code} (h : Runs host on name (some args) r)
    (hs : performer (.callSuper on name args) (u.record (r.entry on u.frames)) = .ok (outcome, v)) :
    Run.invoke host performer r.definition.method on r.args u = .ok (r.result v outcome) := by
  have hscript : (script r.tag on name (some args)).run performer (u.record (r.entry on u.frames)) =
      .ok (outcome.map fun x => .text (x.display ++ r.tag), v) := by
    rw [script, Script.run, Run.bind_of_eq_ok hs]
    cases outcome <;> rfl
  rw [h.invoke, Run.bind_of_eq_ok hscript]
  cases outcome <;> rfl

end Rung

namespace Ladder

/-- Each rung calls the next one with the arguments of that, and the last one
calls super with the given arguments, or not at all. -/
def Climbs (host : Host Code σ) (on : Receiver) (name : String)
    (top : Option (List (Value Code))) : List (Rung Code) → Prop
  | [] => True
  | r :: rest =>
    r.Runs host on name ((rest.head?.map (·.args)).or top) ∧ Climbs host on name top rest

/-- The bodies of the rungs start one inside the other. -/
def entries (on : Receiver) (name : String) : List Frame → List (Rung Code) → List (Event Code)
  | _, [] => []
  | frames, r :: rest =>
    r.entry on (r.frame on name :: frames) :: entries on name (r.frame on name :: frames) rest

/-- The texts of all rungs from the last one down, in one value; or an error, if
the last one calls super. -/
def Ends (receiver name : String) (top : Option (List (Value Code))) (rungs : List (Rung Code))
    (outcome : Outcome Code) : Prop :=
  match top with
  | none => ∃ address,
    outcome = .ok (.object address (.text (String.join (rungs.map (·.tag)).reverse)))
  | some _ => outcome = .error (.noSuperMethod name receiver)

variable {host : Host Code σ} {w u v : World Code σ} {on : Receiver} {name : String}
  {top : Option (List (Value Code))} {r r' : Rung Code} {rest : List (Rung Code)}
  {frames : List Frame} {outcome : Outcome Code}

/-- What the run of some rungs leaves behind. -/
structure Climbed (w u : World Code σ) (on : Receiver) (name : String)
    (top : Option (List (Value Code))) (below : List Frame) (rungs : List (Rung Code))
    (outcome : Outcome Code) (v : World Code σ) : Prop where
  kept : World.Kept w v
  frames : v.frames = u.frames
  trace : v.trace = u.trace ++ entries on name below rungs
  ends : Ends (w.receiverName on) name top rungs outcome

theorem join_reverse_cons (tag : String) (tags : List String) :
    String.join (tag :: tags).reverse = String.join tags.reverse ++ tag := by
  simp [String.join, List.foldl_append]

/-- A rung adds its text to what comes from above, and hands errors down. -/
theorem Ends.result (h : Ends (w.receiverName on) name top (r' :: rest) outcome) :
    Ends (w.receiverName on) name top (r :: r' :: rest) (r.result v outcome).1 := by
  cases top with
  | none =>
    obtain ⟨address, rfl⟩ := h
    have hjoin := join_reverse_cons r.tag ((r' :: rest).map (·.tag))
    refine ⟨v.nextAddress, ?_⟩
    change _ = Except.ok (Value.object _ (Payload.text (String.join (r.tag :: _).reverse)))
    rw [hjoin]
    rfl
  | some args =>
    obtain rfl : outcome = .error (.noSuperMethod name (w.receiverName on)) := h
    rfl

/-- From the run of the rungs above to the run of a rung. -/
theorem Climbed.result (hframes : u.frames = r.frame on name :: frames)
    (h : Climbed w (u.record (r.entry on u.frames)) on name top u.frames (r' :: rest) outcome v) :
    Climbed w u on name top frames (r :: r' :: rest) (r.result v outcome).1
      (r.result v outcome).2 := by
  have htrace : v.trace = u.trace ++ entries on name frames (r :: r' :: rest) := by
    rw [h.trace, World.record, hframes]
    simp [entries]
  cases outcome with
  | ok x => exact ⟨h.kept.of_records rfl rfl rfl, h.frames, htrace, h.ends.result⟩
  | error e => exact ⟨h.kept, h.frames, htrace, h.ends.result⟩

/-- A frame that a call puts on is taken away after the rungs have run in it. -/
theorem Climbed.popped {rungs : List (Rung Code)} {f : Frame} {v' : World Code σ}
    (hv : World.Recalled u v)
    (h : Climbed w (v.pushFrame f) on name top frames rungs outcome v') :
    Climbed w u on name top frames rungs outcome v'.popFrame where
  kept := h.kept.of_records rfl rfl rfl
  frames := by
    have hsame : v.frames = u.frames := congrArg (·.frames) hv.same
    rw [World.popFrame, h.frames]
    exact hsame
  trace := h.trace.trans (congrArg (· ++ _) (congrArg (·.trace) hv.same))
  ends := h.ends

/-- A super call is a run of the next definition in its frame. -/
theorem superCall_next (host : Host Code σ) (performer : Performer Code σ)
    (args : List (Value Code)) {d : Definition Code} (hu : World.Kept w u)
    (hd : u.superDefinition? on name = some d) :
    ∃ v, World.Recalled u v ∧ ∀ outcome v',
      Run.invoke host performer d.method on args (v.pushFrame ⟨on, name, d.level⟩) =
        .ok (outcome, v') →
      Run.callSuper host performer on name args u = .ok (outcome, v'.popFrame) := by
  obtain ⟨v, hv, hcall⟩ := Run.callSuper_of_sound hu.sound hu.named host performer on name args
  refine ⟨v, hv, fun outcome v' hrun => ?_⟩
  rw [hcall, hd]
  simp only
  rw [Run.bind_of_eq_ok hrun]
  rfl

/-- Once the body of a rung has started, a super call finds the next one. -/
theorem marked {before : List (Definition Code)}
    (hdefs : (w.levels on).filterMap (w.definitionOn? on name) =
      before ++ (r :: rest).map (·.definition))
    (hu : World.Kept w u) (hframes : u.frames = r.frame on name :: frames) :
    World.Kept w (u.record (r.entry on u.frames)) ∧
      (u.record (r.entry on u.frames)).superDefinition? on name = (rest.map (·.definition)).head? := by
  have hmark : World.Kept w (u.record (r.entry on u.frames)) := hu.of_records rfl rfl rfl
  exact ⟨hmark, hmark.superDefinition? hdefs hframes⟩

/-- The run of one rung, with all that are above it. -/
theorem invoke_rung (before : List (Definition Code)) {fuel : Nat}
    (hclimbs : Climbs host on name top (r :: rest))
    (hdefs : (w.levels on).filterMap (w.definitionOn? on name) =
      before ++ (r :: rest).map (·.definition))
    (hu : World.Kept w u) (hframes : u.frames = r.frame on name :: frames)
    (hfuel : rest.length + 1 ≤ fuel) :
    ∃ outcome v, Run.invoke host (host.performer fuel) r.definition.method on r.args u =
        .ok (outcome, v) ∧ Climbed w u on name top frames (r :: rest) outcome v := by
  induction rest generalizing r before u frames fuel with
  | nil =>
    obtain ⟨hmark, hnext⟩ := marked hdefs hu hframes
    have htrace : (u.record (r.entry on u.frames)).trace = u.trace ++ entries on name frames [r] := by
      simp [World.record, entries, hframes]
    cases top with
    | none =>
      refine ⟨_, _, hclimbs.1.invoke_top, hmark.of_records rfl rfl rfl, rfl, htrace, ?_⟩
      exact ⟨u.nextAddress, by simp [String.join]⟩
    | some args =>
      obtain ⟨fuel, rfl⟩ : ∃ n, fuel = n + 1 := ⟨fuel - 1, by omega⟩
      obtain ⟨v, hv, hcall⟩ := Run.callSuper_of_sound hmark.sound hmark.named host
        (host.performer fuel) on name args
      rw [hnext, hmark.receiverName] at hcall
      refine ⟨_, _, hclimbs.1.invoke_above hcall, hmark.recalled hv, ?_, ?_, rfl⟩
      · exact congrArg (·.frames) hv.same
      · exact (congrArg (·.trace) hv.same).trans htrace
  | cons r' rest ih =>
    obtain ⟨hmark, hnext⟩ := marked hdefs hu hframes
    obtain ⟨fuel, rfl⟩ : ∃ n, fuel = n + 1 := ⟨fuel - 1, by omega⟩
    obtain ⟨v, hv, hcall⟩ := superCall_next host (host.performer fuel) r'.args hmark
      hnext
    have hsame : v.frames = u.frames := congrArg (·.frames) hv.same
    have hkept : World.Kept w (v.pushFrame (r'.frame on name)) :=
      (hmark.recalled hv).of_records rfl rfl rfl
    have hdefs' : (w.levels on).filterMap (w.definitionOn? on name) =
        (before ++ [r.definition]) ++ (r' :: rest).map (·.definition) := by
      simpa using hdefs
    have hfuel' : rest.length + 1 ≤ fuel := by simpa using hfuel
    obtain ⟨outcome, v', hrun, hclimbed⟩ := ih _ hclimbs.2 hdefs' hkept
      (congrArg (r'.frame on name :: ·) hsame) hfuel'
    have hback := hclimbed.popped hv
    exact ⟨_, _, hclimbs.1.invoke_above (hcall outcome v' hrun), hback.result hframes⟩

/-- A dispatched message is a run of the nearest definition in its frame. -/
theorem dispatch_nearest (host : Host Code σ) (performer : Performer Code σ)
    (args : List (Value Code)) {d : Definition Code} (hw : w.Sound) (hn : w.Named)
    (hd : w.nearest? on name = some d) :
    ∃ v, World.Recalled w v ∧ ∀ outcome u,
      Run.invoke host performer d.method on args (v.pushFrame ⟨on, name, d.level⟩) =
        .ok (outcome, u) →
      Run.dispatch host performer on name args w = .ok (outcome, u.popFrame) := by
  refine ⟨(w.lookUp on name).2, World.recalled_lookUp w on name, fun outcome u hrun => ?_⟩
  have hname : d.method.name = name := hn.name_of_nearest? hd
  have hlook : w.lookUp on name = (some d, (w.lookUp on name).2) := by
    rw [← hd, ← hw.lookUp_fst]
  rw [Run.dispatch_of_found host performer hlook]
  subst hname
  exact Run.invokeFound_of_eq_ok host performer hrun

/-- Without alias and hooks a call is a dispatched message. -/
theorem call_of_dispatch {performer : Performer Code σ} {args : List (Value Code)}
    (halias : w.alias? on name = none) (hbefore : w.beforeHooks on name = [])
    (hafter : v.afterHooks on name = [])
    (hrun : Run.dispatch host performer on name args w = .ok (outcome, v)) :
    Run.call host performer on name args w = .ok (outcome, v) := by
  have htarget : w.target on name = name := by rw [World.target, halias, Option.getD_none]
  unfold Run.call
  rw [Run.bind_of_eq_ok (a := w) (v := w) rfl]
  simp only [htarget, hbefore]
  rw [Run.bind_of_eq_ok (a := ⟨⟩) (v := w) rfl, Run.bind_of_eq_ok hrun]
  cases outcome with
  | error e => rfl
  | ok x =>
    simp only
    rw [Run.bind_of_eq_ok (a := v) (v := v) rfl, hafter]
    rfl

/-- The definitions of a name on all levels of a receiver are rungs of a ladder,
and nothing stands between a call and them. -/
structure Stands (host : Host Code σ) (w : World Code σ) (on : Receiver) (name : String)
    (top : Option (List (Value Code))) (rungs : List (Rung Code)) : Prop where
  unaliased : w.alias? on name = none
  unhookedBefore : w.beforeHooks on name = []
  unhookedAfter : w.afterHooks on name = []
  definitions : (w.levels on).filterMap (w.definitionOn? on name) = rungs.map (·.definition)
  climbs : Climbs host on name top rungs

/-- Wherever a run has got, a call climbs all levels that define the name: every
body starts once, the nearest first, within the frames of those before it and
none other above the frames that were there. The texts come back in one value,
the text of the last body first; but if that one calls super too, the call
fails. In the end the frames are those from the start. -/
theorem call_climbs (h : σ) (past : List (Step Code σ)) (host : Host Code σ) (on : Receiver)
    (name : String) (top : Option (List (Value Code))) (r : Rung Code) (rest : List (Rung Code))
    (stands : Stands host ((World.initial h).after past) on name top (r :: rest)) (fuel : Nat)
    (hfuel : (r :: rest).length < fuel) :
    let w := (World.initial h).after past
    ∃ outcome v, host.performer fuel (.call on name r.args) w = .ok (outcome, v) ∧
      Ends (w.receiverName on) name top (r :: rest) outcome ∧
      v.trace = w.trace ++ entries on name w.frames (r :: rest) ∧
      ((r :: rest).map fun r => r.definition.level).Nodup ∧ v.frames = w.frames := by
  intro w
  have hw : w.Sound := World.sound_after h past
  have hn : w.Named := World.named_after h past
  obtain ⟨fuel, rfl⟩ : ∃ n, fuel = n + 1 := ⟨fuel - 1, by omega⟩
  have hnearest : w.nearest? on name = some r.definition := by
    rw [← World.findSome?_levels, ← List.head?_filterMap, stands.definitions]
    rfl
  obtain ⟨v, hv, hcall⟩ := dispatch_nearest host (host.performer fuel) r.args hw hn hnearest
  have hframes : (v.pushFrame (r.frame on name)).frames = r.frame on name :: w.frames :=
    congrArg (r.frame on name :: ·) (congrArg (·.frames) hv.same)
  have hkept : World.Kept w (v.pushFrame (r.frame on name)) :=
    ((World.Kept.refl hw hn).recalled hv).of_records rfl rfl rfl
  have hrest : rest.length + 1 ≤ fuel := by
    rw [List.length_cons] at hfuel
    omega
  obtain ⟨outcome, u, hrun, hclimbed⟩ := invoke_rung [] stands.climbs stands.definitions hkept
    hframes hrest
  have hend := hclimbed.popped hv
  have hafter : u.popFrame.afterHooks on name = [] := by
    rw [hend.kept.afterHooks, stands.unhookedAfter]
  -- Each definition stands on a level of its own.
  have hlevels := World.nodup_level_filterMap (f := w.definitionOn? on name)
    (fun _ _ hd => (World.definitionOn?_eq_some.mp hd).1) (hw.rooted.nodup_levels on)
  rw [stands.definitions, List.map_map] at hlevels
  refine ⟨outcome, u.popFrame, ?_, hend.ends, hend.trace, hlevels, hend.frames⟩
  exact call_of_dispatch stands.unaliased stands.unhookedBefore hafter (hcall outcome u hrun)

/-- A host whose codes are texts to add, with or without a super call of `f`. -/
def tagging : Host (String × Bool) Unit where
  body code on _ := Rung.script code.1 (on.getD default) "f" (if code.2 then some [] else none)
  before _ _ := .done ()
  after _ _ _ := .done ()
  missing _ _ _ := .done (.ok .nil)

/-- A method of that host. -/
def tagMethod (tag : String) (up : Bool) : Method (String × Bool) := .ofSignature .receiver (tag, up)

/-- A class between two that define the name, and an instance with a method of its
own and a singleton method. -/
theorem call_climbs_from_singleton :
    let past : List (Step (String × Bool) Unit) :=
      [.perform (.newClass "A" {}), .perform (.newClass "B" {}), .perform (.newClass "C" {}),
        .perform (.inherit ⟨2⟩ ⟨1⟩), .perform (.inherit ⟨3⟩ ⟨2⟩), .perform (.instantiate ⟨3⟩),
        .perform (.defineMethod (.ofClass ⟨1⟩) "f" (tagMethod "a" false)),
        .perform (.defineMethod (.ofClass ⟨3⟩) "f" (tagMethod "c" true)),
        .perform (.defineMethod (.ofInstance ⟨1⟩) "f" (tagMethod "o" true)),
        .perform (.defineSingleton ⟨1⟩ "f" (tagMethod "s" true))]
    let w := (World.initial ()).after past
    ∃ address v, tagging.performer 5 (.call (.ofInstance ⟨1⟩) "f" []) w =
        .ok (.ok (.object address (.text "acos")), v) ∧ v.frames = w.frames := by
  intro past w
  let rung (tag : String) (up : Bool) (level : Level) : Rung (String × Bool) :=
    ⟨⟨(tagMethod tag up).named "f" .instanceSide, level⟩, [], tag⟩
  have stands : Stands tagging w (.ofInstance ⟨1⟩) "f" none
      [rung "s" true .singleton, rung "o" true .own, rung "c" true (.ofClass ⟨3⟩),
        rung "a" false (.ofClass ⟨1⟩)] := by
    refine ⟨by decide +kernel, by decide +kernel, by decide +kernel, by decide +kernel, ?_⟩
    exact ⟨⟨rfl, _, rfl, rfl⟩, ⟨rfl, _, rfl, rfl⟩, ⟨rfl, _, rfl, rfl⟩, ⟨rfl, _, rfl, rfl⟩, trivial⟩
  obtain ⟨outcome, v, hrun, ⟨address, hend⟩, _, _, hframes⟩ :=
    call_climbs () past tagging (.ofInstance ⟨1⟩) "f" none _ _ stands 5 (by decide)
  refine ⟨address, v, ?_, hframes⟩
  rw [hend] at hrun
  exact hrun

end Ladder
end ObjectModel
