import ObjectModel.Proofs.Lineage.Forest
import ObjectModel.Proofs.Program.Heeding
import ObjectModel.Proofs.Program.Responds
import ObjectModel.Proofs.Program.SuperCall

/-!
# Refusals

An operation that is refused leaves the world as it was. A message is refused when there
is no code to answer it, or when the method that was found does not accept the arguments.
Then no code has started, and the world differs from the one before in remembered
findings at most, and in how often they have served.
-/
namespace ObjectModel
variable {Code σ : Type}

/-- An operation has been refused, by what it has answered. -/
def Operation.Refused : (op : Operation Code σ) → op.Answer → Prop
  | .inherit _ _, answer => ∃ e, answer = .error e
  | .defineFromValue _ _ _, answer => ∃ e, answer = .error e
  | .removeMethod _ _, answer => answer = false
  | _, _ => False

namespace World
variable {w v : World Code σ} {k : ClassId} {name : String}

theorem inherit_of_error {child parent : ClassId} {e : ObjectError}
    (h : (w.inherit child parent).1 = .error e) : (w.inherit child parent).2 = w := by
  refine inherit_of_descendsFrom ?_
  have refused : (w.inherit child parent).1.isOk = false := by rw [h]; rfl
  rwa [isOk_inherit, Bool.not_eq_false'] at refused

theorem removeMethod_of_false {on : Receiver} (h : (w.removeMethod on name).1 = false) :
    (w.removeMethod on name).2 = w := by
  rw [removeMethod_fst] at h
  rw [removeMethod, if_neg (by simp [h])]

/-- A value defines a method if it holds one whose receivers are instances. -/
theorem defineFromValue_eq_ok_iff (x : Value Code) :
    (w.defineFromValue k name x).1 = .ok () ↔
      ∃ address m, x = .object address (.method .instanceSide m) := by
  unfold defineFromValue
  constructor
  · intro h
    cases x with
    | nil => cases h
    | object address p =>
      cases p with
      | method side m =>
        cases side with
        | instanceSide => exact ⟨address, m, rfl⟩
        | classSide => cases h
      | _ => cases h
  · rintro ⟨address, m, rfl⟩
    rfl

theorem defineFromValue_of_error {x : Value Code} {e : ObjectError}
    (h : (w.defineFromValue k name x).1 = .error e) :
    w.defineFromValue k name x =
      (.error (.invalidMethod name (x.typeName ++ " is not callable")), w) := by
  unfold defineFromValue at h ⊢
  cases hm : x.method? .instanceSide with
  | some m =>
    rw [hm] at h
    cases h
  | none => rfl

/-- A class has got a method under a name, and nothing else has changed but its stamp and
what it remembers. -/
structure Installs (k : ClassId) (name : String) (m : Method Code) (w v : World Code σ) : Prop where
  installed : (v.classAt k).methods.find? name = some m
  others : ∀ other, other ≠ name → (v.classAt k).methods.find? other = (w.classAt k).methods.find? other
  record : { v.classAt k with
    methods := (w.classAt k).methods
    version := (w.classAt k).version
    cache := (w.classAt k).cache
    classCache := (w.classAt k).classCache } = w.classAt k
  classes : ∀ j, j ≠ k → v.classAt j = w.classAt j
  rest : { v with classes := w.classes, clock := w.clock } = w

theorem installs_defineMethod (hk : w.Has (.ofClass k)) (name : String) (m : Method Code) :
    Installs k name (m.named name .instanceSide) w (w.defineMethod (.ofClass k) name m) := by
  have hself : (w.defineMethod (.ofClass k) name m).classAt k =
      ({ w.classAt k with
        methods := (w.classAt k).methods.define (m.named name .instanceSide) } : ClassRecord Code).stamped
          (w.clock.latest + 1) := by
    refine (classAt_stampClass_self ((has_modifyClass k _ _).mpr hk)).trans ?_
    rw [classAt_modifyClass_self hk]
    rfl
  refine ⟨?_, fun other hne => ?_, ?_, fun j hj => ?_, rfl⟩
  · rw [hself]
    exact Table.find?_insert_self _ _ _
  · rw [hself]
    exact (Table.find?_insert _ _ _ _).trans (if_neg hne)
  · rw [hself]
    rfl
  · exact (classAt_stampClass_of_ne hj).trans (classAt_modifyClass_of_ne hj _)

end World

/-- A refused operation changes nothing. -/
theorem Operation.apply_of_refused {w : World Code σ} {op : Operation Code σ}
    (h : op.Refused (op.apply w).1) : (op.apply w).2 = w := by
  cases op with
  | inherit child parent =>
    obtain ⟨e, he⟩ := h
    exact World.inherit_of_error he
  | defineFromValue k name x =>
    obtain ⟨e, he⟩ := h
    exact congrArg Prod.snd (World.defineFromValue_of_error he)
  | removeMethod on name => exact World.removeMethod_of_false h
  | _ => cases h

/-- The error for a number of arguments that a method does not accept. -/
def Method.refusal? (m : Method Code) (given : Nat) : Option ObjectError :=
  if m.arity.accepts given then none else some (.arityMismatch m.name given m.arity.required)

/-- The error when there is no code to answer, or when it does not accept the arguments. -/
def Response.refusal? (receiver name : String) (given : Nat) : Response Code → Option ObjectError
  | body d => d.method.refusal? given
  | handler _ => none
  | undefined => some (.undefinedMethod name receiver)

/-- The error with which a message is refused, by what its name stands for and by the
definitions there are. -/
def World.refusal? (w : World Code σ) : Message Code → Option ObjectError
  | .call on name args =>
    (w.response on (w.meaning on name)).refusal? (w.receiverName on) (w.meaning on name) args.length
  | .callBare i name args =>
    (w.response (.ofInstance i) (w.meaning (.ofInstance i) name)).refusal?
      (w.receiverName (.ofInstance i)) (w.meaning (.ofInstance i) name) args.length
  | .callSuper on name args =>
    match w.superDefinition? on name with
    | some d => d.method.refusal? args.length
    | none => some (.noSuperMethod name (w.receiverName on))
  | .invoke m _ args => m.refusal? args.length

/-- No hooks run before a message. Only calls have hooks. -/
def World.Unhooked (w : World Code σ) : Message Code → Prop
  | .call on name _ => w.befores on name = []
  | _ => True

/-- The veil before remembered findings and how often they have served. -/
def Veil.findings : Veil := { caches := true }

namespace Run
variable {host : Host Code σ} {p : Performer Code σ} {w v : World Code σ} {on : Receiver}
  {name : String} {args : List (Value Code)} {d : Definition Code}

/-- A run fails without having changed more than what is remembered. -/
def Refuses (w : World Code σ) (e : ObjectError) (run : Except Halt (Outcome Code × World Code σ)) :
    Prop :=
  ∃ v, run = .ok (.error e, v) ∧ World.SameBehind .findings w v

theorem invoke_of_refusal {m : Method Code} {e : ObjectError}
    (h : m.refusal? args.length = some e) (host : Host Code σ) (p : Performer Code σ)
    (on : Receiver) (w : World Code σ) : invoke host p m on args w = .ok (.error e, w) := by
  unfold Method.refusal? at h
  split at h
  · cases h
  · next rejects =>
    obtain rfl := Option.some.inj h
    rw [invoke_of_rejects host p rejects]
    rfl

/-- The frame of a method that does not accept the arguments comes off at once. -/
theorem invokeFound_of_refusal {e : ObjectError} (h : d.method.refusal? args.length = some e)
    (host : Host Code σ) (p : Performer Code σ) (on : Receiver) (w : World Code σ) :
    invokeFound host p d on args w = .ok (.error e, w) :=
  invokeFound_of_eq_ok host p (invoke_of_refusal h host p on _)

theorem respond_of_refusal {r : Response Code} {e : ObjectError}
    (h : r.refusal? (w.receiverName on) name args.length = some e) (host : Host Code σ)
    (p : Performer Code σ) : respond host p on name args r w = .ok (.error e, w) := by
  cases r with
  | body d => exact invokeFound_of_refusal h host p on w
  | handler code => cases h
  | undefined =>
    obtain rfl := Option.some.inj h
    rfl

theorem dispatch_refuses (hw : w.Sound) {e : ObjectError}
    (h : (w.response on name).refusal? (w.receiverName on) name args.length = some e)
    (host : Host Code σ) (p : Performer Code σ) :
    Refuses w e (dispatch host p on name args w) := by
  have recalled := World.recalled_lookUp w on name
  rw [← World.bare_receiverName recalled.same on] at h
  rw [dispatch_eq hw, respond_of_refusal h host p]
  exact ⟨_, rfl, World.lookUp_hidden rfl w on name⟩

theorem accepts_of_no_refusal {m : Method Code} {given : Nat} (h : m.refusal? given = none) :
    m.arity.accepts given = true := by
  unfold Method.refusal? at h
  split at h
  · assumption
  · cases h

/-- What answers for a receiver starts if it is not refused. -/
theorem answers_of_no_refusal (hw : w.Sound)
    (h : (w.response on name).refusal? (w.receiverName on) name args.length = none) :
    ∃ e u, Answers on name args w e u := by
  have found := hw.lookUp_fst on name
  rw [World.response, World.findSome?_levels, ← found] at h
  cases hd : (w.lookUp on name).1 with
  | some d =>
    rw [hd] at h
    exact ⟨_, _, .body (Prod.ext hd rfl) (accepts_of_no_refusal h)⟩
  | none =>
    rw [hd] at h
    cases hc : w.handler? on with
    | some code =>
      have recalled := World.recalled_lookUp w on name
      rw [← World.bare_handler? recalled.same on] at hc
      exact ⟨_, _, .missing (Prod.ext hd rfl) hc⟩
    | none =>
      rw [hc] at h
      cases h

section
variable {m : Message Code} (hw : w.Sound) (hb : w.Unhooked m)
include hw hb

theorem deliver_refuses {e : ObjectError} (h : w.refusal? m = some e) (host : Host Code σ)
    (p : Performer Code σ) : Refuses w e (deliver host p m w) := by
  cases m with
  | call on name args =>
    obtain ⟨v, hv, same⟩ := dispatch_refuses hw h host p
    refine ⟨v, ?_, same⟩
    change call host p on name args w = _
    rw [call_eq, show w.befores on name = [] from hb]
    exact bind_of_eq_ok hv
  | callBare i name args =>
    change Refuses w e (dispatch host p (.ofInstance i) (w.target (.ofInstance i) name) args w)
    rw [World.target_eq_meaning]
    exact dispatch_refuses hw h host p
  | callSuper on name args =>
    have recalled := World.recalled_lookUpSuper w on name
    have hidden : World.SameBehind .findings w (w.lookUpSuper on name).2 :=
      World.lookUpSuper_hidden rfl w on name
    rw [World.refusal?, ← hw.lookUpSuper_fst] at h
    change Refuses w e (callSuper host p on name args w)
    rw [callSuper_eq]
    cases hd : (w.lookUpSuper on name).1 with
    | some d =>
      rw [hd] at h
      exact ⟨_, invokeFound_of_refusal h host p on _, hidden⟩
    | none =>
      rw [hd] at h
      obtain rfl := Option.some.inj h
      refine ⟨_, ?_, hidden⟩
      rw [← World.bare_receiverName recalled.same on]
      rfl
  | invoke method on args => exact ⟨w, invoke_of_refusal h host p on w, rfl⟩

theorem starts_of_no_refusal (h : w.refusal? m = none) (host : Host Code σ) (p : Performer Code σ) :
    ∃ e u, Starts host p w m e u := by
  cases m with
  | call on name args =>
    obtain ⟨e, u, answers⟩ := answers_of_no_refusal hw h
    rw [← World.target_eq_meaning] at answers
    refine ⟨e, u, .call ?_ answers⟩
    rw [(w.hooks_eq on name).1, show w.befores on name = [] from hb]
    rfl
  | callBare i name args =>
    obtain ⟨e, u, answers⟩ := answers_of_no_refusal hw h
    rw [← World.target_eq_meaning] at answers
    exact ⟨e, u, .callBare answers⟩
  | callSuper on name args =>
    rw [World.refusal?, ← hw.lookUpSuper_fst] at h
    cases hd : (w.lookUpSuper on name).1 with
    | some d =>
      rw [hd] at h
      exact ⟨_, _, .callSuper (Prod.ext hd rfl) (accepts_of_no_refusal h)⟩
    | none =>
      rw [hd] at h
      cases h
  | invoke method on args => exact ⟨_, _, .invoke (accepts_of_no_refusal h)⟩

end

/-- Whatever is refused, wherever a run has got, leaves the world as it was. A parent link
that would close a cycle, a value that holds no method for instances and the removal of a
method that is not there change nothing at all, and any other value installs its method.
A message that is refused ends with its error, and nothing has changed but what lookups
remember and count. Hooks before a call would run first, so there must be none. Whenever a
message is not refused, code has started. -/
theorem refusals_change_nothing (h : σ) (past : List (Step Code σ)) (host : Host Code σ) (fuel : Nat) :
    let w := (World.initial h).after past
    (∀ op : Operation Code σ, op.Refused (op.apply w).1 → (op.apply w).2 = w) ∧
    (∀ k name x,
      ((w.defineFromValue k name x).1 = .ok () ↔
        ∃ address m, x = .object address (.method .instanceSide m)) ∧
      (∀ e, (w.defineFromValue k name x).1 = .error e →
        e = .invalidMethod name (x.typeName ++ " is not callable")) ∧
      ∀ address m, x = .object address (.method .instanceSide m) → w.Has (.ofClass k) →
        World.Installs k name (m.named name .instanceSide) w (w.defineFromValue k name x).2) ∧
    ∀ m, w.Unhooked m →
      (∀ e, w.refusal? m = some e → Refuses w e (host.performer (fuel + 1) m w)) ∧
      (w.refusal? m = none → ∃ e u, Starts host (host.performer fuel) w m e u) := by
  intro w
  have hw : w.Sound := World.sound_after h past
  refine ⟨fun op => Operation.apply_of_refused, fun k name x => ⟨?_, ?_, ?_⟩, fun m hb => ⟨?_, ?_⟩⟩
  · exact World.defineFromValue_eq_ok_iff x
  · intro e he
    have answer := congrArg Prod.fst (World.defineFromValue_of_error he)
    exact Except.error.inj (he.symm.trans answer)
  · rintro address m rfl hk
    exact World.installs_defineMethod hk name m
  · exact fun e he => deliver_refuses hw hb he host _
  · exact fun he => starts_of_no_refusal hw hb he host _

/-- A cycle is refused, and so are calls of an inherited method with too many arguments and
of the one above it. With one argument the method starts. -/
theorem refusals_of_inherited_method :
    let past : List (Step Nat Unit) :=
      [.perform (.newClass "A" {}), .perform (.newClass "B" {}), .perform (.inherit ⟨2⟩ ⟨1⟩),
        .perform (.defineMethod (.ofClass ⟨1⟩) "f" (.ofSignature .unary 0)),
        .perform (.instantiate ⟨2⟩)]
    let w := (World.initial ()).after past
    let idle : Host Nat Unit := ⟨fun _ _ _ => .done (.ok .unit), fun _ _ => .done (),
      fun _ _ _ => .done (), fun _ _ _ => .done (.ok .nil)⟩
    let on : Receiver := .ofInstance ⟨1⟩
    let m : Method Nat := .ofSignature .nullary 1
    ((w.inherit ⟨1⟩ ⟨2⟩).1 = .error (.inheritanceCycle "A" "B") ∧ (w.inherit ⟨1⟩ ⟨2⟩).2 = w) ∧
      World.Installs ⟨2⟩ "g" (m.named "g" .instanceSide) w
        (w.defineFromValue ⟨2⟩ "g" (.object 0 (.method .instanceSide m))).2 ∧
      Refuses w (.arityMismatch "f" 2 1) (idle.performer 1 (.call on "f" [.nil, .nil]) w) ∧
      Refuses w (.noSuperMethod "f" "B") (idle.performer 1 (.callSuper on "f" [.nil]) w) ∧
      ∃ e u, Starts idle (idle.performer 0) w (.call on "f" [.nil]) e u := by
  intro past w idle on m
  obtain ⟨operations, values, messages⟩ := refusals_change_nothing () past idle 0
  have bare : w.befores on "f" = [] := by decide +kernel
  have cycle : (w.inherit ⟨1⟩ ⟨2⟩).1 = .error (.inheritanceCycle "A" "B") := by decide +kernel
  refine ⟨⟨cycle, operations (.inherit ⟨1⟩ ⟨2⟩) ⟨_, cycle⟩⟩, ?_, ?_, ?_, ?_⟩
  · exact (values ⟨2⟩ "g" _).2.2 0 m rfl rfl
  · exact (messages (.call on "f" [.nil, .nil]) bare).1 _ (by decide +kernel)
  · exact (messages (.callSuper on "f" [.nil]) trivial).1 _ (by decide +kernel)
  · exact (messages (.call on "f" [.nil]) bare).2 (by decide +kernel)

end Run
end ObjectModel
