import ObjectModel.Proofs.Program.SuperCall

/-!
# Methods that have been built

A method is made of a signature and a code, or as a reader or a writer, and is named
when it is defined. There is no other way to one. A program that makes its methods so has
no others in its world: not in tables, variables or caches, and not in the answers it gets.
-/
namespace ObjectModel
variable {Code σ α : Type}

/-- All entries of a table have a property. -/
def Table.All (P : α → Prop) (t : Table α) : Prop := ∀ name a, t.find? name = some a → P a

/-- All records of a registry have a property. -/
def Registry.All (P : α → Prop) (r : Registry α) : Prop := ∀ number a, r.find? number = some a → P a

namespace Table
variable {P : α → Prop} {t : Table α}

theorem all_empty (P : α → Prop) : All P {} := by
  intro name a h
  contradiction

theorem All.insert (ht : t.All P) {a : α} (ha : P a) (name : String) : (t.insert name a).All P := by
  intro other b hb
  rw [find?_insert] at hb
  split at hb
  · exact Option.some.inj hb ▸ ha
  · exact ht other b hb

theorem All.erase (ht : t.All P) (name : String) : (t.erase name).All P := by
  intro other b hb
  rw [find?_erase] at hb
  split at hb
  · contradiction
  · exact ht other b hb

end Table

namespace Registry
variable {P : α → Prop} {r : Registry α}

theorem all_empty (P : α → Prop) : All P {} := by
  intro number a h
  simp [find?] at h

theorem All.add (hr : r.All P) {a : α} (ha : P a) : (r.add a).All P := by
  intro number b hb
  rw [find?_add] at hb
  split at hb
  · exact Option.some.inj hb ▸ ha
  · exact hr number b hb

theorem All.modify (hr : r.All P) {f : α → α} (hf : ∀ a, P a → P (f a)) (number : Nat) :
    (r.modify number f).All P := by
  intro other b hb
  rw [find?_modify] at hb
  split at hb
  · obtain ⟨a, ha, rfl⟩ := Option.map_eq_some_iff.mp hb
    exact hf a (hr other a ha)
  · exact hr other b hb

theorem All.getD (hr : r.All P) {a : α} (ha : P a) (number : Nat) :
    P ((r.find? number).getD a) := by
  cases h : r.find? number with
  | none => exact ha
  | some b => exact hr number b h

theorem all_map {β : Type} {Q : β → Prop} {f : α → β} (hf : ∀ a, Q (f a) ↔ P a) :
    (r.map f).All Q ↔ r.All P := by
  constructor
  · intro h number a ha
    refine (hf a).mp (h number (f a) ?_)
    rw [find?_map, ha]
    rfl
  · intro h number b hb
    rw [find?_map] at hb
    obtain ⟨a, ha, rfl⟩ := Option.map_eq_some_iff.mp hb
    exact (hf a).mpr (h number a ha)

end Registry

/-- A method that has been made by one of the ways there are. -/
inductive Method.Built : Method Code → Prop
  | ofSignature (signature : Signature) (code : Code) : Built (.ofSignature signature code)
  | reader (name : String) : Built (.reader name)
  | writer (name : String) : Built (.writer name)
  | named {m : Method Code} (h : m.Built) (name : String) (side : Side) : Built (m.named name side)

/-- A writer takes its argument under whatever name it has been defined. -/
theorem Method.Built.signature_of_writer {m : Method Code} (h : m.Built) {x : String}
    (hx : m.body = .writer x) : m.signature = .receiverUnary := by
  induction h with
  | ofSignature signature code => cases hx
  | reader name => cases hx
  | writer name => rfl
  | named h name side ih => exact ih hx

/-- A method inside a value has been built. -/
def Payload.Built : Payload Code → Prop
  | .method _ m => m.Built
  | _ => True

def Value.Built : Value Code → Prop
  | .nil => True
  | .object _ p => p.Built

def Reply.Built : Reply Code → Prop
  | .existing v => v.Built
  | .fresh p => p.Built

theorem Reply.Built.box {r : Reply Code} (h : r.Built) (address : Nat) : (r.box address).1.Built := by
  cases r <;> exact h

theorem Value.Built.method? {v : Value Code} (h : v.Built) {side : Side} {m : Method Code}
    (hm : v.method? side = some m) : m.Built := by
  unfold Value.method? at hm
  split at hm
  · split at hm
    · exact Option.some.inj hm ▸ h
    · cases hm
  · cases hm

/-- The variables of a store have built values. -/
abbrev Variables.Built (s : Variables Code) : Prop := Table.All Value.Built s

theorem Variables.Built.get {s : Variables Code} (hs : s.Built) (name : String) :
    (s.get name).Built := by
  unfold Variables.get
  cases h : s.find? name with
  | none => trivial
  | some v => exact hs name v h

abbrev MethodDictionary.Built (t : MethodDictionary Code) : Prop := Table.All Method.Built t

theorem MethodDictionary.Built.define {t : MethodDictionary Code} (ht : t.Built) {m : Method Code}
    (hm : m.Built) (name : String) (side : Side) : (t.define (m.named name side)).Built :=
  Table.All.insert ht (hm.named name side) name

def ClassRecord.Built (c : ClassRecord Code) : Prop := ∀ side, (c.table side).Built

structure ObjectState.Built (s : ObjectState Code) : Prop where
  methods : s.methods.Built
  singletons : s.singletonMethods.Built
  vars : s.vars.Built

def InstanceRecord.Built (r : InstanceRecord Code) : Prop := r.state.Built

/-- What is said of the methods of a class only, another class with the same methods has. -/
theorem ClassRecord.Built.congr {c d : ClassRecord Code} (hc : c.Built) (hm : d.methods = c.methods)
    (hs : d.classMethods = c.classMethods) : d.Built := by
  intro side
  cases side with
  | instanceSide => exact (congrArg MethodDictionary.Built hm).mpr (hc .instanceSide)
  | classSide => exact (congrArg MethodDictionary.Built hs).mpr (hc .classSide)

theorem ClassRecord.built_of_empty {c : ClassRecord Code} (hm : c.methods = {})
    (hc : c.classMethods = {}) : c.Built := by
  intro side
  cases side with
  | instanceSide => exact (congrArg MethodDictionary.Built hm).mpr (Table.all_empty _)
  | classSide => exact (congrArg MethodDictionary.Built hc).mpr (Table.all_empty _)

theorem ObjectState.built_of_empty {s : ObjectState Code} (hm : s.methods = {})
    (hs : s.singletons = none) (hv : s.vars = {}) : s.Built := by
  refine ⟨hm ▸ Table.all_empty _, ?_, hv ▸ Table.all_empty _⟩
  rw [singletonMethods, hs]
  exact Table.all_empty _

theorem InstanceRecord.built_default : (default : InstanceRecord Code).Built :=
  ObjectState.built_of_empty rfl rfl rfl

namespace World
variable {P : σ → Prop} {w v : World Code σ}

/-- All methods that a program can get hold of have been built, and what the host keeps has a
property. -/
structure Built (P : σ → Prop) (w : World Code σ) : Prop where
  classes : w.classes.All ClassRecord.Built
  instances : w.instances.All InstanceRecord.Built
  stores : w.stores.All Variables.Built
  host : P w.host

theorem built_initial {h : σ} (hh : P h) : (initial h : World Code σ).Built P :=
  ⟨Registry.all_empty _, Registry.all_empty _, Registry.all_empty _, hh⟩

namespace Built
variable (hw : w.Built P)
include hw

theorem classAt (k : ClassId) : (w.classAt k).Built :=
  hw.classes.getD (ClassRecord.built_of_empty rfl rfl) k.number

theorem stateAt (i : InstanceId) : (w.stateAt i).Built :=
  hw.instances.getD InstanceRecord.built_default i.number

theorem variablesOf (ref : StoreRef) : (w.variablesOf ref).Built := by
  cases ref with
  | instanceVars i => exact (hw.stateAt i).vars
  | classVars on => exact hw.stores.getD (Table.all_empty _) _

theorem tableOn (on : Receiver) (level : Level) : (w.tableOn on level).Built := by
  cases on with
  | ofInstance i =>
    cases level with
    | singleton => exact (hw.stateAt i).singletons
    | own => exact (hw.stateAt i).methods
    | ofClass k => exact hw.classAt k .instanceSide
  | ofClass c =>
    cases level with
    | ofClass k => exact hw.classAt k .classSide
    | _ => exact Table.all_empty _

theorem of_definitionOn? {on : Receiver} {name : String} {level : Level} {d : Definition Code}
    (h : w.definitionOn? on name level = some d) : d.method.Built :=
  hw.tableOn on level name d.method (definitionOn?_eq_some.mp h).2

theorem of_nearest? {on : Receiver} {name : String} {d : Definition Code}
    (h : w.nearest? on name = some d) : d.method.Built :=
  (definitionOn?_of_nearest? h).elim fun _ => hw.of_definitionOn?

theorem of_superDefinition? {on : Receiver} {name : String} {d : Definition Code}
    (h : w.superDefinition? on name = some d) : d.method.Built :=
  (definitionOn?_of_superDefinition? h).elim fun _ => hw.of_definitionOn?

theorem of_records (hc : v.classes = w.classes) (hi : v.instances = w.instances)
    (hs : v.stores = w.stores) (hh : P v.host) : v.Built P :=
  ⟨hc ▸ hw.classes, hi ▸ hw.instances, hs ▸ hw.stores, hh⟩

theorem recalled (h : Recalled w v) : v.Built P := by
  have classes : ∀ c : ClassRecord Code, c.bare.Built ↔ c.Built := fun c =>
    forall_congr' fun side => by rw [table_bare]
  have instances : ∀ r : InstanceRecord Code, r.bare.Built ↔ r.Built := fun r =>
    ⟨fun h => ⟨h.methods, h.singletons, h.vars⟩, fun h => ⟨h.methods, h.singletons, h.vars⟩⟩
  have sameClasses : v.classes.map ClassRecord.bare = w.classes.map .bare := congrArg (·.classes) h.same
  have sameInstances : v.instances.map InstanceRecord.bare = w.instances.map .bare :=
    congrArg (·.instances) h.same
  have sameStores : v.stores = w.stores := congrArg (·.stores) h.same
  have sameHost : v.host = w.host := congrArg (·.host) h.same
  refine ⟨?_, ?_, sameStores ▸ hw.stores, sameHost ▸ hw.host⟩
  · rw [← Registry.all_map classes, sameClasses, Registry.all_map classes]
    exact hw.classes
  · rw [← Registry.all_map instances, sameInstances, Registry.all_map instances]
    exact hw.instances

theorem modifyClass {f : ClassRecord Code → ClassRecord Code} (hf : ∀ c, c.Built → (f c).Built)
    (k : ClassId) : (w.modifyClass k f).Built P :=
  { hw with classes := hw.classes.modify hf k.number }

theorem modifyInstance {f : InstanceRecord Code → InstanceRecord Code}
    (hf : ∀ r, r.Built → (f r).Built) (i : InstanceId) : (w.modifyInstance i f).Built P :=
  { hw with instances := hw.instances.modify hf i.number }

theorem modifyState {f : ObjectState Code → ObjectState Code} (hf : ∀ s, s.Built → (f s).Built)
    (i : InstanceId) : (w.modifyState i f).Built P :=
  hw.modifyInstance (f := fun r => { r with state := f r.state }) (fun r hr => hf r.state hr) i

theorem stamp (on : Receiver) : (w.stamp on).Built P := by
  have ticked : w.ticked.Built P := hw.of_records rfl rfl rfl hw.host
  cases on with
  | ofInstance i =>
    exact ticked.modifyState (f := .stamped (w.clock.latest + 1))
      (fun _ hs => ⟨hs.methods, hs.singletons, hs.vars⟩) i
  | ofClass k =>
    exact ticked.modifyClass (f := .stamped (w.clock.latest + 1)) (fun _ hc => hc.congr rfl rfl) k

theorem modifyMethods {f : MethodDictionary Code → MethodDictionary Code}
    (hf : ∀ t, MethodDictionary.Built t → (f t).Built) (on : Receiver) :
    (w.modifyMethods on f).Built P := by
  cases on with
  | ofInstance i =>
    exact hw.modifyState (f := fun s => { s with methods := f s.methods })
      (fun s hs => ⟨hf _ hs.methods, hs.singletons, hs.vars⟩) i
  | ofClass k =>
    refine hw.modifyClass (f := fun c => { c with methods := f c.methods }) (fun c hc side => ?_) k
    cases side with
    | instanceSide => exact hf _ (hc .instanceSide)
    | classSide => exact hc .classSide

theorem defineMethod {m : Method Code} (hm : m.Built) (on : Receiver) (name : String) :
    (w.defineMethod on name m).Built P :=
  (hw.modifyMethods (fun _ ht => ht.define hm name _) on).stamp on

theorem defineAll {methods : List (String × Method Code)} (hm : ∀ d ∈ methods, d.2.Built)
    (k : ClassId) : (w.defineAll k methods).Built P :=
  List.foldlRecOn methods _ hw fun _ hv d hd => hv.defineMethod (hm d hd) _ _

theorem modifyHooks (on : Receiver) (f : Hooks Code → Hooks Code) : (w.modifyHooks on f).Built P := by
  cases on with
  | ofInstance i =>
    exact hw.modifyState (f := fun s => { s with hooks := f s.hooks })
      (fun _ hs => ⟨hs.methods, hs.singletons, hs.vars⟩) i
  | ofClass k =>
    exact hw.modifyClass (f := fun c => { c with hooks := f c.hooks }) (fun _ hc => hc.congr rfl rfl) k

theorem defineClassMethod {m : Method Code} (hm : m.Built) (k : ClassId) (name : String) :
    (w.defineClassMethod k name m).Built P := by
  refine (hw.modifyClass (fun c hc side => ?_) k).stamp (.ofClass k)
  cases side with
  | instanceSide => exact hc .instanceSide
  | classSide => exact (hc .classSide).define hm name _

theorem defineSingleton {m : Method Code} (hm : m.Built) (i : InstanceId) (name : String) :
    (w.defineSingleton i name m).Built P := by
  refine (hw.modifyState (fun s hs => ?_) i).stamp (.ofInstance i)
  exact ⟨hs.methods, hs.singletons.define hm name _, hs.vars⟩

theorem addAlias (on : Receiver) (new old : String) : (w.addAlias on new old).Built P := by
  cases on with
  | ofInstance i =>
    refine (hw.modifyState (f := fun s => { s with aliases := s.aliases.insert new old }) ?_ i).stamp
      (.ofInstance i)
    exact fun s hs => ⟨hs.methods, hs.singletons, hs.vars⟩
  | ofClass k =>
    exact (hw.modifyClass (f := fun c => { c with aliases := c.aliases.insert new old })
      (fun _ hc => hc.congr rfl rfl) k).stamp (.ofClass k)

theorem setHandler (on : Receiver) (code : Code) : (w.setHandler on code).Built P := by
  cases on with
  | ofInstance i =>
    exact hw.modifyState (f := fun s => { s with handler := some code })
      (fun _ hs => ⟨hs.methods, hs.singletons, hs.vars⟩) i
  | ofClass k =>
    exact hw.modifyClass (f := fun c =>
      { c with handler := some code, flags := { c.flags with hasHandler := true } })
      (fun _ hc => hc.congr rfl rfl) k

theorem inherit (child parent : ClassId) : (w.inherit child parent).2.Built P := by
  unfold World.inherit
  split
  · exact hw
  · refine (hw.modifyClass (fun c hc => ?_) child).stamp (.ofClass child)
    exact hc.congr rfl rfl

theorem newClass (name : String) (c : Configuration) : (w.newClass name c).2.Built P :=
  { hw with
    classes := hw.classes.add (ClassRecord.built_of_empty rfl rfl)
    stores := hw.stores.add (Table.all_empty _) }

theorem instantiate (k : ClassId) : (w.instantiate k).2.Built P := by
  have fresh : (w.freshState k).2.Built P := by
    unfold freshState
    split
    · exact hw.of_records rfl rfl rfl hw.host
    · exact hw
  rw [instantiate_eq]
  exact { fresh with instances := fresh.instances.add (ObjectState.built_of_empty rfl rfl rfl) }

theorem retire (i : InstanceId) : (w.retire i).2.Built P := by
  have emptied : (w.modifyInstance i fun r => { r with state := .new, pool := none }).Built P :=
    hw.modifyInstance (f := fun r => { r with state := .new, pool := none })
      (fun _ _ => ObjectState.built_of_empty rfl rfl rfl) i
  simp only [World.retire]
  split
  · exact emptied.of_records rfl rfl rfl hw.host
  · exact emptied

theorem putVariables (ref : StoreRef) {s : Variables Code} (hs : s.Built) :
    (w.putVariables ref s).Built P := by
  cases ref with
  | instanceVars i =>
    exact hw.modifyState (f := fun r => { r with vars := s })
      (fun _ hr => ⟨hr.methods, hr.singletons, hs⟩) i
  | classVars on => exact { hw with stores := hw.stores.modify (fun _ _ => hs) _ }

end Built
end World

/-- What an operation on a store is given has been built. -/
def StoreOp.Built : StoreOp Code → Prop
  | .set _ v => v.Built
  | .update _ f => ∀ v, v.Built → (f v).Built
  | _ => True

/-- What an operation on a store answers has been built. -/
def StoreOp.Yields : (op : StoreOp Code) → op.Answer → Prop
  | .set _ _, answer => ∀ v, answer = some v → v.Built
  | .remove _, answer => ∀ v, answer = some v → v.Built
  | .clear, _ => True
  | .update _ _, v => v.Built

theorem StoreOp.Built.apply {op : StoreOp Code} (h : op.Built) {s : Variables Code} (hs : s.Built)
    (address : Nat) :
    op.Yields (op.apply s address).1 ∧ (op.apply s address).2.1.Built := by
  cases op with
  | set name v => exact ⟨hs name, hs.insert h name⟩
  | remove name => exact ⟨hs name, hs.erase name⟩
  | clear => exact ⟨trivial, Table.all_empty _⟩
  | update name f =>
    have made : ((f (s.get name)).box address).1.Built := (h _ (hs.get name)).box address
    exact ⟨made, hs.insert made name⟩

namespace Operation
variable {P : σ → Prop} {w : World Code σ}

/-- What an operation is given has been built. -/
def Built (P : σ → Prop) : Operation Code σ → Prop
  | writeHost s => P s
  | box r => r.Built
  | defineMethod _ _ m | defineClassMethod _ _ m | defineSingleton _ _ m => m.Built
  | defineFromValue _ _ v => v.Built
  | store _ op => op.Built
  | _ => True

/-- What an operation answers has been built. -/
def Yields (P : σ → Prop) : (op : Operation Code σ) → op.Answer → Prop
  | readHost, s => P s
  | box _, v => v.Built
  | store _ op, answer => op.Yields answer
  | resolve _ _, answer => ∀ m, answer = some m → Method.Built m
  | acquire _, s => s.Built
  | query (.variablesOf _), s => Variables.Built s
  | _, _ => True

/-- The methods that an operation defines one after the other have been built. -/
theorem Built.definitions? {op : Operation Code σ} {k : ClassId}
    {methods : List (String × Method Code)} (hop : op.Built P)
    (h : op.definitions? = some (k, methods)) : ∀ d ∈ methods, d.2.Built := by
  cases op with
  | defineFromValue a name v =>
    obtain ⟨rfl, rfl⟩ := Prod.mk.inj (Option.some.inj h)
    intro d hd
    obtain ⟨m, hm, rfl⟩ := List.mem_map.mp hd
    exact Value.Built.method? hop (Option.mem_toList.mp hm)
  | defineReaders a names | defineWriters a names | defineAccessors a names =>
    obtain ⟨rfl, rfl⟩ := Prod.mk.inj (Option.some.inj h)
    simp only [List.forall_mem_append, List.forall_mem_map]
    first
    | exact fun x _ => .reader x
    | exact fun x _ => .writer x
    | exact ⟨fun x _ => .reader x, fun x _ => .writer x⟩
  | _ => contradiction

variable {op : Operation Code σ} (hop : op.Built P) (hw : w.Built P)
include hop hw

/-- A world with built methods only stays so. -/
theorem Built.apply : (op.apply w).2.Built P := by
  cases op with
  | defineFromValue | defineReaders | defineWriters | defineAccessors =>
    rw [apply_of_definitions? rfl]
    exact hw.defineAll (Built.definitions? hop rfl) _
  | writeHost s => exact hw.of_records rfl rfl rfl hop
  | newClass name c => exact hw.newClass name c
  | inherit child parent => exact hw.inherit child parent
  | instantiate k => exact hw.instantiate k
  | defineMethod on name m => exact hw.defineMethod hop on name
  | defineClassMethod k name m => exact hw.defineClassMethod hop k name
  | defineSingleton i name m => exact hw.defineSingleton hop i name
  | removeMethod on name =>
    simp only [Operation.apply, World.removeMethod]
    split
    · exact (hw.modifyMethods (fun _ ht => ht.erase name) on).stamp on
    · exact hw
  | addAlias on new old => exact hw.addAlias on new old
  | addBefore on name code => exact hw.modifyHooks on fun h => h.addBefore name code
  | addAfter on name code => exact hw.modifyHooks on fun h => h.addAfter name code
  | setHandler on code => exact hw.setHandler on code
  | usePool k p =>
    exact hw.modifyClass (f := fun c =>
      { c with pool := some p, flags := { c.flags with pooled := true } })
      (fun _ hc => hc.congr rfl rfl) k
  | store ref op =>
    have stored := (StoreOp.Built.apply hop (hw.variablesOf ref) w.nextAddress).2
    exact (hw.putVariables ref stored).of_records rfl rfl rfl (hw.putVariables ref stored).host
  | responds on name =>
    cases on with
    | ofInstance i => exact hw.recalled (World.recalled_lookUpInstance w i _)
    | ofClass k => exact hw.recalled (World.recalled_lookUpFrom w _ k name)
  | resolve i name => exact hw.recalled (World.recalled_lookUpInstance w i _)
  | retire i => exact hw.retire i
  | _ => exact hw.of_records rfl rfl rfl hw.host

/-- What an operation answers in a sound world has been built. -/
theorem Built.yields (hs : w.Sound) : op.Yields P (op.apply w).1 := by
  cases op with
  | readHost => exact hw.host
  | box r => exact Reply.Built.box hop w.nextAddress
  | store ref op => exact (StoreOp.Built.apply hop (hw.variablesOf ref) w.nextAddress).1
  | resolve i name =>
    intro m hm
    have found : ((w.lookUp (.ofInstance i) (w.target (.ofInstance i) name)).1.map (·.method)) =
        some m := hm
    rw [hs.lookUp_fst] at found
    obtain ⟨d, hd, rfl⟩ := Option.map_eq_some_iff.mp found
    exact hw.of_nearest? hd
  | acquire p =>
    have fresh : (w.acquire p).1 = .new := Pool.acquire_fst _
    rw [Operation.Yields, Operation.apply, fresh]
    exact ObjectState.built_of_empty rfl rfl rfl
  | query q =>
    cases q with
    | variablesOf ref => exact hw.variablesOf ref
    | _ => trivial
  | _ => trivial

end Operation

/-- What a step is given has been built. -/
def Step.Built (P : σ → Prop) : Step Code σ → Prop
  | perform op => op.Built P
  | assign _ _ v => v.Built
  | _ => True

namespace World.Built
variable {P : σ → Prop} {w : World Code σ}

theorem next (hw : w.Built P) {s : Step Code σ} (hs : s.Built P) : (s.next w).Built P := by
  cases s with
  | perform op => exact Operation.Built.apply hs hw
  | lookUp on name => exact hw.recalled (recalled_lookUp w on name)
  | lookUpSuper on name => exact hw.recalled (recalled_lookUpSuper w on name)
  | assign i name v =>
    exact hw.modifyState (f := fun s => { s with vars := s.vars.insert name v })
      (fun _ h => ⟨h.methods, h.singletons, h.vars.insert hs name⟩) i
  | _ => exact hw.of_records rfl rfl rfl hw.host

end World.Built

/-- What a message passes on has been built. -/
def Message.Built : Message Code → Prop
  | .call _ _ args | .callBare _ _ args | .callSuper _ _ args => ∀ v ∈ args, Value.Built v
  | .invoke m _ args => m.Built ∧ ∀ v ∈ args, Value.Built v

/-- A value that a message answers has been built. -/
def Outcome.Built (outcome : Outcome Code) : Prop := ∀ v, outcome = .ok v → v.Built

/-- A script passes on what has been built, as long as what it is answered has been, and then
ends with an answer of which something holds. -/
def Script.Built (P : σ → Prop) (Q : α → Prop) : Script Code σ α → Prop
  | done a => Q a
  | operate op next => op.Built P ∧ ∀ answer, op.Yields P answer → (next answer).Built P Q
  | send m next => m.Built ∧ ∀ outcome, Outcome.Built outcome → (next outcome).Built P Q

/-- The code of a host passes on and hands back what has been built, as long as its arguments
have been. -/
structure Host.Built (P : σ → Prop) (host : Host Code σ) : Prop where
  body : ∀ code on args, (∀ v ∈ args, Value.Built v) →
    (host.body code on args).Built P fun answer => ∀ r, answer = .ok r → Reply.Built r
  before : ∀ code args, (∀ v ∈ args, Value.Built v) → (host.before code args).Built P fun _ => True
  after : ∀ code x args, x.Built → (∀ v ∈ args, Value.Built v) →
    (host.after code x args).Built P fun _ => True
  missing : ∀ code name args, (∀ v ∈ args, Value.Built v) →
    (host.missing code name args).Built P Outcome.Built

end ObjectModel
