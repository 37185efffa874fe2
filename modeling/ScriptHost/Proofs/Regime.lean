import ScriptHost.Proofs.Operations

/-!
# Regimes

All work of a host leads from rest to rest.  What else it keeps depends on what the code of the host
may do.  A `Licence` says what programs may do, and a `Regime` what all work under a licence keeps:
something that holds of every world of rest, a relation between two worlds of rest while some machines
run, and a weaker one for work that ends the process.

A regime is lawful if it is kept by every chore, which is a step that neither a running machine nor a
collection takes by itself.  The rest follows by the recursion of programs, callbacks and collections.
-/

namespace ScriptHost.Bridge

open Machine (Rights)
open Run (Within)

variable {η φ α β : Type}

/-! ## Licences -/

/-- What the code of a host may do. -/
structure Licence (η : Type) where
  /-- The machines on which it may act. -/
  allows : VmId → Prop
  /-- How it may change what the host keeps for itself. -/
  keeps : (η → η) → Prop
  /-- Whether it may change bindings and payloads. -/
  serves : Prop
  /-- Whether it may collect garbage and end machines. -/
  sweeps : Prop
  /-- Whether it may call methods by their handles. -/
  calls : Prop

namespace Licence

/-- Everything may be done. -/
def free : Licence η := ⟨fun _ => True, fun _ => True, True, True, True⟩

/-- The machine at an address is one on which the code may act, if it is registered. -/
def Owns (l : Licence η) (w : World (Host η)) (a : Address) : Prop :=
  ∀ vm, w.registered.find? a = some vm → l.allows vm

/-- The operations that a licence permits. -/
def Permits (l : Licence η) : Operation η β → Prop
  | .keep f => l.keeps f
  | .registerClass _ _ | .registerMethod _ _ | .registerFinalizer _ _ _ => l.serves
  | .access x => l.allows x.vm
  | .listen vm _ | .makeCallHandle vm _ | .interpret vm _ _ => l.allows vm
  | .getHandle s | .setHandle s _ => l.allows s.vm
  | .release h => l.allows h.vm
  | .setNewForeignObject s _ _ | .setNewForeignStruct s _ _ | .setForeignStruct s _ =>
    l.serves ∧ l.allows s.vm
  | .call vm _ => l.calls ∧ l.allows vm
  | .collectGarbage vm => l.sweeps ∧ l.allows vm
  | .dispose vm | .drop vm => l.sweeps ∧ l.allows vm.id
  | _ => True

end Licence

/-- A program that a licence permits, whatever its operations return. -/
def Program.Obeys (l : Licence η) : Program η α → Prop
  | .done _ => True
  | .stop _ => True
  | .perform op next => l.Permits op ∧ ∀ outcome, (next outcome).Obeys l

/-- Code whose programs a licence permits, as long as machines on which it may act call them. -/
structure Code.Obeys (l : Licence η) (code : Code η) : Prop where
  write : ∀ f vm text, l.allows vm → (code.write f vm text).Obeys l
  error : ∀ f vm diagnostic, l.allows vm → (code.error f vm diagnostic).Obeys l
  resolve : ∀ f vm importer name, l.allows vm → (code.resolve f vm importer name).Obeys l
  load : ∀ f vm name, l.allows vm → (code.load f vm name).Obeys l
  bindClass : ∀ f vm module name, l.allows vm → (code.bindClass f vm module name).Obeys l
  bindMethod : ∀ f vm name, l.allows vm → (code.bindMethod f vm name).Obeys l
  method : ∀ f vm, l.allows vm → (code.method f vm).Obeys l
  allocator : ∀ f vm, l.allows vm → (code.allocator f vm).Obeys l
  classFinalizer : ∀ f object, (code.classFinalizer f object).Obeys l
  typedFinalizer : ∀ f payload, (code.typedFinalizer f payload).Obeys l

/-- Code whose programs have a property, as long as machines of `P` call them. -/
structure Code.Each (P : VmId → Prop) (Q : ∀ ⦃α : Type⦄, Program η α → Prop) (code : Code η) :
    Prop where
  write : ∀ f vm text, P vm → Q (code.write f vm text)
  error : ∀ f vm diagnostic, P vm → Q (code.error f vm diagnostic)
  resolve : ∀ f vm importer name, P vm → Q (code.resolve f vm importer name)
  load : ∀ f vm name, P vm → Q (code.load f vm name)
  bindClass : ∀ f vm module name, P vm → Q (code.bindClass f vm module name)
  bindMethod : ∀ f vm name, P vm → Q (code.bindMethod f vm name)
  method : ∀ f vm, P vm → Q (code.method f vm)
  allocator : ∀ f vm, P vm → Q (code.allocator f vm)
  classFinalizer : ∀ f object, Q (code.classFinalizer f object)
  typedFinalizer : ∀ f payload, Q (code.typedFinalizer f payload)

theorem Code.Obeys.each {l : Licence η} {code : Code η} (h : code.Obeys l) :
    code.Each l.allows fun _ p => p.Obeys l :=
  ⟨h.write, h.error, h.resolve, h.load, h.bindClass, h.bindMethod, h.method, h.allocator,
    h.classFinalizer, h.typedFinalizer⟩

theorem Licence.permits_free (op : Operation η β) : (Licence.free : Licence η).Permits op := by
  cases op <;> trivial

theorem Program.obeys_free (p : Program η α) : p.Obeys .free := by
  induction p with
  | done => trivial
  | stop => trivial
  | perform op next ih => exact ⟨Licence.permits_free op, ih⟩

theorem Code.obeys_free (code : Code η) : code.Obeys .free where
  write _ _ _ _ := Program.obeys_free _
  error _ _ _ _ := Program.obeys_free _
  resolve _ _ _ _ _ := Program.obeys_free _
  load _ _ _ _ := Program.obeys_free _
  bindClass _ _ _ _ _ := Program.obeys_free _
  bindMethod _ _ _ _ := Program.obeys_free _
  method _ _ _ := Program.obeys_free _
  allocator _ _ _ := Program.obeys_free _
  classFinalizer _ _ := Program.obeys_free _
  typedFinalizer _ _ := Program.obeys_free _

/-- The machine on which an operation runs a program or calls a method. -/
def Operation.runs? : Operation η β → Option VmId
  | .interpret vm _ _ | .call vm _ => some vm
  | _ => none

/-- The machine that an operation asks to abort. -/
def Operation.request? : Operation η β → Option VmId
  | .access x => x.request?
  | _ => none

/-- The slot that an operation writes, if it runs no program. -/
def Operation.destination? : Operation η β → Option Slot
  | .access x => x.destination?
  | .setHandle s _ | .setNewForeignObject s _ _ | .setNewForeignStruct s _ _ => some s
  | _ => none

/-- The rights cover what an operation writes by itself. -/
structure Operation.Granted (rights : VmId → Rights) (op : Operation η β) : Prop where
  request : ∀ vm, op.request? = some vm → (rights vm).requests
  destination : ∀ s, op.destination? = some s → (rights s.vm).writes s.index

theorem Operation.granted_of_all {rights : VmId → Rights} (h : ∀ vm, Rights.all.Le (rights vm))
    (op : Operation η β) : op.Granted rights :=
  ⟨fun vm _ => (h vm).requests trivial, fun s _ => (h s.vm).writes _ trivial⟩

/-! ## Regimes -/

/-- What all work under a licence keeps. -/
structure Regime (η : Type) extends Licence η where
  /-- What may be written of the machines. -/
  rights : VmId → Rights := fun _ => .all
  /-- What holds of worlds of rest. -/
  pre : World (Host η) → Prop
  /-- What holds between two worlds of rest, while some machines run. -/
  rel : List Address → World (Host η) → World (Host η) → Prop
  /-- What holds up to the end of the process. -/
  ends : World (Host η) → World (Host η) → Prop

/-- What deeds may do in a regime. -/
def Regime.powers (K : Regime η) : Powers := ⟨K.serves, K.rights⟩

/-! ## Chores -/

/-- A step that neither a running machine nor a collection takes by itself. -/
inductive Chore [Observer η] (K : Regime η) : World (Host η) → World (Host η) → Prop where
  | deed {w w' : World (Host η)} (h : Deed K.allows K.powers w w') : Chore K w w'
  | watch (w : World (Host η)) : Chore K w w.watch
  | keep (w : World (Host η)) {f : η → η} (h : K.keeps f) : Chore K w (w.keep f)
  | misreport (w : World (Host η)) {faults : List NativeFault}
      (h : faults.all NativeFault.isHonest = true) : Chore K w { w with faults }
  | create {w : World (Host η)} {a : Address} {service : ServiceId} (policy : LeakPolicy)
      (ha : a ∉ w.natives.keys) (hs : service ∈ w.services.keys) :
      Chore K w (w.withVm a service policy)
  | retire {w : World (Host η)} {vm : VmId} {a : Address} (hP : K.allows vm)
      (hlive : w.LiveAt vm a) (h : (w.vm vm).outstanding = []) : Chore K w (w.retired vm a)
  | discard {w : World (Host η)} {a : Address} (report? : Option FreeReport)
      (h : a ∉ w.registered.keys) (hheap : (w.machine a).heap.objects = .empty)
      (hswept : (w.machine a).swept = []) (hfinalizing : (w.machine a).finalizing = []) :
      Chore K w { w with natives := w.natives.erase a, freeReport? := report? }

/-- A step of a collection, or of the end of a machine. -/
inductive Sweeping (l : Licence η) : World (Host η) → World (Host η) → Prop where
  | sweep {w : World (Host η)} {a : Address} (ho : l.Owns w a) (ha : a ∈ w.natives.keys) :
      Sweeping l w (w.putMachine a (w.machine a).sweep.2)
  | drain {w : World (Host η)} {a : Address} (ha : a ∈ w.natives.keys)
      (h : a ∉ w.registered.keys) : Sweeping l w (w.putMachine a (w.machine a).drain.2)
  | finalize {w : World (Host η)} {a : Address} {dead : Machine.Dead} {rest : List Machine.Dead}
      (ho : l.Owns w a) (ha : a ∈ w.natives.keys) (h : (w.machine a).swept = dead :: rest) :
      Sweeping l w (w.finalized a dead)
  | bury {w : World (Host η)} {a : Address} {block : Machine.Block} {rest : List Machine.Block}
      (ho : l.Owns w a) (ha : a ∈ w.natives.keys) (h : (w.machine a).finalizing = block :: rest) :
      Sweeping l w (w.putMachine a (w.machine a).endFinalizer)

theorem Sweeping.step {l : Licence η} {w w' : World (Host η)} (h : Sweeping l w w') : Step w w' := by
  cases h with
  | sweep _ ha => exact .sweep ha
  | drain ha h => exact .drain ha h
  | finalize _ ha h => exact .finalize ha h
  | bury _ ha _ => exact .bury ha

theorem Chore.step [Observer η] {K : Regime η} {w w' : World (Host η)} (h : Chore K w w')
    (hs : Sound w) : Step w w' := by
  cases h with
  | deed h => exact h.step hs
  | watch => exact .watch w
  | keep _ => exact .idle w ..
  | misreport h => exact .misreport w h
  | create policy ha hs => exact .create policy ha hs
  | retire _ hlive h => exact .retire hlive h
  | discard report? h hheap hswept hfinalizing => exact .discard report? h hheap hswept hfinalizing

/-! ## Lawful regimes -/

namespace Regime

/-- Everything may be done, and nothing is kept besides coming to rest. -/
def free : Regime η :=
  { Licence.free with pre := fun _ => True, rel := fun _ _ _ => True, ends := fun _ _ => True }

/-- Work from one world of rest to another. -/
def Moves (K : Regime η) (active : List Address) (w w' : World (Host η)) : Prop :=
  Steady active w → K.pre w → Bridge.Moves active w w' ∧ K.pre w' ∧ K.rel active w w'

/-- Work from a world of rest to the end of the process. -/
def Reaches (K : Regime η) (active : List Address) (w w' : World (Host η)) : Prop :=
  Steady active w → K.pre w → Steps w w' ∧ K.ends w w'

/-- A regime that chores keep.  What holds of worlds of rest also holds behind each step of a
collection. -/
structure Lawful [Observer η] (K : Regime η) : Prop where
  refl : ∀ active w, K.rel active w w
  trans : ∀ {active w₁ w₂ w₃}, K.rel active w₁ w₂ → K.rel active w₂ w₃ → K.rel active w₁ w₃
  weaken : ∀ {active w w'}, K.pre w' → K.rel active w w' → K.ends w w'
  append : ∀ {active w₁ w₂ w₃}, K.rel active w₁ w₂ → K.ends w₂ w₃ → K.ends w₁ w₃
  /-- What runs of more machines keep is kept. -/
  leave : ∀ {a active w w'}, K.rel (a :: active) w w' → K.rel active w w'
  chore : ∀ {w w'}, Sound w → K.pre w → Chore K w w' →
    K.pre w' ∧ ∀ active, K.rel active w w'
  sweeping : ∀ {w w'}, Sound w → K.pre w → Sweeping K.toLicence w w' → K.pre w'

/-- A regime that collections keep, step by step. -/
def Sweeps (K : Regime η) : Prop :=
  ∀ ⦃w w' : World (Host η)⦄, Sound w → K.pre w → Sweeping K.toLicence w w' →
    ∀ active, K.rel active w w'

theorem lawful_free [Observer η] : (free : Regime η).Lawful where
  refl _ _ := trivial
  trans _ _ := trivial
  weaken _ _ := trivial
  append _ _ := trivial
  leave _ := trivial
  chore _ _ _ := ⟨trivial, fun _ => trivial⟩
  sweeping _ _ _ := trivial

section

variable [Observer η] {K : Regime η} (k : K.Lawful) {active : List Address}
include k

theorem Lawful.span : Span (K.Moves active : World (Host η) → World (Host η) → Prop)
    (K.Reaches active) where
  refl w _ hp := ⟨(span_moves active).refl w, hp, k.refl active w⟩
  weaken h hw hp := by
    obtain ⟨hmoves, hp', hrel⟩ := h hw hp
    exact ⟨(hmoves hw).1, k.weaken hp' hrel⟩
  trans h h' hw hp := by
    obtain ⟨hmoves, hmid, hrel⟩ := h hw hp
    obtain ⟨hmoves', hp', hrel'⟩ := h' (hmoves hw).2.1 hmid
    exact ⟨(span_moves active).trans hmoves hmoves', hp', k.trans hrel hrel'⟩
  append h h' hw hp := by
    obtain ⟨hmoves, hmid, hrel⟩ := h hw hp
    obtain ⟨hsteps, hends⟩ := h' (hmoves hw).2.1 hmid
    exact ⟨(hmoves hw).1.trans hsteps, k.append hrel hends⟩

/-- A chore that leads to a world of rest. -/
theorem Lawful.moves_of_chore {w w' : World (Host η)} (h : Chore K w w')
    (hmoves : Bridge.Moves active w w') : K.Moves active w w' :=
  fun hw hp => ⟨hmoves, (k.chore hw.sound hp h).imp_right fun hrel => hrel active⟩

/-- Deeds lead to worlds of rest. -/
theorem Lawful.moves_of_deeds (active : List Address) {w w' : World (Host η)}
    (h : Deeds K.allows K.powers w w') : K.Moves active w w' := by
  intro hw hp
  refine ⟨h.calm.moves active, ?_⟩
  have hdeeds := h hw.sound
  clear h
  induction hdeeds with
  | refl => exact ⟨hp, k.refl active w⟩
  | @tail w₁ w₂ hfirst hlast ih =>
    obtain ⟨hp₁, hrel⟩ := ih
    have hs₁ : Sound w₁ := (Deeds.calm (fun _ => hfirst) hw.sound).1.sound hw.sound
    obtain ⟨hp₂, hrel'⟩ := k.chore hs₁ hp₁ (.deed hlast)
    exact ⟨hp₂, k.trans hrel (hrel' active)⟩

theorem Lawful.within_of_deeds {x : Run (World (Host η)) φ α} {w : World (Host η)}
    (h : Within (Deeds K.allows K.powers) (Deeds K.allows K.powers) x w) :
    Within (K.Moves active) (K.Reaches active) x w :=
  h.mono (k.moves_of_deeds active) fun hd => k.span.weaken (k.moves_of_deeds active hd)

end

/-- A world that is none of rest, or of which a regime says nothing, need not be considered. -/
theorem within_of_steady {K : Regime η} {active : List Address} {x : Run (World (Host η)) φ α}
    {w : World (Host η)}
    (h : Steady active w → K.pre w → Within (K.Moves active) (K.Reaches active) x w) :
    Within (K.Moves active) (K.Reaches active) x w :=
  ⟨fun hw hp => (h hw hp).1 hw hp, fun hend hw hp => (h hw hp).2 hend hw hp⟩

/-- A computation without a final end, by the world behind it. -/
theorem Lawful.within_of_moves [Observer η] {K : Regime η} (k : K.Lawful)
    {active : List Address} {x : Run (World (Host η)) φ α} {w : World (Host η)}
    (h : Steady active w → K.pre w → K.Moves active w (x w).2) :
    Within (K.Moves active) (K.Reaches active) x w :=
  within_of_steady fun hw hp => Within.of_rel k.span (h hw hp)

end Regime

end ScriptHost.Bridge
