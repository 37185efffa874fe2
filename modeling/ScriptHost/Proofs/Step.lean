import Mathlib.Logic.Relation
import ScriptHost.Proofs.Frame
import ScriptHost.Proofs.HostProgram

/-!
# Steps of the world

Every run of a host is made of a few kinds of steps.  A machine is entered, works, has its slots
written, makes or releases a handle, bears a foreign object, is collected, finalizes a swept object,
or is freed piece by piece; beside that, services, listeners and what the host keeps change.  `Step`
lists them, each with what must hold before it and with the world behind it.

Steps are smaller than operations, and steps of several machines may follow each other in any order,
so that what all steps preserve holds between the operations of one host, inside its callbacks, and
however the work of several threads on their own machines is interleaved.
-/

namespace ScriptHost.Bridge

open Machine (Frame Birth Dead Block ObjectId)

variable {η : Type}

namespace World

/-- A machine is alive and lies at an address. -/
def LiveAt (w : World η) (vm : VmId) (a : Address) : Prop :=
  (w.vm vm).isAlive = true ∧ (w.vm vm).address = a

/-- A call into a machine is noted. -/
def note (w : World η) (c : NativeCall) : World η := { w with calls := c :: w.calls }

/-- A new machine is made and registered. -/
def withVm (w : World η) (a : Address) (service : ServiceId) (policy : LeakPolicy) : World η :=
  { w with
    calls := .create a :: w.calls
    natives := w.natives.insert a ⟨.create 0, true⟩
    nextVmId := w.nextVmId + 1
    registered := w.registered.insert a w.nextVmId
    vms := w.vms.insert w.nextVmId ⟨a, true, service, policy, .none, []⟩ }

/-- A new handle is made, adopted, and handed to the host. -/
def withHandle (w : World (Host η)) (vm : VmId) (a x : Address) (target : Machine.HandleTarget) :
    World (Host η) :=
  { w with
    calls := .makeHandle a x :: w.calls
    natives := (w.putMachine a ((w.machine a).storeHandle x target)).natives
    handles := w.handles.insert x ⟨w.nextHandleId, a⟩
    nextHandleId := w.nextHandleId + 1
    vms := w.vms.modify vm fun r =>
      { r with outstanding := r.outstanding ++ [(x, w.nextHandleId)] }
    host := { w.host with handles := w.host.handles ++ [⟨x, w.nextHandleId, vm⟩] } }

/-- A handle of a machine that lies at `a` is released. -/
def withoutHandle (w : World η) (h : CallHandle) (a : Address) : World η :=
  { w with
    calls := .releaseHandle a h.address :: w.calls
    natives := (w.putMachine a ((w.machine a).releaseHandle h.address)).natives
    handles := w.handles.erase h.address
    vms := w.vms.modify h.vm fun r =>
      { r with outstanding := r.outstanding.filter fun e => e ≠ (h.address, h.id) } }

/-- A machine is not used any more, and about to be freed. -/
def retired (w : World η) (vm : VmId) (a : Address) : World η :=
  { w with
    calls := .free a :: w.calls
    vms := w.vms.modify vm fun r => { r with isAlive := false }
    registered := w.registered.erase a }

theorem vm_withVm_self (w : World η) (a : Address) (service : ServiceId) (policy : LeakPolicy) :
    (w.withVm a service policy).vm w.nextVmId = ⟨a, true, service, policy, .none, []⟩ := by
  simp [vm, withVm]

theorem vm_withVm_ne (w : World η) (a : Address) (service : ServiceId) (policy : LeakPolicy)
    {id : VmId} (h : id ≠ w.nextVmId) : (w.withVm a service policy).vm id = w.vm id := by
  simp [vm, withVm, Table.find?_insert_ne _ _ h]

theorem liveAt_withVm (w : World η) (a : Address) (service : ServiceId) (policy : LeakPolicy)
    (id : VmId) (b : Address) : (w.withVm a service policy).LiveAt id b ↔
      (id = w.nextVmId ∧ b = a) ∨ (id ≠ w.nextVmId ∧ w.LiveAt id b) := by
  by_cases h : id = w.nextVmId
  · subst h
    rw [LiveAt, vm_withVm_self]
    constructor
    · rintro ⟨-, rfl⟩
      exact Or.inl ⟨rfl, rfl⟩
    · rintro (⟨-, rfl⟩ | ⟨hne, -⟩)
      · exact ⟨rfl, rfl⟩
      · exact absurd rfl hne
  · simp [LiveAt, vm_withVm_ne w a service policy h, h]

/-- Where nothing lies, a blank machine is found. -/
theorem machine_of_not_mem {w : World η} {a : Address} (ha : a ∉ w.natives.keys) :
    w.machine a = .create 0 := by
  rw [machine, Table.find?_eq_none_iff.2 ha]

/-- A new machine is blank. -/
theorem machine_withVm {w : World η} {a : Address} (ha : a ∉ w.natives.keys)
    (service : ServiceId) (policy : LeakPolicy) (b : Address) :
    (w.withVm a service policy).machine b = w.machine b := by
  by_cases hb : b = a
  · subst hb
    rw [machine_of_not_mem ha, machine, withVm, Table.find?_insert_self]
  · rw [machine, machine, withVm, Table.find?_insert_ne _ _ hb]

/-- Where a machine is put, it is found, and nothing else changes. -/
theorem machine_putMachine (w : World η) (a b : Address) (m : Machine.State) :
    (w.putMachine a m).machine b = m ∧ b = a ∨ (w.putMachine a m).machine b = w.machine b := by
  by_cases hb : b = a
  · subst hb
    by_cases hk : b ∈ w.natives.keys
    · exact Or.inl ⟨machine_putMachine_self hk m, rfl⟩
    · rw [putMachine, Table.modify_of_none (Table.find?_eq_none_iff.2 hk)]
      exact Or.inr rfl
  · exact Or.inr (machine_putMachine_ne w hb m)

theorem vm_retired_self {w : World η} {vm : VmId} (h : vm ∈ w.vms.keys) (a : Address) :
    (w.retired vm a).vm vm = { w.vm vm with isAlive := false } :=
  vm_modifyVm_self h fun r => { r with isAlive := false }

theorem vm_retired_ne (w : World η) {vm id : VmId} (h : id ≠ vm) (a : Address) :
    (w.retired vm a).vm id = w.vm id :=
  vm_modifyVm_ne w h _

theorem liveAt_retired {w : World η} {vm : VmId} (h : vm ∈ w.vms.keys) (a : Address) (id : VmId)
    (b : Address) : (w.retired vm a).LiveAt id b ↔ id ≠ vm ∧ w.LiveAt id b := by
  by_cases hid : id = vm
  · subst hid
    simp [LiveAt, vm_retired_self h]
  · simp [LiveAt, vm_retired_ne w hid, hid]

/-- Changes of listeners and handles let machines live. -/
theorem liveAt_modifyVm (w : World η) (vm : VmId) {f : VmRecord → VmRecord}
    (halive : ∀ r, (f r).isAlive = r.isAlive) (haddress : ∀ r, (f r).address = r.address)
    (id : VmId) (a : Address) : (w.modifyVm vm f).LiveAt id a ↔ w.LiveAt id a := by
  rw [LiveAt, LiveAt, field_modifyVm w vm VmRecord.isAlive halive,
    field_modifyVm w vm VmRecord.address haddress]

/-- The payload of an object that is being finalized is removed.  Only the tag in the data block
tells which service it belongs to. -/
def unload (w : World η) (block : Block) : World η :=
  match block.owner? with
  | none => w
  | some service =>
    if block.address = 0 then w
    else
      let payloads := ((w.service service).payloads.take block.address).2
      w.modifyService service fun s => { s with payloads }

/-- A swept object is finalized, as far as machine and bridge do it. -/
def finalized (w : World η) (a : Address) (d : Dead) : World η :=
  let w := w.putMachine a ((w.machine a).beginFinalizer d)
  if d.finalize?.isSome then w.unload d.block else w

/-- A finalizer changes its machine and services, and nothing else. -/
theorem finalized_eq (w : World η) (a : Address) (d : Dead) : ∃ services,
    w.finalized a d =
      { w.putMachine a ((w.machine a).beginFinalizer d) with services } := by
  unfold finalized unload
  split
  · split
    · exact ⟨_, rfl⟩
    · split
      · exact ⟨_, rfl⟩
      · exact ⟨_, rfl⟩
  · exact ⟨_, rfl⟩

/-- The addresses of the payloads of a service. -/
def tracked (w : World η) (service : ServiceId) : List Address :=
  (w.service service).payloads.entries.keys

end World

/-- A data block at `x`, tagged with a service, is born in the machine at `a` and gets a payload.
The payload is that of an earlier object, if one is tracked at this address. -/
structure Delivery (w : World (Host η)) (vm : VmId) (a x : Address) (service : ServiceId)
    (owner : ObjectId) (m : Machine.State) (f : Service → Service) : Prop where
  live : w.LiveAt vm a
  ofService : (w.vm vm).service = service
  pos : 0 < x
  fresh : x ∉ w.taken
  payload : ∀ y, y ∈ (f (w.service service)).payloads.entries.keys ↔
    y = x ∨ y ∈ w.tracked service
  isClass : ((w.machine a).heap.class? owner).isSome = true
  birth : Birth (w.machine a) m owner ⟨x, some service⟩

/-- One step of the world. -/
inductive Step : World (Host η) → World (Host η) → Prop where
  /-- What only logs, reports and later choices of addresses depend on changes. -/
  | idle (w : World (Host η)) (serial : Nat) (lastVm? lastHandle? lastBlock? : Option Address)
      (freeReport? : Option FreeReport) (own : η) :
      Step w { w with serial, lastVm?, lastHandle?, lastBlock?, freeReport?,
                      host := { w.host with own } }
  | watch (w : World (Host η)) : Step w w.watch
  | misreport (w : World (Host η)) {faults : List NativeFault}
      (h : faults.all NativeFault.isHonest = true) : Step w { w with faults }
  /-- A machine is entered. -/
  | enter {w : World (Host η)} {vm : VmId} {a : Address} (h : w.LiveAt vm a) :
      Step w (w.note (.enter a))
  /-- A handle is passed to its machine. -/
  | use {w : World (Host η)} {h : CallHandle} {a : Address} (hmade : h ∈ w.host.handles)
      (hvalid : w.isValid h = true) (hlive : w.LiveAt h.vm a) :
      Step w (w.note (.useHandle a h.address))
  /-- A machine works, or its host writes its slots, lists and maps. -/
  | work {w : World (Host η)} {a : Address} {m : Machine.State} (ha : a ∈ w.registered.keys)
      (h : Frame (w.machine a) m) : Step w (w.putMachine a m)
  /-- The bindings, the type finalizers or the values of payloads of a service change. -/
  | serve {w : World (Host η)} {service : ServiceId} {f : Service → Service}
      (h : ∀ x, x ∈ (f (w.service service)).payloads.entries.keys ↔ x ∈ w.tracked service) :
      Step w (w.modifyService service f)
  /-- A service is made. -/
  | found {w : World (Host η)} {service : ServiceId} (h : service ∉ w.services.keys) :
      Step w { w with services := w.services.insert service .empty }
  | listen (w : World (Host η)) (vm : VmId) (f : Listeners → Listeners) :
      Step w (w.modifyVm vm fun r => { r with listeners := f r.listeners })
  /-- A machine is made. -/
  | create {w : World (Host η)} {a : Address} {service : ServiceId} (policy : LeakPolicy)
      (ha : a ∉ w.natives.keys) (hs : service ∈ w.services.keys) :
      Step w (w.withVm a service policy)
  /-- A handle is made. -/
  | adopt {w : World (Host η)} {vm : VmId} {a x : Address} (target : Machine.HandleTarget)
      (h : w.LiveAt vm a) (hx : x ∉ w.taken) : Step w (w.withHandle vm a x target)
  /-- A handle is released. -/
  | release {w : World (Host η)} {h : CallHandle} {a : Address} (hmade : h ∈ w.host.handles)
      (hvalid : w.isValid h = true) (hlive : w.LiveAt h.vm a) : Step w (w.withoutHandle h a)
  /-- A foreign object is made and gets a payload. -/
  | bear {w : World (Host η)} {vm : VmId} {a x : Address} {service : ServiceId} {owner : ObjectId}
      {m : Machine.State} {f : Service → Service} (h : Delivery w vm a x service owner m f) :
      Step w { (w.putMachine a m).modifyService service f with
        host := w.host.made service x ((w.machine a).heap.finalizer? owner) }
  /-- A machine without handles is given up. -/
  | retire {w : World (Host η)} {vm : VmId} {a : Address} (hlive : w.LiveAt vm a)
      (h : (w.vm vm).outstanding = []) : Step w (w.retired vm a)
  /-- The objects that cannot be reached leave the heap. -/
  | sweep {w : World (Host η)} {a : Address} (ha : a ∈ w.natives.keys) :
      Step w (w.putMachine a (w.machine a).sweep.2)
  /-- All objects of a machine that was given up leave the heap. -/
  | drain {w : World (Host η)} {a : Address} (ha : a ∈ w.natives.keys)
      (h : a ∉ w.registered.keys) : Step w (w.putMachine a (w.machine a).drain.2)
  /-- The next swept object is finalized. -/
  | finalize {w : World (Host η)} {a : Address} {d : Dead} {rest : List Dead}
      (ha : a ∈ w.natives.keys) (h : (w.machine a).swept = d :: rest) : Step w (w.finalized a d)
  /-- The data block that was finalized last is given back. -/
  | bury {w : World (Host η)} {a : Address} (ha : a ∈ w.natives.keys) :
      Step w (w.putMachine a (w.machine a).endFinalizer)
  /-- The memory of a machine that was given up, and is empty, is given back. -/
  | discard {w : World (Host η)} {a : Address} (report? : Option FreeReport)
      (h : a ∉ w.registered.keys) (hheap : (w.machine a).heap.objects = .empty)
      (hswept : (w.machine a).swept = []) (hfinalizing : (w.machine a).finalizing = []) :
      Step w { w with natives := w.natives.erase a, freeReport? := report? }

/-- Any number of steps. -/
abbrev Steps : World (Host η) → World (Host η) → Prop := Relation.ReflTransGen Step

/-- What every step preserves is preserved by any number of them. -/
theorem Steps.preserve {P : World (Host η) → Prop}
    (hstep : ∀ {w w'}, Step w w' → P w → P w') {w w' : World (Host η)} (h : Steps w w')
    (hP : P w) : P w' := by
  induction h with
  | refl => exact hP
  | tail _ hlast ih => exact hstep hlast ih

end ScriptHost.Bridge
