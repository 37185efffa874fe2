import ScriptHost.Bridge.Bindings
import ScriptHost.Machine.Callbacks

/-!
# The world of a host

Everything that operations of the bridge read and change: the machines with the addresses at which
they lie, the table of machines and handles that is shared by the whole process, the services with
their bindings and payloads, and what the host keeps for itself (`η`).

Addresses are handed out by a `Placement`, which may give an address again as soon as nothing lies
there any more.  What the host knows of a machine outlives the machine, under a number that is never
given again.
-/

namespace ScriptHost.Bridge

/-- Where something lies. -/
abbrev Address := Nat

/-- The number under which the host knows a machine. -/
abbrev VmId := Nat

/-- A service is known by its address, which is also the tag in the data blocks of its objects. -/
abbrev ServiceId := Address

/-- How new addresses are chosen: never null, and never one at which something lies. -/
structure Placement where
  place : Nat → List Address → Address
  place_pos : ∀ serial taken, 0 < place serial taken
  place_fresh : ∀ serial taken, place serial taken ∉ taken

/-- The greatest of some addresses, zero if there are none. -/
def greatest (addresses : List Address) : Address := addresses.foldl max 0

theorem le_foldl_max (l : List Address) (m : Address) : m ≤ l.foldl max m := by
  induction l generalizing m with
  | nil => exact Nat.le_refl m
  | cons b rest ih => exact Nat.le_trans (Nat.le_max_left m b) (ih (max m b))

theorem le_foldl_max_of_mem {l : List Address} {a : Address} (h : a ∈ l) (m : Address) :
    a ≤ l.foldl max m := by
  induction l generalizing m with
  | nil => cases h
  | cons b rest ih =>
    rcases List.mem_cons.1 h with h | h
    · subst h
      exact Nat.le_trans (Nat.le_max_right m a) (le_foldl_max rest (max m a))
    · exact ih h (max m b)

theorem le_greatest {l : List Address} {a : Address} (h : a ∈ l) : a ≤ greatest l :=
  le_foldl_max_of_mem h 0

/-- The address behind the greatest one in use.  It may have been in use before. -/
def Placement.next : Placement where
  place _ taken := greatest taken + 1
  place_pos _ taken := Nat.succ_pos (greatest taken)
  place_fresh _ _ h := absurd (le_greatest h) (Nat.not_le.2 (Nat.lt_succ_self _))

/-- A machine, and whether it was made by a service. -/
structure Native where
  machine : Machine.State
  isManaged : Bool

/-- Which handle lies at an address. -/
structure HandleRecord where
  /-- The generation of the handle. -/
  id : Nat
  vm : Address
  deriving DecidableEq, Repr

/-- What disposing of a machine does about handles that were never released. -/
inductive LeakPolicy where
  | panic
  | forceRelease
  deriving DecidableEq, Repr, Inhabited

/-- The name of a policy. -/
def LeakPolicy.name : LeakPolicy → String
  | .panic => "Panic"
  | .forceRelease => "ForceRelease"

/-- The host functions that a machine may call, and what the host attached to the machine. -/
structure Listeners where
  write? : Option Delegate
  error? : Option Delegate
  resolve? : Option Delegate
  load? : Option Delegate
  bindClass? : Option Delegate
  bindMethod? : Option Delegate
  userData? : Option Payload

/-- No listener. -/
def Listeners.none : Listeners :=
  ⟨Option.none, Option.none, Option.none, Option.none, Option.none, Option.none, Option.none⟩

/-- What the host knows of a machine. -/
structure VmRecord where
  address : Address
  isAlive : Bool
  service : ServiceId
  policy : LeakPolicy
  listeners : Listeners
  /-- The handles that were made for the machine and not released, oldest first. -/
  outstanding : List (Address × Nat)

/-- What is known of a machine under a number that was never given. -/
def VmRecord.unknown : VmRecord := ⟨0, false, 0, .panic, .none, []⟩

/-- A service. -/
structure Service where
  bindings : Bindings
  payloads : Payloads

/-- A service without bindings and payloads. -/
def Service.empty : Service := ⟨.empty, .empty⟩

/-- What goes wrong, on purpose, between services and machines. -/
inductive NativeFault where
  | nullVm
  | sameVm
  | nullHandle
  | sameHandle
  | nullForeign
  | sameForeign
  | unknownType
  | unknownResult
  | negativeSlotCount
  | negativeListCount
  | negativeMapCount
  | nullBytes
  | negativeBytes
  | nullSlotForeign
  deriving DecidableEq, Repr

/-- A call of a service into a machine. -/
inductive NativeCall where
  | create (vm : Address)
  | free (vm : Address)
  | makeHandle (vm handle : Address)
  /-- A handle was passed to be called, or to be put into a slot. -/
  | useHandle (vm handle : Address)
  | releaseHandle (vm handle : Address)
  /-- Any other entry point. -/
  | enter (vm : Address)
  deriving DecidableEq, Repr

/-- What a machine still held when it was freed. -/
structure FreeReport where
  leakedHandles : Nat
  finalizedObjects : Nat
  deriving DecidableEq, Repr

/-- The severity of a record in the log. -/
inductive LogLevel where
  | error
  | warn
  | debug
  | trace
  deriving DecidableEq, Repr

/-- The world of a host that keeps an `η` for itself. -/
structure World (η : Type) where
  typeNames : TypeNames
  placement : Placement
  /-- The number of addresses handed out. -/
  serial : Nat
  natives : Table Address Native
  /-- The live machines of all services, which alone call back. -/
  registered : Table Address VmId
  handles : Table Address HandleRecord
  nextHandleId : Nat
  vms : Table VmId VmRecord
  nextVmId : VmId
  services : Table ServiceId Service
  faults : List NativeFault
  /-- The machine, handle and data block that a service was given last, when it asked for a new one;
  a data block may have been refused. -/
  lastVm? : Option Address
  lastHandle? : Option Address
  lastBlock? : Option Address
  freeReport? : Option FreeReport
  /-- All calls into machines, the last one first. -/
  calls : List NativeCall
  host : η

/-- What a host sees of the work of the bridge. -/
class Observer (η : Type) where
  log : LogLevel → String → η → η
  /-- A handle of a machine is about to be released. -/
  released : Address → Address → η → η

/-- An operation that the host asks for. -/
abbrev Act (η α : Type) : Type := Run (World η) HostError α

/-- Work that cannot fail. -/
abbrev Effect (η α : Type) : Type := Run (World η) Empty α

section

variable {η φ α : Type}

/-- The world before anything is made. -/
def World.empty (typeNames : TypeNames) (placement : Placement) (host : η) : World η :=
  { typeNames, placement, serial := 0, natives := .empty, registered := .empty, handles := .empty,
    nextHandleId := 1, vms := .empty, nextVmId := 1, services := .empty, faults := [],
    lastVm? := none, lastHandle? := none, lastBlock? := none, freeReport? := none, calls := [],
    host }

namespace World

/-- What the host knows of a machine. -/
def vm (w : World η) (id : VmId) : VmRecord := (w.vms.find? id).getD .unknown

/-- Changes what the host knows of a machine. -/
def modifyVm (w : World η) (id : VmId) (f : VmRecord → VmRecord) : World η :=
  { w with vms := w.vms.modify id f }

/-- A service. -/
def service (w : World η) (id : ServiceId) : Service := (w.services.find? id).getD .empty

/-- Changes a service. -/
def modifyService (w : World η) (id : ServiceId) (f : Service → Service) : World η :=
  { w with services := w.services.modify id f }

/-- The service of a machine. -/
def serviceOf (w : World η) (id : VmId) : Service := w.service (w.vm id).service

/-- Whether a fault is in force. -/
def hasFault (w : World η) (f : NativeFault) : Bool := w.faults.contains f

/-- The machine at an address, a blank one if there is none. -/
def machine (w : World η) (a : Address) : Machine.State :=
  match w.natives.find? a with
  | some n => n.machine
  | none => .create 0

/-- Replaces the machine at an address, if there is one. -/
def putMachine (w : World η) (a : Address) (s : Machine.State) : World η :=
  { w with natives := w.natives.modify a fun n => { n with machine := s } }

/-- The addresses at which something lies. -/
def taken (w : World η) : List Address :=
  w.natives.keys ++ w.services.keys ++
    w.natives.values.flatMap fun n => n.machine.handles.keys ++ n.machine.blockAddresses

/-! ### Laws -/

theorem machine_putMachine_self {w : World η} {a : Address} (h : a ∈ w.natives.keys)
    (m : Machine.State) : (w.putMachine a m).machine a = m := by
  obtain ⟨n, hn⟩ := Table.exists_find?_of_mem h
  simp [machine, putMachine, Table.find?_modify_self, hn]

theorem machine_putMachine_ne (w : World η) {a b : Address} (h : b ≠ a) (m : Machine.State) :
    (w.putMachine a m).machine b = w.machine b := by
  simp [machine, putMachine, Table.find?_modify_ne _ _ h]

/-- Putting a machine back where it lies changes nothing. -/
theorem putMachine_machine (w : World η) (a : Address) : w.putMachine a (w.machine a) = w := by
  have hfix : w.natives.modify a (fun n => { n with machine := w.machine a }) = w.natives := by
    refine Table.modify_of_fixed fun n hn => ?_
    simp [machine, hn]
  rw [putMachine, hfix]

theorem putMachine_putMachine (w : World η) (a : Address) (m m' : Machine.State) :
    (w.putMachine a m).putMachine a m' = w.putMachine a m' := by
  simp [putMachine, Table.modify_modify]

theorem mem_natives_putMachine {w : World η} {a b : Address} {m : Machine.State} :
    b ∈ (w.putMachine a m).natives.keys ↔ b ∈ w.natives.keys :=
  Table.mem_keys_modify

/-- A change of an unknown machine's record has no effect, so that a change of a record in use has
the effect that it says. -/
theorem vm_modifyVm_self {w : World η} {id : VmId} (h : id ∈ w.vms.keys)
    (f : VmRecord → VmRecord) : (w.modifyVm id f).vm id = f (w.vm id) := by
  obtain ⟨r, hr⟩ := Table.exists_find?_of_mem h
  simp [vm, modifyVm, Table.find?_modify_self, hr]

theorem vm_modifyVm_ne (w : World η) {id id' : VmId} (h : id' ≠ id) (f : VmRecord → VmRecord) :
    (w.modifyVm id f).vm id' = w.vm id' := by
  simp [vm, modifyVm, Table.find?_modify_ne _ _ h]

/-- What a change leaves alone in every record stays for every machine. -/
theorem field_modifyVm (w : World η) (id : VmId) {f : VmRecord → VmRecord} {γ : Type}
    (p : VmRecord → γ) (hf : ∀ r, p (f r) = p r) (id' : VmId) :
    p ((w.modifyVm id f).vm id') = p (w.vm id') := by
  by_cases h : id' = id
  · subst h
    by_cases hm : id' ∈ w.vms.keys
    · rw [vm_modifyVm_self hm, hf]
    · rw [vm, modifyVm, Table.modify_of_none (Table.find?_eq_none_iff.2 hm)]
      rfl
  · rw [vm_modifyVm_ne w h]

/-- What is known of a machine that is alive was put into the table. -/
theorem mem_vms_of_isAlive {w : World η} {id : VmId} (h : (w.vm id).isAlive = true) :
    id ∈ w.vms.keys := by
  refine Decidable.byContradiction fun hm => ?_
  rw [vm, Table.find?_eq_none_iff.2 hm] at h
  exact absurd h (by simp [VmRecord.unknown])

/-! ### Addresses in use -/

theorem mem_taken_of_native {w : World η} {a : Address} (h : a ∈ w.natives.keys) :
    a ∈ w.taken :=
  List.mem_append_left _ (List.mem_append_left _ h)

theorem mem_taken_of_service {w : World η} {id : ServiceId} (h : id ∈ w.services.keys) :
    id ∈ w.taken :=
  List.mem_append_left _ (List.mem_append_right _ h)

theorem mem_taken_of_machine {w : World η} {a x : Address} (ha : a ∈ w.natives.keys)
    (hx : x ∈ (w.machine a).handles.keys ∨ x ∈ (w.machine a).blockAddresses) : x ∈ w.taken := by
  obtain ⟨n, hn⟩ := Table.exists_find?_of_mem ha
  have hm : w.machine a = n.machine := by simp [machine, hn]
  refine List.mem_append_right _ (List.mem_flatMap.2 ⟨n, Table.mem_values_of_find? hn, ?_⟩)
  rw [← hm]
  exact List.mem_append.2 hx

/-- No data block of a machine lies at a new address. -/
theorem not_mem_blockAddresses {w : World η} {a x : Address} (ha : a ∈ w.natives.keys)
    (hx : x ∉ w.taken) : x ∉ (w.machine a).heap.blockAddresses := by
  intro hin
  refine hx (mem_taken_of_machine ha (Or.inr ?_))
  exact List.mem_append_left _ (List.mem_append_left _ hin)

/-! ### Services -/

theorem service_modifyService_self {w : World η} {id : ServiceId} (h : id ∈ w.services.keys)
    (f : Service → Service) : (w.modifyService id f).service id = f (w.service id) := by
  obtain ⟨s, hs⟩ := Table.exists_find?_of_mem h
  simp [service, modifyService, Table.find?_modify_self, hs]

theorem service_modifyService_ne (w : World η) {id id' : ServiceId} (h : id' ≠ id)
    (f : Service → Service) : (w.modifyService id f).service id' = w.service id' := by
  simp [service, modifyService, Table.find?_modify_ne _ _ h]

end World

/-- A new address. -/
def newAddress : Run (World η) φ Address :=
  Run.modifyGet fun w => (w.placement.place w.serial w.taken, { w with serial := w.serial + 1 })

/-- Writes a record to the log. -/
def log [Observer η] (level : LogLevel) (text : String) : Run (World η) φ Unit :=
  Run.modify fun w => { w with host := Observer.log level text w.host }

/-- Notes a call into a machine. -/
def noteCall (c : NativeCall) : Run (World η) φ Unit :=
  Run.modify fun w => { w with calls := c :: w.calls }

/-- Reads a machine through one of its entry points. -/
def readNative (a : Address) (f : Machine.State → α) : Run (World η) φ α := do
  noteCall (.enter a)
  Run.gets fun w => f (w.machine a)

/-- Changes a machine through one of its entry points. -/
def changeNative (a : Address) (f : Machine.State → Machine.State) : Run (World η) φ Unit := do
  noteCall (.enter a)
  Run.modify fun w => w.putMachine a (f (w.machine a))

/-- Stops everything for a mistake of the host. -/
def fatal [Observer η] (e : HostError) : Run (World η) φ α := do
  log .error ("fatal bridge error: " ++ e.message)
  Run.halt (.panic e.message)

end

end ScriptHost.Bridge
