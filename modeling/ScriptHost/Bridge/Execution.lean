import ScriptHost.Bridge.Trampoline
import ScriptHost.Machine.Evaluation

/-!
# Running programs and ending machines

The operations of the bridge that let a machine run: interpreting a program, calling a method,
collecting garbage, and freeing the machine, which finalizes what is left of it.

A machine leaves the process-wide table before it is freed, since its address may be used again from
then on.  Handles that were never released either keep the machine from being freed, or are released
first, the newest one first.
-/

namespace ScriptHost.Bridge

variable {η φ : Type} [Observer η]

/-- What a run needs: the functions of the host, and how deep imports may nest. -/
structure Engine (η : Type) where
  delegates : Delegates η
  importDepth : Nat

/-! ## Creation -/

/-- Settings of a machine; what is not given, or zero, has a default. -/
structure VmConfig where
  initialHeapSize? : Option Nat
  minHeapSize? : Option Nat
  heapGrowthPercent? : Option Nat
  policy? : Option LeakPolicy

/-- The settings that a machine is made with. -/
structure NativeConfig where
  initialHeapSize : Nat
  minHeapSize : Nat
  heapGrowthPercent : Nat
  deriving DecidableEq, Repr

/-- The settings of machines by default. -/
def NativeConfig.default : NativeConfig := ⟨10485760, 1048576, 50⟩

/-- What is done by default about handles that were never released. -/
def LeakPolicy.default : LeakPolicy := .panic

namespace VmConfig

/-- No settings. -/
def unset : VmConfig := ⟨none, none, none, none⟩

/-- A setting that counts, or else a default. -/
def setting (given? : Option Nat) (default : Nat) : Nat := (given?.filter (0 < ·)).getD default

/-- The settings that a machine is made with.  The growth is brought into the 32-bit range. -/
def native (c : VmConfig) : NativeConfig :=
  ⟨setting c.initialHeapSize? NativeConfig.default.initialHeapSize,
    setting c.minHeapSize? NativeConfig.default.minHeapSize,
    min (setting c.heapGrowthPercent? NativeConfig.default.heapGrowthPercent) Vm.maxCount⟩

/-- What is done about handles that were never released. -/
def policy (c : VmConfig) : LeakPolicy := c.policy?.getD .default

end VmConfig

/-- Makes a service. -/
def newService : Run (World η) φ ServiceId := do
  let id ← newAddress
  Run.modify fun w => { w with services := w.services.insert id .empty }
  return id

namespace Vm

/-- Makes a machine and registers it. -/
def create (service : ServiceId) (config : VmConfig) : Act η Vm := do
  match ← Native.newVm with
  | none => Run.fault .failedToCreateVm
  | some a =>
    let id? ← Run.modifyGet fun w =>
      let (added, registered) := w.registered.tryAdd a w.nextVmId
      if added then (some w.nextVmId, { w with registered, nextVmId := w.nextVmId + 1 })
      else (none, w)
    match id? with
    | none => fatal (.registrationConflict "vm" a)
    | some id =>
      Run.modify fun w =>
        { w with vms := w.vms.insert id ⟨a, true, service, config.policy, .none, []⟩ }
      log .debug ("created vm " ++ Text.Hex.address a)
      return ⟨id, true⟩

/-! ## Runs -/

/-- The result of a run as a service sees it. -/
def told (r : InterpretResult) : Run (World η) φ InterpretResult :=
  Run.gets fun w =>
    InterpretResult.ofCode (if w.hasFault .unknownResult then Native.unknownCode else r.code)

/-- Compiles and runs a program as a module. -/
def interpret (e : Engine η) (vm : VmId) (module source : String) : Act η InterpretResult := do
  let a ← live vm "interpret"
  terminated module
  terminated source
  noteCall (.enter a)
  told (← onMachine e.delegates a fun cb => Machine.interpret cb e.importDepth module source)

/-- Calls the method of a handle on the values in the slots. -/
def call (e : Engine η) (vm : VmId) (method : CallHandle) : Act η InterpretResult := do
  let a ← live vm "call"
  let handle ← method.checked vm "call"
  noteCall (.useHandle a handle)
  told (← onMachine e.delegates a fun cb => Machine.callHandle cb handle)

/-- Collects garbage. -/
def collectGarbage (e : Engine η) (vm : VmId) : Act η Unit := do
  let a ← live vm "collect_garbage"
  noteCall (.enter a)
  onMachine e.delegates a Machine.collectGarbage

/-! ## The end -/

/-- Ends the machine at an address, gives its memory back, and reports what it still held. -/
def endMachine (e : Engine η) (a : Address) : Run (World η) φ Unit := do
  let leaked ← onMachine e.delegates a Machine.shutdown
  Run.modify fun w =>
    { w with natives := w.natives.erase a,
             freeReport? := some ⟨leaked, (w.machine a).finalized⟩ }
  let w ← Run.get
  if let some report := w.freeReport? then
    log .trace ("mock vm freed: FreeReport \x7b leaked_handles: " ++
      toString report.leakedHandles ++ ", finalized_objects: " ++
      toString report.finalizedObjects ++ " \x7d")

/-- Frees the machine at an address. -/
def freeNative (e : Engine η) (a : Address) : Run (World η) φ Unit := do
  noteCall (.free a)
  endMachine e a

/-- Releases handles of a machine in the given order. -/
def forceRelease (a : Address) : List (Address × Nat) → Run (World η) φ Unit
  | [] => return ()
  | (handle, id) :: rest => do
    if ← forgetHandle handle id then
      Native.releaseHandle a handle
      log .debug ("vm " ++ Text.Hex.address a ++ ": force-released handle " ++
        Text.Hex.address handle)
    forceRelease a rest

/-- The report about handles that were never released. -/
def leakMessage (a : Address) (count : Nat) : String :=
  "vm " ++ Text.Hex.address a ++ " disposed with " ++ toString count ++
    " unreleased call handle(s)"

/-- Deals with the handles of a machine that were never released. -/
def settleLeaks (vm : VmId) : Run (World η) φ Unit := do
  let record ← Run.gets fun w => w.vm vm
  if record.outstanding.isEmpty then return ()
  else
    let message := leakMessage record.address record.outstanding.length
    match record.policy with
    | .panic =>
      log .error message
      Run.halt (.panic message)
    | .forceRelease =>
      log .warn (message ++ "; releasing them")
      Run.modify fun w => w.modifyVm vm fun r => { r with outstanding := [] }
      forceRelease record.address record.outstanding.reverse

/-- Frees a machine, unless it has been freed. -/
def shutdown (e : Engine η) (vm : VmId) : Run (World η) φ Unit := do
  let record ← Run.gets fun w => w.vm vm
  if !record.isAlive then return ()
  else
    settleLeaks vm
    Run.modify fun w => w.modifyVm vm fun r => { r with isAlive := false }
    Run.modify fun w => { w with registered := w.registered.erase record.address }
    freeNative e record.address
    log .debug ("disposed vm " ++ Text.Hex.address record.address)

/-- Frees a machine through its owner.  A view frees nothing. -/
def dispose (e : Engine η) (vm : Vm) : Run (World η) φ Unit := do
  if vm.isRoot then shutdown e vm.id
  else
    log .warn ("vm " ++ Text.Hex.address (← Run.gets fun w => w.addressOf vm.id) ++
      ": dispose called on a non-owning view")

/-- Lets go of a machine: its owner frees it, a view does nothing. -/
def drop (e : Engine η) (vm : Vm) : Run (World η) φ Unit := do
  if vm.isRoot then shutdown e vm.id else return ()

end Vm

/-! ## Services -/

/-- A view of a live machine of a service, by its address. -/
def lookupVm (service : ServiceId) (a : Address) : Run (World η) φ (Option Vm) :=
  Run.gets fun w =>
    match w.registered.find? a with
    | some id => if (w.vm id).service = service then some ⟨id, false⟩ else none
    | none => none

/-- The number of live machines of a service. -/
def vmCount (service : ServiceId) : Run (World η) φ Nat :=
  Run.gets fun w => w.registered.countValues fun id => (w.vm id).service == service

/-- Registers a class binding at a service. -/
def registerClass (service : ServiceId) (binding : ClassBinding) : Run (World η) φ Machine.Key := do
  let (key, isNew) ← Run.modifyGet fun w =>
    let (result, bindings) := Compartment.classes.register binding (w.service service).bindings
    (result, w.modifyService service fun s => { s with bindings })
  if isNew then log .trace ("registered foreign class binding " ++ toString key)
  return key

/-- Registers a method binding at a service. -/
def registerMethod (service : ServiceId) (binding : MethodBinding) :
    Run (World η) φ Machine.Key := do
  let (key, isNew) ← Run.modifyGet fun w =>
    let (result, bindings) := Compartment.methods.register binding (w.service service).bindings
    (result, w.modifyService service fun s => { s with bindings })
  if isNew then log .trace ("registered foreign method binding " ++ toString key)
  return key

/-- Sets the finalizer of a payload type at a service. -/
def registerFinalizer (service : ServiceId) (t : PayloadType) (finalizer : Delegate) :
    Run (World η) φ Unit :=
  Run.modify fun w => w.modifyService service fun s =>
    { s with payloads := s.payloads.setFinalizer t finalizer }

end ScriptHost.Bridge
