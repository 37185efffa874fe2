import ScriptHost.Bridge.Slot

/-!
# Machines as the host holds them

A machine has one owner, who frees it, and any number of views, which do not.  Every operation on a
machine that has been freed gives an error.  The operations of this module run no program.
-/

namespace ScriptHost.Bridge

open Machine (State)

variable {η φ : Type}

/-- A machine in the hand of the host: its owner, or a view. -/
structure Vm where
  id : VmId
  isRoot : Bool
  deriving DecidableEq, Repr

namespace Vm

/-- The greatest 32-bit count. -/
def maxCount : Nat := 2147483647

/-- Adds null slots until there are at least `count`. -/
def ensureSlots (vm : VmId) (count : Nat) : Act η Unit := do
  let a ← live vm "ensure_slots"
  changeNative a fun m => m.ensureSlots (min count maxCount : Nat)

/-- The number of slots. -/
def slotCount (vm : VmId) : Act η Nat := do
  let a ← live vm "slot_count"
  Native.slotCount a

/-- Makes a handle for calling a method by its signature. -/
def makeCallHandle [Observer η] (vm : VmId) (signature : String) : Act η CallHandle := do
  let a ← live vm "make_call_handle"
  terminated signature
  CallHandle.adopt vm (← Native.makeCallHandle a signature) "make_call_handle"

/-! ## Modules -/

/-- Whether a module is loaded. -/
def hasModule (vm : VmId) (module : String) : Act η Bool := do
  let a ← live vm "has_module"
  terminated module
  readNative a fun m => m.hasModule module

/-- Whether a loaded module has a variable. -/
def hasVariable (vm : VmId) (module name : String) : Act η Bool := do
  let a ← live vm "has_variable"
  if !(← hasModule vm module) then Run.fault (.moduleNotFound module)
  else
    terminated name
    readNative a fun m => m.hasVariable module name

/-- Copies a variable of a module into a slot. -/
def getVariable (vm : VmId) (module name : String) (slot : Slot) : Act η Unit := do
  slot.ensureSameVm vm "get_variable"
  let a ← slot.checked "get_variable"
  if !(← hasVariable vm module name) then Run.fault (.variableNotFound module name)
  else changeNative a fun m => m.getVariable module name slot.index

/-! ## Aborting -/

/-- Asks the running host function to end with the value in a slot as its error. -/
def abortFiber (vm : VmId) (slot : Slot) : Act η Unit := do
  slot.ensureSameVm vm "abort_fiber"
  let a ← slot.checked "abort_fiber"
  changeNative a fun m => m.requestAbort slot.index

/-- Asks the running host function to end with a text as its error, which takes the first slot. -/
def abortFiberWithMessage (vm : VmId) (message : String) : Act η Unit := do
  ensureSlots vm 1
  let slot : Slot := ⟨vm, 0⟩
  slot.setString message
  abortFiber vm slot

/-! ## Listeners -/

/-- Changes the listeners of a machine. -/
def modifyListeners (vm : VmId) (f : Listeners → Listeners) : Run (World η) φ Unit :=
  Run.modify fun w => w.modifyVm vm fun r => { r with listeners := f r.listeners }

/-- The listeners of a machine. -/
def listeners (vm : VmId) : Run (World η) φ Listeners := Run.gets fun w => (w.vm vm).listeners

end Vm

end ScriptHost.Bridge
