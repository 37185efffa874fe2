import ScriptHost.Bridge.Native

/-!
# Handles

A handle keeps a value of a machine, or names a method, until it is released.  It is known by its
address and its generation, so that a released handle is not mistaken for a newer one at the same
address.  Releasing a second time does nothing, and a handle of another machine is refused.
-/

namespace ScriptHost.Bridge

variable {η φ : Type}

/-! ## Machines that are alive -/

/-- The address of a machine, if it is alive. -/
def live (vm : VmId) (operation : String) : Act η Address := do
  let record ← Run.gets fun w => w.vm vm
  if record.isAlive then return record.address
  else Run.fault (.useAfterDispose "vm" record.address operation)

/-- The address under which a machine was registered. -/
def World.addressOf (w : World η) (vm : VmId) : Address := (w.vm vm).address

/-- Refuses a text with a NUL. -/
def terminated (s : String) : Act η Unit :=
  match Text.firstNul? s with
  | some position => Run.fault (.stringConversion position)
  | none => return ()

/-! ## The table of handles -/

/-- Takes a new generation and records the handle at an address. -/
def registerHandle (handle vm : Address) : Act η Nat := do
  let id ← Run.modifyGet fun w => (w.nextHandleId, { w with nextHandleId := w.nextHandleId + 1 })
  let added ← Run.modifyGet fun w =>
    let (added, handles) := w.handles.tryAdd handle ⟨id, vm⟩
    (added, { w with handles })
  if added then return id else Run.fault (.registrationConflict "handle" handle)

/-- Whether a generation is the one recorded at an address. -/
def World.isLiveHandle (w : World η) (handle : Address) (id : Nat) : Bool :=
  match w.handles.find? handle with
  | some record => record.id == id
  | none => false

/-- Removes the record at an address if it is of a given generation, and tells whether it was. -/
def forgetHandle (handle : Address) (id : Nat) : Run (World η) φ Bool :=
  Run.modifyGet fun w =>
    let (removed, handles) := w.handles.removeIf handle fun record => record.id == id
    (removed.isSome, { w with handles })

/-! ## Handles of the host -/

/-- A handle as the host holds it. -/
structure CallHandle where
  address : Address
  id : Nat
  vm : VmId
  deriving DecidableEq, Repr

namespace CallHandle

/-- Takes over a handle that a machine has made. -/
def adopt [Observer η] (vm : VmId) (made? : Option Address) (operation : String) :
    Act η CallHandle := do
  match made? with
  | none => Run.fault (.nullHandle operation)
  | some handle =>
    let address ← Run.gets fun w => w.addressOf vm
    let id ← registerHandle handle address
    Run.modify fun w => w.modifyVm vm fun r =>
      { r with outstanding := r.outstanding ++ [(handle, id)] }
    log .debug ("vm " ++ Text.Hex.address address ++ ": " ++ operation ++ " created handle " ++
      Text.Hex.address handle)
    return ⟨handle, id, vm⟩

/-- Whether a handle has not been released. -/
def isValid (h : CallHandle) : Run (World η) φ Bool :=
  Run.gets fun w => w.isLiveHandle h.address h.id

/-- Whether a handle is one of a machine. -/
def belongsTo (h : CallHandle) (vm : VmId) : Bool := h.vm == vm

/-- Releases a handle. -/
def release [Observer η] (h : CallHandle) : Run (World η) φ Unit := do
  if ← forgetHandle h.address h.id then
    Run.modify fun w => w.modifyVm h.vm fun r =>
      { r with outstanding := r.outstanding.filter fun e => e ≠ (h.address, h.id) }
    let record ← Run.gets fun w => w.vm h.vm
    if record.isAlive then
      Native.releaseHandle record.address h.address
    log .debug ("vm " ++ Text.Hex.address record.address ++ ": released handle " ++
      Text.Hex.address h.address)

/-- The address of a handle that may be passed to a machine. -/
def checked (h : CallHandle) (vm : VmId) (operation : String) : Act η Address := do
  if !h.belongsTo vm then
    let w ← Run.get
    Run.fault (.crossVmMisuse operation (w.addressOf vm) (w.addressOf h.vm))
  else if !(← h.isValid) then
    Run.fault (.useAfterDispose "handle" h.address operation)
  else return h.address

end CallHandle

end ScriptHost.Bridge
