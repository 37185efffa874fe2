import ScriptHost.Bridge.World
import ScriptHost.Machine.Entry

/-!
# Entry points as a service sees them

The entry points of machines with the faults that are in force.  A fault changes what a service is
told, in the way of a machine that misbehaves; it never makes the machine do more.
-/

namespace ScriptHost.Bridge.Native

open Machine

variable {η φ : Type}

/-- A result, or the code of something unknown. -/
def unknownCode : Nat := 99

/-! ## Machines -/

/-- Makes a machine and puts it at a new address. -/
def place (isManaged : Bool) (userData : Nat) : Run (World η) φ Address := do
  let a ← newAddress
  Run.modify fun w => { w with natives := w.natives.insert a ⟨.create userData, isManaged⟩ }
  return a

/-- Makes a machine for a service. -/
def newVm : Run (World η) φ (Option Address) := do
  let w ← Run.get
  if w.hasFault .nullVm then return none
  else if w.hasFault .sameVm then return w.lastVm?
  else
    let a ← place true 0
    noteCall (.create a)
    Run.modify fun w => { w with lastVm? := some a }
    return some a

/-! ## Handles -/

/-- Keeps a handle in a machine at a new address. -/
def placeHandle (vm : Address) (store : State → Address → State) : Run (World η) φ Address := do
  let h ← newAddress
  noteCall (.makeHandle vm h)
  Run.modify fun w => w.putMachine vm (store (w.machine vm) h)
  return h

/-- Keeps a handle in a machine for a service. -/
def newHandle (vm : Address) (store : State → Address → State) :
    Run (World η) φ (Option Address) := do
  let w ← Run.get
  if w.hasFault .nullHandle then return none
  else if w.hasFault .sameHandle then return w.lastHandle?
  else
    let h ← placeHandle vm store
    Run.modify fun w => { w with lastHandle? := some h }
    return some h

/-- Makes a handle for calling a method. -/
def makeCallHandle (vm : Address) (signature : String) : Run (World η) φ (Option Address) :=
  newHandle vm fun s h => s.makeCallHandle h signature

/-- Makes a handle for the value in a slot. -/
def slotHandle (vm : Address) (index : Nat) : Run (World η) φ (Option Address) :=
  newHandle vm fun s h => s.slotHandle h index

/-- Drops a handle. -/
def releaseHandle [Observer η] (vm handle : Address) : Run (World η) φ Unit := do
  Run.modify fun w => { w with host := Observer.released vm handle w.host }
  noteCall (.releaseHandle vm handle)
  Run.modify fun w => w.putMachine vm ((w.machine vm).releaseHandle handle)

/-- Puts the value of a handle into a slot. -/
def setSlotHandle (vm : Address) (index : Nat) (handle : Address) : Run (World η) φ Unit := do
  noteCall (.useHandle vm handle)
  Run.modify fun w => w.putMachine vm ((w.machine vm).setSlotHandle index handle)

/-! ## Slots -/

/-- A count as it is told, where negative ones mean nothing. -/
def toldCount (w : World η) (fault : NativeFault) (count : Nat) : Nat :=
  if w.hasFault fault then 0 else count

/-- The number of slots. -/
def slotCount (vm : Address) : Run (World η) φ Nat := do
  let count ← readNative vm State.slotCount
  Run.gets fun w => toldCount w .negativeSlotCount count

/-- The type of the value in a slot. -/
def slotType (vm : Address) (index : Nat) : Run (World η) φ SlotType := do
  let type ← readNative vm fun s => s.slotType index
  Run.gets fun w => SlotType.ofCode (if w.hasFault .unknownType then unknownCode else type.code)

/-- The bytes of the string in a slot; a missing or negative length means none. -/
def slotBytes (vm : Address) (index : Nat) : Run (World η) φ (List UInt8) := do
  let bytes? ← readNative vm fun s => s.slotBytes? index
  Run.gets fun w =>
    if w.hasFault .nullBytes || w.hasFault .negativeBytes then [] else bytes?.getD []

/-- The length of the list in a slot. -/
def listCount (vm : Address) (index : Nat) : Run (World η) φ Nat := do
  let count ← readNative vm fun s => s.listCount index
  Run.gets fun w => toldCount w .negativeListCount count

/-- The number of entries of the map in a slot. -/
def mapCount (vm : Address) (index : Nat) : Run (World η) φ Nat := do
  let count ← readNative vm fun s => s.mapCount index
  Run.gets fun w => toldCount w .negativeMapCount count

/-! ## Foreign objects -/

/-- Makes an instance of the foreign class in a slot, with its data block at a new address. -/
def placeForeign (vm : Address) (index classIndex : Int) : Run (World η) φ (Option Address) := do
  noteCall (.enter vm)
  let s ← Run.gets fun w => w.machine vm
  match s.foreignClass? classIndex with
  | none => return none
  | some _ =>
    let block ← newAddress
    Run.modify fun w => w.putMachine vm ((w.machine vm).newForeign index classIndex block).2
    return some block

/-- Makes an instance of the foreign class in a slot for a service. -/
def newForeign (vm : Address) (index classIndex : Nat) : Run (World η) φ (Option Address) := do
  let w ← Run.get
  if w.hasFault .nullForeign then return none
  else if w.hasFault .sameForeign then return w.lastBlock?
  else
    let block? ← placeForeign vm index classIndex
    Run.modify fun w => { w with lastBlock? := block? }
    return block?

/-- Writes the tag of a service into a data block, in whichever machine it lies. -/
def writeTag (block : Address) (tag : ServiceId) : Run (World η) φ Unit :=
  Run.modify fun w =>
    w.natives.keys.foldl (fun w a => w.putMachine a ((w.machine a).tagBlock block tag)) w

/-- The address of the data block of the foreign object in a slot, zero if there is none. -/
def slotForeign (vm : Address) (index : Nat) : Run (World η) φ Address := do
  let block? ← readNative vm fun s => s.slotBlock? index
  Run.gets fun w =>
    if w.hasFault .nullSlotForeign then 0 else (block?.map Block.address).getD 0

end ScriptHost.Bridge.Native
