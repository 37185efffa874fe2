import ScriptHost.Bridge.Handle

/-!
# Slots

Values cross between host and machine in numbered slots.  Every operation checks, in this order,
that its operands are of one machine, that the machine is alive, that the indices are below the
number of slots, and that the slots hold what is needed.  Slots are never added implicitly.
-/

namespace ScriptHost.Bridge

open Machine (State)
open Number (Double Single)

variable {η : Type}

/-- A slot of a machine.  Making one checks nothing. -/
structure Slot where
  vm : VmId
  index : Nat
  deriving DecidableEq, Repr

namespace Slot

/-! ## Checks -/

/-- The address of the machine, if it is alive and the slot exists. -/
def checked (s : Slot) (operation : String) : Act η Address := do
  let a ← live s.vm operation
  let count ← Native.slotCount a
  if s.index < count then return a else Run.fault (.slotOutOfRange s.index count)

/-- Refuses a slot of another machine than `vm`. -/
def ensureSameVm (s : Slot) (vm : VmId) (operation : String) : Act η Unit := do
  if s.vm = vm then return ()
  else
    let w ← Run.get
    Run.fault (.crossVmMisuse operation (w.addressOf vm) (w.addressOf s.vm))

/-- Refuses a slot that does not hold the expected type. -/
def expectType (s : Slot) (a : Address) (expected : SlotType) : Act η Unit := do
  let actual ← Native.slotType a s.index
  if actual = expected then return () else Run.fault (.slotTypeMismatch s.index expected actual)

/-- The type of the value in a slot. -/
def slotType (s : Slot) : Act η SlotType := do
  let a ← s.checked "slot_type"
  Native.slotType a s.index

/-- Whether a slot holds null. -/
def isNull (s : Slot) : Act η Bool := do return (← s.slotType) == .null

/-! ## Simple values -/

/-- The truth value in a slot. -/
def getBool (s : Slot) : Act η Bool := do
  let a ← s.checked "get_bool"
  s.expectType a .bool
  readNative a fun m => m.slotBool s.index

/-- Writes a truth value. -/
def setBool (s : Slot) (b : Bool) : Act η Unit := do
  let a ← s.checked "set_bool"
  changeNative a fun m => m.setSlot s.index (.bool b)

/-- The number in a slot. -/
def getDouble (s : Slot) : Act η Double := do
  let a ← s.checked "get_double"
  s.expectType a .number
  readNative a fun m => m.slotDouble s.index

/-- Writes a number. -/
def setDouble (s : Slot) (x : Double) : Act η Unit := do
  let a ← s.checked "set_double"
  changeNative a fun m => m.setSlot s.index (.number x)

/-- The number in a slot, rounded to a 32-bit integer. -/
def getInt (s : Slot) : Act η Int := do return (← s.getDouble).toInt32

/-- Writes an integer. -/
def setInt (s : Slot) (i : Int) : Act η Unit := s.setDouble (.ofInt i)

/-- The number in a slot as a 32-bit number. -/
def getFloat (s : Slot) : Act η Single := do return (← s.getDouble).toSingle

/-- Writes a 32-bit number. -/
def setFloat (s : Slot) (x : Single) : Act η Unit := s.setDouble (.ofSingle x)

/-- Writes null. -/
def setNull (s : Slot) : Act η Unit := do
  let a ← s.checked "set_null"
  changeNative a fun m => m.setSlot s.index .null

/-! ## Strings -/

/-- The text in a slot. -/
def getString (s : Slot) : Act η String := do
  let a ← s.checked "get_string"
  s.expectType a .string
  match Text.Utf8.decode (← Native.slotBytes a s.index) with
  | .ok text => return text
  | .error failure => Run.fault (.utf8Conversion failure)

/-- The text in a slot, `none` for null. -/
def getOptionalString (s : Slot) : Act η (Option String) := do
  let a ← s.checked "get_optional_string"
  if (← Native.slotType a s.index) = .null then return none
  else return some (← s.getString)

/-- The bytes of the string in a slot. -/
def getBytes (s : Slot) : Act η (List UInt8) := do
  let a ← s.checked "get_bytes"
  s.expectType a .string
  Native.slotBytes a s.index

/-- Writes a string of bytes, NULs included. -/
def setBytes (s : Slot) (bytes : List UInt8) : Act η Unit := do
  let a ← s.checked "set_bytes"
  changeNative a fun m => m.setSlot s.index (.string bytes)

/-- Writes a text, NULs included. -/
def setString (s : Slot) (text : String) : Act η Unit := s.setBytes (Text.Utf8.encode text)

/-! ## Handles -/

/-- Makes a handle that keeps the value in a slot. -/
def getHandle [Observer η] (s : Slot) : Act η CallHandle := do
  let a ← s.checked "get_handle"
  CallHandle.adopt s.vm (← Native.slotHandle a s.index) "get_handle"

/-- Puts the value of a handle into a slot. -/
def setHandle (s : Slot) (h : CallHandle) : Act η Unit := do
  let a ← s.checked "set_handle"
  let handle ← h.checked s.vm "set_handle"
  Native.setSlotHandle a s.index handle

/-! ## Lists -/

/-- Writes a new list. -/
def setNewList (s : Slot) : Act η Unit := do
  let a ← s.checked "set_new_list"
  changeNative a fun m => m.newList s.index

/-- The length of the list in a slot. -/
def listCount (s : Slot) : Act η Nat := do
  let a ← s.checked "list_count"
  s.expectType a .list
  Native.listCount a s.index

/-- Checks the operands of a list operation, and returns the machine and the length of the list. -/
def listOperands (s element : Slot) (operation : String) : Act η (Address × Nat) := do
  element.ensureSameVm s.vm operation
  let a ← s.checked operation
  let _ ← element.checked operation
  s.expectType a .list
  return (a, ← Native.listCount a s.index)

/-- Whether an index is one of `upper` positions; negative ones count from behind. -/
def isListIndex (index : Int) (upper : Nat) : Bool := -(upper : Int) ≤ index && index < upper

/-- Refuses an index that is none of `upper` positions of a list of length `count`. -/
def checkListIndex (index : Int) (upper count : Nat) : Act η Unit :=
  if isListIndex index upper then return () else Run.fault (.listIndexOutOfRange index count)

/-- Copies an element of the list in a slot into another slot. -/
def getListElement (s : Slot) (index : Int) (element : Slot) : Act η Unit := do
  let (a, count) ← s.listOperands element "get_list_element"
  checkListIndex index count count
  changeNative a fun m => m.getElement s.index index element.index

/-- Replaces an element of the list in a slot. -/
def setListElement (s : Slot) (index : Int) (element : Slot) : Act η Unit := do
  let (a, count) ← s.listOperands element "set_list_element"
  checkListIndex index count count
  changeNative a fun m => m.setElement s.index index element.index

/-- Inserts into the list in a slot, in front of a position; `-1` is behind the last element. -/
def insertInList (s : Slot) (index : Int) (element : Slot) : Act η Unit := do
  let (a, count) ← s.listOperands element "insert_in_list"
  checkListIndex index (count + 1) count
  changeNative a fun m => m.insertElement s.index index element.index

/-! ## Maps -/

/-- Writes a new map. -/
def setNewMap (s : Slot) : Act η Unit := do
  let a ← s.checked "set_new_map"
  changeNative a fun m => m.newMap s.index

/-- The number of entries of the map in a slot. -/
def mapCount (s : Slot) : Act η Nat := do
  let a ← s.checked "map_count"
  s.expectType a .map
  Native.mapCount a s.index

/-- Whether values of a type can be told apart as keys.  The unknown type covers classes, which can,
and instances, about which a slot does not tell. -/
def isHashable : SlotType → Bool
  | .list => false
  | .map => false
  | .foreign => false
  | _ => true

/-- Checks the operands of a map operation, and returns the machine. -/
def mapOperands (s key : Slot) (other? : Option Slot) (operation : String) : Act η Address := do
  key.ensureSameVm s.vm operation
  if let some other := other? then
    other.ensureSameVm s.vm operation
    let _ ← other.checked operation
  let a ← s.checked operation
  let _ ← key.checked operation
  s.expectType a .map
  let actual ← Native.slotType a key.index
  if isHashable actual then return a else Run.fault (.unhashableKey key.index actual)

/-- Whether the map in a slot has a key. -/
def mapContainsKey (s key : Slot) : Act η Bool := do
  let a ← s.mapOperands key none "map_contains_key"
  readNative a fun m => m.containsKey s.index key.index

/-- Copies the value of a key into a slot, null if the key is absent. -/
def getMapValue (s key value : Slot) : Act η Unit := do
  let a ← s.mapOperands key (some value) "get_map_value"
  changeNative a fun m => m.getEntry s.index key.index value.index

/-- Stores a value under a key. -/
def setMapValue (s key value : Slot) : Act η Unit := do
  let a ← s.mapOperands key (some value) "set_map_value"
  changeNative a fun m => m.setEntry s.index key.index value.index

/-- Removes a key and leaves its value in a slot, null if the key is absent. -/
def removeMapValue (s key removed : Slot) : Act η Unit := do
  let a ← s.mapOperands key (some removed) "remove_map_value"
  changeNative a fun m => m.dropEntry s.index key.index removed.index

/-! ## Foreign objects -/

/-- Writes a new instance of the foreign class in another slot, and tags its data block with the
service of the machine. -/
def newForeign (s cls : Slot) (operation : String) : Act η Address := do
  cls.ensureSameVm s.vm operation
  let a ← s.checked operation
  let _ ← cls.checked operation
  match ← Native.newForeign a s.index cls.index with
  | none => Run.fault (.foreignAllocationFailed s.index)
  | some block =>
    Native.writeTag block (← Run.gets fun w => (w.vm s.vm).service)
    return block

/-- Tracks what is attached to a new data block. -/
def attach [Observer η] (s : Slot) (block : Address) (holding : Holding) : Act η Address := do
  let w ← Run.get
  let id := (w.vm s.vm).service
  let tag := w.typeNames.tag holding.payload.type
  let (added, payloads) := (w.service id).payloads.add block tag holding
  if added then
    Run.modify fun w => w.modifyService id fun service => { service with payloads }
    log .trace ("tracking foreign " ++ Text.Hex.address block ++ " as " ++ tag.name)
    return block
  else Run.fault (.registrationConflict "foreign object" block)

/-- Writes a new foreign object and attaches a host object to it. -/
def setNewForeignObject [Observer η] (s cls : Slot) (object : Shared) : Act η Address := do
  s.attach (← s.newForeign cls "set_new_foreign_object") (.object object)

/-- Writes a new foreign object and attaches a copy of a host value to it. -/
def setNewForeignStruct [Observer η] (s cls : Slot) (value : Payload) : Act η Address := do
  s.attach (← s.newForeign cls "set_new_foreign_struct") (.value value)

/-- The address of the data block of the foreign object in a slot. -/
def getForeignPtr (s : Slot) : Act η Address := do
  let a ← s.checked "get_foreign_ptr"
  s.expectType a .foreign
  Native.slotForeign a s.index

/-- The payloads of the service of a slot. -/
def payloads (s : Slot) : Act η Payloads := Run.gets fun w => (w.serviceOf s.vm).payloads

/-- The host object attached to the foreign object in a slot. -/
def getForeignObject (s : Slot) (t : PayloadType) : Act η t.Carrier := do
  let block ← s.getForeignPtr
  let names ← Run.gets World.typeNames
  return (← Run.ofExcept ((← s.payloads).object names block t)).2

/-- The host value attached to the foreign object in a slot. -/
def getForeignStruct (s : Slot) (t : PayloadType) : Act η t.Carrier := do
  let block ← s.getForeignPtr
  let names ← Run.gets World.typeNames
  Run.ofExcept ((← s.payloads).value names block t)

/-- Overwrites the host value attached to the foreign object in a slot. -/
def setForeignStruct (s : Slot) (p : Payload) : Act η Unit := do
  let block ← s.getForeignPtr
  let w ← Run.get
  let payloads ← Run.ofExcept ((w.serviceOf s.vm).payloads.setValue w.typeNames block p)
  Run.modify fun w => w.modifyService (w.vm s.vm).service fun service => { service with payloads }

/-- Whether a slot holds a foreign object with a payload of a type. -/
def isForeign (s : Slot) (t : PayloadType) : Act η Bool := do
  let a ← s.checked "is_foreign"
  if (← Native.slotType a s.index) ≠ .foreign then return false
  else
    let block ← s.getForeignPtr
    return (← s.payloads).is block t

end Slot

end ScriptHost.Bridge
