import ScriptHost.Session.State

/-!
# Steps on slots

How a session performs operations on a slot, and how it makes payloads from slots.
-/

namespace ScriptHost.Session

open Bridge
open Number (Double)

/-- The slot that an operand means, of the machine `vm` unless it names one. -/
def operandSlot (view? : Option VmId) (vm : VmId) (o : Operand) : Do Slot := do
  match o.vm? with
  | none => return ⟨vm, o.index⟩
  | some _ => return ⟨(← vmNamed view? o.vm?).id, o.index⟩

/-- The slot of a machine in a list of indices, slot zero if the list is too short. -/
def slotAt (vm : VmId) (indices : List Nat) (position : Nat) : Slot := ⟨vm, indices.getD position 0⟩

/-- A payload read from slots of a machine. -/
def readPayload (vm : VmId) (indices : List Nat) : (t : PayloadType) → Do Payload
  | .word => do
    let i ← (slotAt vm indices 0).getInt
    return ⟨.word, UInt32.ofInt i⟩
  | .real => do return ⟨.real, ← (slotAt vm indices 0).getDouble⟩
  | .pair => do
    let x ← (slotAt vm indices 0).getDouble
    let y ← (slotAt vm indices 1).getDouble
    return ⟨.pair, (x, y)⟩
  | .text => do return ⟨.text, ← (slotAt vm indices 0).getString⟩

/-- The payload that a source gives. -/
def makePayload (vm : VmId) : PayloadSource → Do Payload
  | .given p => return p
  | .slots t indices => readPayload vm indices t

/-- A host object of its own for a payload. -/
def newObject (p : Payload) : Do Shared := do
  let identity ← kept Session.objects
  keep fun s => { s with objects := s.objects + 1 }
  return ⟨identity, p⟩

/-- Names a data block, if there is a name. -/
def namePointer (name? : Option String) (block : Address) : Do Unit :=
  match name? with
  | some name => keep fun s => { s with pointers := s.pointers.insert name block }
  | none => return ()

/-- Attaches a payload to a new foreign object in a slot. -/
def makeForeign (s cls : Slot) (kind : PayloadKind) (p : Payload) : Do Address := do
  match kind with
  | .object => s.setNewForeignObject cls (← newObject p)
  | .value => s.setNewForeignStruct cls p

/-- What is known of the data block in a slot. -/
def describePointer (s : Slot) : Do Answer := do
  let block ← s.getForeignPtr
  let names ← kept fun st => (st.pointers.entries.filter fun e => e.2 == block).map Prod.fst
  let tracked := (← s.payloads).contains block
  let sorted := names.mergeSort fun a b => a ≤ b
  return .fields [("null", .bool (block == 0)), ("known_as", .items (sorted.map .text)),
    ("tracked", .bool tracked)]

/-- Copies a payload from one slot into another one. -/
def copyPayload (s target : Slot) (second : Bool) : PayloadType → Do Unit
  | .word => do
    let v ← s.getForeignStruct .word
    target.setDouble (.ofInt (UInt32.toNat v))
  | .real => do
    let v ← s.getForeignStruct .real
    target.setDouble v
  | .pair => do
    let v ← s.getForeignStruct .pair
    target.setDouble (if second then v.2 else v.1)
  | .text => do
    let v ← s.getForeignObject .text
    target.setString v

/-- Performs an operation on a slot. -/
def performSlot (view? : Option VmId) (s : Slot) : SlotAction → Do Answer
  | .slotType => do return .text (← s.slotType).name
  | .isNull => do return .bool (← s.isNull)
  | .getBool => do return .bool (← s.getBool)
  | .getDouble => do return .double (← s.getDouble)
  | .getInt => do return .integer (← s.getInt)
  | .getFloat => do return .single (← s.getFloat)
  | .getString => do return .text (← s.getString)
  | .getOptionalString => do return .ofText? (← s.getOptionalString)
  | .getBytes => do return .bytes (← s.getBytes)
  | .setBool b => do return .ofUnit (← s.setBool b)
  | .setDouble x => do return .ofUnit (← s.setDouble x)
  | .setInt i => do return .ofUnit (← s.setInt i)
  | .setFloat x => do return .ofUnit (← s.setFloat x)
  | .setString text => do return .ofUnit (← s.setString text)
  | .setBytes bytes => do return .ofUnit (← s.setBytes bytes)
  | .setNull => do return .ofUnit (← s.setNull)
  | .getHandle name => do
    let h ← s.getHandle
    storeHandle name h
    return .null
  | .setHandle handle => do
    let h ← handleNamed handle
    s.setHandle h
    return .null
  | .setNewList => do return .ofUnit (← s.setNewList)
  | .listCount => do return .count (← s.listCount)
  | .getListElement index element => do
    let element ← operandSlot view? s.vm element
    return .ofUnit (← s.getListElement index element)
  | .setListElement index element => do
    let element ← operandSlot view? s.vm element
    return .ofUnit (← s.setListElement index element)
  | .insertInList index element => do
    let element ← operandSlot view? s.vm element
    return .ofUnit (← s.insertInList index element)
  | .setNewMap => do return .ofUnit (← s.setNewMap)
  | .mapCount => do return .count (← s.mapCount)
  | .mapContainsKey key => do
    let key ← operandSlot view? s.vm key
    return .bool (← s.mapContainsKey key)
  | .getMapValue key value => do
    let key ← operandSlot view? s.vm key
    let value ← operandSlot view? s.vm value
    return .ofUnit (← s.getMapValue key value)
  | .setMapValue key value => do
    let key ← operandSlot view? s.vm key
    let value ← operandSlot view? s.vm value
    return .ofUnit (← s.setMapValue key value)
  | .removeMapValue key removed => do
    let key ← operandSlot view? s.vm key
    let removed ← operandSlot view? s.vm removed
    return .ofUnit (← s.removeMapValue key removed)
  | .newForeignObject cls source name? => do
    let cls ← operandSlot view? s.vm cls
    let p ← makePayload s.vm source
    namePointer name? (← makeForeign s cls .object p)
    return .null
  | .newForeignStruct cls source name? => do
    let cls ← operandSlot view? s.vm cls
    let p ← makePayload s.vm source
    namePointer name? (← makeForeign s cls .value p)
    return .null
  | .getForeignPtr => describePointer s
  | .getForeignObject t => do return .payload ⟨t, ← s.getForeignObject t⟩
  | .getForeignStruct t => do return .payload ⟨t, ← s.getForeignStruct t⟩
  | .setForeignStruct source => do
    let p ← makePayload s.vm source
    return .ofUnit (← s.setForeignStruct p)
  | .isForeign t => do return .bool (← s.isForeign t)
  | .foreignToSlot t second target => do
    return .ofUnit (← copyPayload s ⟨s.vm, target⟩ second t)

end ScriptHost.Session
