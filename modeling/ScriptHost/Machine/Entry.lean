import ScriptHost.Machine.State

/-!
# Entry points of a machine

The operations by which a host reads and writes a machine from outside, with the indices and codes
of the boundary.  They check nothing: whatever does not fit reads as a default or changes nothing.
Lists and maps are shared, so a write through one slot is seen through every other.
-/

namespace ScriptHost.Machine.State

open Number (Double)

/-! ## Slots -/

/-- The number of slots. -/
def slotCount (s : State) : Nat := s.slots.length

/-- Adds null slots until there are at least `count`. -/
def ensureSlots (s : State) (count : Int) : State :=
  { s with slots := s.slots ++ List.replicate (count.toNat - s.slots.length) .null }

/-- The type of the value in a slot. -/
def slotType (s : State) (index : Int) : SlotType := s.heap.slotType (s.slot index)

/-- The truth value in a slot, `false` for anything else. -/
def slotBool (s : State) (index : Int) : Bool :=
  match s.slot index with
  | .bool b => b
  | _ => false

/-- The number in a slot, zero for anything else. -/
def slotDouble (s : State) (index : Int) : Double :=
  match s.slot index with
  | .number x => x
  | _ => .zero

/-- The bytes of the string in a slot. -/
def slotBytes? (s : State) (index : Int) : Option (List UInt8) :=
  match s.slot index with
  | .string bytes => some bytes
  | _ => none

/-- The data block of the foreign object in a slot. -/
def slotBlock? (s : State) (index : Int) : Option Block :=
  (s.slot index).object?.bind s.heap.block?

/-- Allocates an object and puts it into a slot. -/
def allocInto (s : State) (index : Int) (o : Object) : State :=
  let (id, s) := s.alloc o
  s.setSlot index (.object id)

/-- Puts a new list into a slot. -/
def newList (s : State) (index : Int) : State := s.allocInto index (.list [])

/-- Puts a new map into a slot. -/
def newMap (s : State) (index : Int) : State := s.allocInto index (.map [])

/-- The foreign class in a slot. -/
def foreignClass? (s : State) (index : Int) : Option ObjectId :=
  (s.slot index).object?.filter fun id =>
    match s.heap.class? id with
    | some c => c.isForeign
    | none => false

/-- Puts a new instance of the foreign class in `classIndex` into a slot, with its data block at
`address`.  The flag says whether there was such a class. -/
def newForeign (s : State) (index classIndex : Int) (address : Nat) : Bool × State :=
  match s.foreignClass? classIndex with
  | some owner => (true, s.allocInto index (.foreign owner ⟨address, none⟩))
  | none => (false, s)

/-- Writes the tag of a service into the data block at `address`. -/
def tagBlock (s : State) (address owner : Nat) : State :=
  match s.heap.objects.entries.find? fun e =>
      match e.2 with
      | .foreign _ block => block.address == address
      | _ => false with
  | some (id, .foreign c _) => { s with heap := s.heap.set id (.foreign c ⟨address, some owner⟩) }
  | _ => s

/-! ## Handles -/

/-- Keeps a handle for the host at `address`. -/
def storeHandle (s : State) (address : Nat) (target : HandleTarget) : State :=
  { s with handles := s.handles.insert address target }

/-- The number of arguments that a signature text has places for. -/
def placeCount (signature : String) : Nat := signature.toList.count '_'

/-- Makes a handle for calling a method. -/
def makeCallHandle (s : State) (address : Nat) (signature : String) : State :=
  s.storeHandle address (.method signature (placeCount signature))

/-- Makes a handle for the value in a slot. -/
def slotHandle (s : State) (address : Nat) (index : Int) : State :=
  s.storeHandle address (.value (s.slot index))

/-- Drops a handle. -/
def releaseHandle (s : State) (address : Nat) : State :=
  { s with handles := s.handles.erase address }

/-- Puts the value of a handle into a slot, null if the handle has none. -/
def setSlotHandle (s : State) (index : Int) (address : Nat) : State :=
  match s.handles.find? address with
  | some (.value v) => s.setSlot index v
  | _ => s.setSlot index .null

/-! ## Lists -/

/-- The position below `upper` that an index means; negative ones count from `upper` downwards. -/
def resolveIndex (index : Int) (upper : Nat) : Option Nat :=
  let i := if index < 0 then upper + index else index
  if 0 ≤ i ∧ i < upper then some i.toNat else none

/-- The list in a slot with its number. -/
def slotList? (s : State) (index : Int) : Option (ObjectId × List Value) := do
  let id ← (s.slot index).object?
  return (id, ← s.heap.list? id)

/-- The length of the list in a slot. -/
def listCount (s : State) (index : Int) : Nat :=
  match s.slotList? index with
  | some (_, items) => items.length
  | none => 0

/-- Copies an element of a list into a slot. -/
def getElement (s : State) (list index element : Int) : State :=
  match s.slotList? list with
  | some (_, items) =>
    match (resolveIndex index items.length).bind (items[·]?) with
    | some v => s.setSlot element v
    | none => s
  | none => s

/-- Replaces an element of a list by the value in a slot. -/
def setElement (s : State) (list index element : Int) : State :=
  match s.slotList? list with
  | some (id, items) =>
    match resolveIndex index items.length with
    | some i => { s with heap := s.heap.set id (.list (items.set i (s.slot element))) }
    | none => s
  | none => s

/-- Inserts the value in a slot into a list. -/
def insertElement (s : State) (list index element : Int) : State :=
  match s.slotList? list with
  | some (id, items) =>
    match resolveIndex index (items.length + 1) with
    | some i => { s with heap := s.heap.set id (.list (items.insertIdx i (s.slot element))) }
    | none => s
  | none => s

/-! ## Maps -/

/-- The map in a slot with its number. -/
def slotMap? (s : State) (index : Int) : Option (ObjectId × List (Value × Value)) := do
  let id ← (s.slot index).object?
  return (id, ← s.heap.map? id)

/-- The value stored under a key. -/
def findEntry (key : Value) : List (Value × Value) → Option Value
  | [] => none
  | (k, v) :: rest => if k.same key then some v else findEntry key rest

/-- Entries with a value stored under a key: in place if the key is there, at the end otherwise. -/
def putEntry (key v : Value) : List (Value × Value) → List (Value × Value)
  | [] => [(key, v)]
  | (k, v') :: rest => if k.same key then (k, v) :: rest else (k, v') :: putEntry key v rest

/-- Entries without the one of a key. -/
def removeEntry (key : Value) : List (Value × Value) → List (Value × Value)
  | [] => []
  | (k, v) :: rest => if k.same key then rest else (k, v) :: removeEntry key rest

/-- The number of entries of the map in a slot. -/
def mapCount (s : State) (index : Int) : Nat :=
  match s.slotMap? index with
  | some (_, entries) => entries.length
  | none => 0

/-- Whether the map in a slot has the key in another slot. -/
def containsKey (s : State) (map key : Int) : Bool :=
  match s.slotMap? map with
  | some (_, entries) => (findEntry (s.slot key) entries).isSome
  | none => false

/-- Copies the value of a key into a slot, null if the key is absent. -/
def getEntry (s : State) (map key value : Int) : State :=
  match s.slotMap? map with
  | some (_, entries) => s.setSlot value ((findEntry (s.slot key) entries).getD .null)
  | none => s

/-- Stores the value in a slot under a key. -/
def setEntry (s : State) (map key value : Int) : State :=
  match s.slotMap? map with
  | some (id, entries) =>
    { s with heap := s.heap.set id (.map (putEntry (s.slot key) (s.slot value) entries)) }
  | none => s

/-- Removes a key and puts its value into a slot, null if the key is absent. -/
def dropEntry (s : State) (map key removed : Int) : State :=
  match s.slotMap? map with
  | some (id, entries) =>
    let value := (findEntry (s.slot key) entries).getD .null
    { s with heap := s.heap.set id (.map (removeEntry (s.slot key) entries)) }.setSlot removed value
  | none => s

/-! ## Modules and fibers -/

/-- Whether there is a variable in a module. -/
def hasVariable (s : State) (module name : String) : Bool := (s.global? module name).isSome

/-- Whether there is a module. -/
def hasModule (s : State) (module : String) : Bool := s.modules.contains module

/-- Copies a variable into a slot, null if there is none. -/
def getVariable (s : State) (module name : String) (index : Int) : State :=
  s.setSlot index ((s.global? module name).getD .null)

/-- Asks the running host function to end with the value in a slot as its error. -/
def requestAbort (s : State) (index : Int) : State :=
  { s with abortRequest? := some (s.slot index) }

end ScriptHost.Machine.State
