import ScriptHost.Machine.Value
import ScriptHost.Code
import ScriptHost.Number.Shortest

/-!
# The heap

Objects are numbered from one in the order of their allocation and numbers are never used again.
Rendering follows references; it is meant for values that do not contain themselves, and stops at a
depth that no other value exceeds.
-/

namespace ScriptHost.Machine

/-- The objects of a machine. -/
structure Heap where
  objects : Table ObjectId Object
  /-- The number of the object allocated last, zero before the first one. -/
  lastId : Nat

namespace Heap

/-- The heap of a new machine. -/
def empty : Heap := ⟨.empty, 0⟩

/-- Allocates an object and returns its number. -/
def alloc (h : Heap) (o : Object) : ObjectId × Heap :=
  (h.lastId + 1, ⟨h.objects.insert (h.lastId + 1) o, h.lastId + 1⟩)

/-- The object with a number. -/
def get? (h : Heap) (id : ObjectId) : Option Object := h.objects.find? id

/-- Replaces an object. -/
def set (h : Heap) (id : ObjectId) (o : Object) : Heap :=
  { h with objects := h.objects.insert id o }

/-- A new object is found under its number. -/
theorem get?_alloc_self (h : Heap) (o : Object) : (h.alloc o).2.get? (h.alloc o).1 = some o :=
  Table.find?_insert_self h.objects (h.lastId + 1) o

/-- Allocation leaves all other objects alone. -/
theorem get?_alloc_of_ne (h : Heap) (o : Object) {id : ObjectId} (hne : id ≠ (h.alloc o).1) :
    (h.alloc o).2.get? id = h.get? id :=
  Table.find?_insert_ne h.objects o hne

/-- The class with a number. -/
def class? (h : Heap) (id : ObjectId) : Option Class :=
  match h.get? id with
  | some (.classDef c) => some c
  | _ => none

/-- The list with a number. -/
def list? (h : Heap) (id : ObjectId) : Option (List Value) :=
  match h.get? id with
  | some (.list items) => some items
  | _ => none

/-- The map with a number. -/
def map? (h : Heap) (id : ObjectId) : Option (List (Value × Value)) :=
  match h.get? id with
  | some (.map entries) => some entries
  | _ => none

/-- The data block of the foreign object with a number. -/
def block? (h : Heap) (id : ObjectId) : Option Block :=
  match h.get? id with
  | some (.foreign _ block) => some block
  | _ => none

/-- The name of the class with a number. -/
def className (h : Heap) (id : ObjectId) : String :=
  match h.class? id with
  | some c => c.name
  | none => "?"

/-- Whether an object is foreign. -/
def isForeign : Object → Bool
  | .foreign _ _ => true
  | _ => false

/-- The number of foreign objects on the heap. -/
def foreignCount (h : Heap) : Nat := h.objects.countValues isForeign

/-- The address of the data block of an object. -/
def blockAddress? : Object → Option Nat
  | .foreign _ block => some block.address
  | _ => none

/-- The addresses of the data blocks on the heap. -/
def blockAddresses (h : Heap) : List Nat := h.objects.values.filterMap blockAddress?

/-- The text of a value whose nesting is at most `depth`. -/
def textWithin (h : Heap) : Nat → Value → String
  | _, .null => "null"
  | _, .bool b => if b then "true" else "false"
  | _, .number x => x.text
  | _, .string bytes => Text.Utf8.decodeLossy bytes
  | 0, .object _ => "null"
  | depth + 1, .object id =>
    match h.get? id with
    | some (.list items) => "[" ++ ", ".intercalate (items.map (h.textWithin depth)) ++ "]"
    | some (.map entries) =>
      "\x7b" ++
        ", ".intercalate
          (entries.map fun e => h.textWithin depth e.1 ++ ": " ++ h.textWithin depth e.2) ++
        "\x7d"
    | some (.classDef c) => c.name
    | some (.instanceOf c) => "instance of " ++ h.className c
    | some (.foreign c _) => "instance of " ++ h.className c
    | none => "null"

/-- The text that a script prints for a value.  Objects that have been removed count for the depth, so
that it does not depend on collections. -/
def text (h : Heap) (v : Value) : String := h.textWithin (max (h.lastId + 1) h.objects.size + 1) v

/-- The name of the type of a value. -/
def typeName (h : Heap) : Value → String
  | .null => "Null"
  | .bool _ => "Bool"
  | .number _ => "Num"
  | .string _ => "String"
  | .object id =>
    match h.get? id with
    | some (.list _) => "List"
    | some (.map _) => "Map"
    | some (.classDef c) => c.name ++ " metaclass"
    | some (.instanceOf c) => h.className c
    | some (.foreign c _) => h.className c
    | none => "Null"

/-- The type of a value as a slot reports it. -/
def slotType (h : Heap) : Value → SlotType
  | .null => .null
  | .bool _ => .bool
  | .number _ => .number
  | .string _ => .string
  | .object id =>
    match h.get? id with
    | some (.list _) => .list
    | some (.map _) => .map
    | some (.foreign _ _) => .foreign
    | _ => .unknown

end Heap

end ScriptHost.Machine
