import ScriptHost.Machine.Sweep
import ScriptHost.Script.Program

/-!
# The state of a machine

A machine has a heap, modules with their variables, the slots of the running frame, the slots of the
frames around it, values that are pinned while an expression is evaluated, and the handles that it
has given to its host.  Reading a slot that does not exist gives null and writing to one is ignored:
checking indices is the business of the host.
-/

namespace ScriptHost.Machine

/-- What a handle stands for. -/
inductive HandleTarget where
  | value (v : Value)
  /-- A method signature with the number of its arguments. -/
  | method (signature : String) (arity : Nat)
  deriving DecidableEq, Repr

/-- Where a machine executes. -/
structure Location where
  module : String
  line : Int
  deriving DecidableEq, Repr

/-- The variables of a module. -/
abbrev Module := Table String Value

/-- The state of a machine. -/
structure State where
  heap : Heap
  modules : Table String Module
  /-- The frame of the running host function, or the slots of the host itself. -/
  slots : List Value
  /-- The frames around the running one, innermost first. -/
  savedFrames : List (List Value)
  /-- Values in use by the running evaluation, the last one first. -/
  pins : List Value
  /-- The handles that the host holds, by address. -/
  handles : Table Nat HandleTarget
  /-- The error with which the running host function asked to abort. -/
  abortRequest? : Option Value
  location : Location
  /-- A word that the host may keep at the machine. -/
  userData : Nat
  /-- The foreign objects that were swept and wait for their finalizers, the next one first.  Their
  data blocks are still in memory. -/
  swept : List Dead
  /-- The data blocks whose finalizers are running, the last one first. -/
  finalizing : List Block
  /-- The number of foreign objects that have been finalized. -/
  finalized : Nat

namespace State

/-- The module that is there from the beginning. -/
def coreModule : String := "core"

/-- The class with the output methods. -/
def systemName : String := "System"

/-- The class with the abort method. -/
def fiberName : String := "Fiber"

/-- A class of the core module. -/
def coreClass (name : String) : Class :=
  ⟨name, coreModule, false, [], .empty, .empty, none, none⟩

/-- Defines a variable in a module, which is created if it does not exist. -/
def define (s : State) (module name : String) (v : Value) : State :=
  let globals := (s.modules.find? module).getD .empty
  { s with modules := s.modules.insert module (globals.insert name v) }

/-- Allocates an object. -/
def alloc (s : State) (o : Object) : ObjectId × State :=
  let (id, heap) := s.heap.alloc o
  (id, { s with heap := heap })

/-- Adds a class to the core module. -/
def addCoreClass (s : State) (name : String) : State :=
  let (id, s) := s.alloc (.classDef (coreClass name))
  s.define coreModule name (.object id)

/-- A new machine with the word `userData`. -/
def create (userData : Nat) : State :=
  let blank : State :=
    { heap := .empty, modules := .empty, slots := [], savedFrames := [], pins := [],
      handles := .empty, abortRequest? := none, location := ⟨"", -1⟩, userData, swept := [],
      finalizing := [], finalized := 0 }
  (blank.addCoreClass systemName).addCoreClass fiberName

/-- The list position of a slot index, `none` for a negative one. -/
def position? (index : Int) : Option Nat := if index < 0 then none else some index.toNat

/-- The value in a slot, null if there is no such slot. -/
def slot (s : State) (index : Int) : Value :=
  match position? index with
  | some i => s.slots.getD i .null
  | none => .null

/-- Writes a value into a slot, if there is such a slot. -/
def setSlot (s : State) (index : Int) (v : Value) : State :=
  match position? index with
  | some i => { s with slots := s.slots.set i v }
  | none => s

/-- A slot holds what was written into it. -/
theorem slot_setSlot_self (s : State) (v : Value) {i : Nat} (h : i < s.slots.length) :
    (s.setSlot i v).slot i = v := by
  have hn : ¬ (i : Int) < 0 := Int.not_lt.2 (Int.natCast_nonneg i)
  simp [slot, setSlot, position?, hn, List.getElem?_set_self h]

/-- Writing a slot leaves the others alone. -/
theorem slot_setSlot_of_ne (s : State) (v : Value) {i j : Nat} (h : j ≠ i) :
    (s.setSlot i v).slot j = s.slot j := by
  have hi : ¬ (i : Int) < 0 := Int.not_lt.2 (Int.natCast_nonneg i)
  have hj : ¬ (j : Int) < 0 := Int.not_lt.2 (Int.natCast_nonneg j)
  simp [slot, setSlot, position?, hi, hj, List.getElem?_set_ne (Ne.symm h)]

/-- The variable of a module. -/
def global? (s : State) (module name : String) : Option Value :=
  (s.modules.find? module).bind fun globals => globals.find? name

/-- The variable that a name means in a module: its own, or else one of the core module. -/
def lookup? (s : State) (module name : String) : Option Value :=
  (s.global? module name).or (s.global? coreModule name)

/-- The names that can be read in a module. -/
def namesIn (s : State) (module : String) : List String :=
  [coreModule, module].flatMap fun m => ((s.modules.find? m).map Table.keys).getD []

/-- The values from which a collection starts. -/
def rootValues (s : State) : List Value :=
  s.modules.values.flatMap Table.values ++ s.slots ++ s.savedFrames.flatten ++ s.pins ++
    s.abortRequest?.toList ++
    s.handles.values.filterMap fun
      | .value v => some v
      | .method _ _ => none

/-- The objects from which a collection starts. -/
def roots (s : State) : List ObjectId := s.rootValues.filterMap Value.object?

/-- The addresses of all data blocks in memory. -/
def blockAddresses (s : State) : List Nat :=
  s.heap.blockAddresses ++ s.swept.map (fun d => d.block.address) ++
    s.finalizing.map Block.address

/-- Collects garbage.  What is removed waits for its finalizers. -/
def sweep (s : State) : List Dead × State :=
  let (dead, heap) := s.heap.collect s.roots
  (dead, { s with heap, swept := dead ++ s.swept })

/-- Drops all handles and removes all objects, which wait for their finalizers. -/
def drain (s : State) : List Dead × State :=
  let (dead, heap) := s.heap.drain
  (dead, { s with heap, handles := .empty, swept := dead ++ s.swept })

/-- Begins to finalize a swept object, the next one. -/
def beginFinalizer (d : Dead) (s : State) : State :=
  { s with swept := s.swept.tail, finalizing := d.block :: s.finalizing }

/-- Ends the finalizer that was begun last, and lets go of its data block. -/
def endFinalizer (s : State) : State :=
  { s with finalizing := s.finalizing.tail, finalized := s.finalized + 1 }

end State

end ScriptHost.Machine
