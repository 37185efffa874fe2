import ScriptHost.Bridge.Execution

/-!
# Host programs

A host is arbitrary code that asks the bridge for one operation after the other.  A `Program` is
such code: it performs an `Operation`, sees how it ends, a panic included, and goes on as it likes.
It may stop at any place, so the worlds behind all programs are the worlds between any two
operations.  The functions that machines call back are programs as well (`Code`), and perform
operations on any machine while others run.

Beside what the host keeps for itself, the `Host` keeps a record for the theorems: the handles it was
given, those of them that it saw invalid, and the data blocks of classes without a finalizer.

Programs keep three rules, which `Operation.isPermitted` checks.  A handle is one that the bridge has
given out; a machine is made by a service that exists; and no machine is freed while it runs, inside
one of its own callbacks.  A new handle or data block never has the address of one that is in use.  A
service may be given a machine again that is alive, but none that was freed.
-/

namespace ScriptHost.Bridge

open Machine (Key MethodName)
open Number (Double Single)

variable {η α β : Type}

/-! ## The host -/

/-- A host, with a record of what it was given. -/
structure Host (η : Type) where
  own : η
  /-- All handles that operations have returned, oldest first. -/
  handles : List CallHandle
  /-- The handles that were seen to be invalid between two operations. -/
  lapsed : List CallHandle
  /-- The addresses at which the last data block of a service was made at a class without a
  finalizer. -/
  strays : List (ServiceId × Address)

namespace Host

/-- The strays once a data block has been made at an address, with a finalizer or without one. -/
def straysAt (h : Host η) (e : ServiceId × Address) : Option Key → List (ServiceId × Address)
  | some _ => h.strays.filter (· ≠ e)
  | none => e :: h.strays.filter (· ≠ e)

/-- Records a data block that was made at a class with the given finalizer. -/
def made (h : Host η) (service : ServiceId) (block : Address) (finalizer? : Option Key) : Host η :=
  { h with strays := h.straysAt (service, block) finalizer? }

end Host

instance [Observer η] : Observer (Host η) where
  log level text h := { h with own := Observer.log level text h.own }
  released vm handle h := { h with own := Observer.released vm handle h.own }

namespace World

/-- The world in which a host begins. -/
def start (typeNames : TypeNames) (placement : Placement) (own : η) : World (Host η) :=
  .empty typeNames placement ⟨own, [], [], []⟩

/-- Changes what the host keeps for itself. -/
def keep (w : World (Host η)) (f : η → η) : World (Host η) :=
  { w with host := { w.host with own := f w.host.own } }

/-- Records a handle that an operation returns. -/
def recordHandle (w : World (Host η)) (h : CallHandle) : World (Host η) :=
  { w with host := { w.host with handles := w.host.handles ++ [h] } }

/-- The finalizer of the foreign class in a slot. -/
def slotFinalizer? (w : World η) (s : Slot) : Option Key :=
  let m := w.machine (w.addressOf s.vm)
  (m.foreignClass? s.index).bind m.heap.finalizer?

/-- Records the data block that an operation has made.  One whose payload could not be attached, since
its address was tracked already, stays in memory all the same. -/
def recordBlock (w : World (Host η)) (service : ServiceId) (finalizer? : Option Key) :
    Except HostError Address → World (Host η)
  | .ok block => { w with host := w.host.made service block finalizer? }
  | .error (.registrationConflict _ block) => { w with host := w.host.made service block finalizer? }
  | .error _ => w

/-- Whether a handle has not been released. -/
def isValid (w : World η) (h : CallHandle) : Bool := w.isLiveHandle h.address h.id

/-- Records the handles that are not valid any more. -/
def watch (w : World (Host η)) : World (Host η) :=
  { w with host := { w.host with
      lapsed := w.host.handles.filter (fun h => !w.isValid h) ++ w.host.lapsed } }

end World

/-! ## Operations -/

/-- An operation that reads and writes the slots and variables of one machine. -/
inductive Access : Type → Type where
  | ensureSlots (vm : VmId) (count : Nat) : Access Unit
  | slotCount (vm : VmId) : Access Nat
  | hasModule (vm : VmId) (module : String) : Access Bool
  | hasVariable (vm : VmId) (module name : String) : Access Bool
  | getVariable (vm : VmId) (module name : String) (s : Slot) : Access Unit
  | abortFiber (vm : VmId) (s : Slot) : Access Unit
  | abortFiberWithMessage (vm : VmId) (message : String) : Access Unit
  | slotType (s : Slot) : Access SlotType
  | isNull (s : Slot) : Access Bool
  | getBool (s : Slot) : Access Bool
  | setBool (s : Slot) (b : Bool) : Access Unit
  | getDouble (s : Slot) : Access Double
  | setDouble (s : Slot) (x : Double) : Access Unit
  | getInt (s : Slot) : Access Int
  | setInt (s : Slot) (i : Int) : Access Unit
  | getFloat (s : Slot) : Access Single
  | setFloat (s : Slot) (x : Single) : Access Unit
  | setNull (s : Slot) : Access Unit
  | getString (s : Slot) : Access String
  | getOptionalString (s : Slot) : Access (Option String)
  | getBytes (s : Slot) : Access (List UInt8)
  | setBytes (s : Slot) (bytes : List UInt8) : Access Unit
  | setString (s : Slot) (text : String) : Access Unit
  | setNewList (s : Slot) : Access Unit
  | listCount (s : Slot) : Access Nat
  | getListElement (s : Slot) (index : Int) (element : Slot) : Access Unit
  | setListElement (s : Slot) (index : Int) (element : Slot) : Access Unit
  | insertInList (s : Slot) (index : Int) (element : Slot) : Access Unit
  | setNewMap (s : Slot) : Access Unit
  | mapCount (s : Slot) : Access Nat
  | mapContainsKey (s key : Slot) : Access Bool
  | getMapValue (s key value : Slot) : Access Unit
  | setMapValue (s key value : Slot) : Access Unit
  | removeMapValue (s key removed : Slot) : Access Unit
  | getForeignPtr (s : Slot) : Access Address
  | getForeignObject (s : Slot) (t : PayloadType) : Access t.Carrier
  | getForeignStruct (s : Slot) (t : PayloadType) : Access t.Carrier
  | isForeign (s : Slot) (t : PayloadType) : Access Bool

namespace Access

/-- The machine that an operation is about. -/
def vm : Access β → VmId
  | ensureSlots vm _ | slotCount vm | hasModule vm _ | hasVariable vm _ _ | getVariable vm _ _ _
  | abortFiber vm _ | abortFiberWithMessage vm _ => vm
  | slotType s | isNull s | getBool s | setBool s _ | getDouble s | setDouble s _ | getInt s
  | setInt s _ | getFloat s | setFloat s _ | setNull s | getString s | getOptionalString s
  | getBytes s | setBytes s _ | setString s _ | setNewList s | listCount s | getListElement s _ _
  | setListElement s _ _ | insertInList s _ _ | setNewMap s | mapCount s | mapContainsKey s _
  | getMapValue s _ _ | setMapValue s _ _ | removeMapValue s _ _ | getForeignPtr s
  | getForeignObject s _ | getForeignStruct s _ | isForeign s _ => s.vm

/-- Performs an operation. -/
def run : Access β → Act η β
  | ensureSlots vm count => Vm.ensureSlots vm count
  | slotCount vm => Vm.slotCount vm
  | hasModule vm module => Vm.hasModule vm module
  | hasVariable vm module name => Vm.hasVariable vm module name
  | getVariable vm module name s => Vm.getVariable vm module name s
  | abortFiber vm s => Vm.abortFiber vm s
  | abortFiberWithMessage vm message => Vm.abortFiberWithMessage vm message
  | slotType s => s.slotType
  | isNull s => s.isNull
  | getBool s => s.getBool
  | setBool s b => s.setBool b
  | getDouble s => s.getDouble
  | setDouble s x => s.setDouble x
  | getInt s => s.getInt
  | setInt s i => s.setInt i
  | getFloat s => s.getFloat
  | setFloat s x => s.setFloat x
  | setNull s => s.setNull
  | getString s => s.getString
  | getOptionalString s => s.getOptionalString
  | getBytes s => s.getBytes
  | setBytes s bytes => s.setBytes bytes
  | setString s text => s.setString text
  | setNewList s => s.setNewList
  | listCount s => s.listCount
  | getListElement s index element => s.getListElement index element
  | setListElement s index element => s.setListElement index element
  | insertInList s index element => s.insertInList index element
  | setNewMap s => s.setNewMap
  | mapCount s => s.mapCount
  | mapContainsKey s key => s.mapContainsKey key
  | getMapValue s key value => s.getMapValue key value
  | setMapValue s key value => s.setMapValue key value
  | removeMapValue s key removed => s.removeMapValue key removed
  | getForeignPtr s => s.getForeignPtr
  | getForeignObject s t => s.getForeignObject t
  | getForeignStruct s t => s.getForeignStruct t
  | isForeign s t => s.isForeign t

end Access

/-- What a host asks for. -/
inductive Operation (η : Type) : Type → Type 1 where
  /-- Looks at the world: the tables, the validity of handles, and what the host keeps. -/
  | look {β : Type} (f : World (Host η) → β) : Operation η β
  /-- Changes what the host keeps for itself. -/
  | keep (f : η → η) : Operation η Unit
  /-- What machines refuse or misreport from now on. -/
  | misreport (faults : List NativeFault) : Operation η Unit
  | newService : Operation η ServiceId
  | registerClass (service : ServiceId) (binding : ClassBinding) : Operation η Key
  | registerMethod (service : ServiceId) (binding : MethodBinding) : Operation η Key
  | registerFinalizer (service : ServiceId) (t : PayloadType) (finalizer : Delegate) :
      Operation η Unit
  | create (service : ServiceId) (config : VmConfig) : Operation η Vm
  | lookupVm (service : ServiceId) (a : Address) : Operation η (Option Vm)
  | listen (vm : VmId) (f : Listeners → Listeners) : Operation η Unit
  | access {β : Type} (x : Access β) : Operation η β
  | makeCallHandle (vm : VmId) (signature : String) : Operation η CallHandle
  | getHandle (s : Slot) : Operation η CallHandle
  | setHandle (s : Slot) (h : CallHandle) : Operation η Unit
  /-- Releases a handle, which dropping it does as well. -/
  | release (h : CallHandle) : Operation η Unit
  | setNewForeignObject (s cls : Slot) (object : Shared) : Operation η Address
  | setNewForeignStruct (s cls : Slot) (value : Payload) : Operation η Address
  | setForeignStruct (s : Slot) (value : Payload) : Operation η Unit
  | interpret (vm : VmId) (module source : String) : Operation η InterpretResult
  | call (vm : VmId) (h : CallHandle) : Operation η InterpretResult
  | collectGarbage (vm : VmId) : Operation η Unit
  | dispose (vm : Vm) : Operation η Unit
  | drop (vm : Vm) : Operation η Unit

/-- Whether a fault only refuses or misreports something, or gives out a machine again, which the
table of machines does not take.  The others give out an address again at which a handle or a data
block lies. -/
def NativeFault.isHonest : NativeFault → Bool
  | .sameHandle => false
  | .sameForeign => false
  | _ => true

/-- What a machine calls that no service has made: nothing.  Services make all machines here. -/
def noCallbacks {ε : Type} : Machine.Callbacks ε where
  write _ := Run.halt .exhausted
  report _ := Run.halt .exhausted
  resolve? := none
  load _ := Run.halt .exhausted
  bindClass _ _ := Run.halt .exhausted
  bindMethod _ := Run.halt .exhausted
  execute _ := Run.halt .exhausted
  allocate _ := Run.halt .exhausted
  finalize _ _ := Run.halt .exhausted

namespace Operation

/-- The rules for operations while the machines at the addresses `active` run. -/
def isPermitted (active : List Address) (w : World (Host η)) : Operation η β → Bool
  | misreport faults => faults.all NativeFault.isHonest
  | create service _ =>
    w.services.contains service && (!w.hasFault .sameVm || w.lastVm?.all w.registered.contains)
  | setHandle _ h | release h | call _ h => w.host.handles.contains h
  | dispose vm | drop vm =>
    !vm.isRoot || !(w.vm vm.id).isAlive || !active.contains (w.addressOf vm.id)
  | _ => true

/-- Ends an operation that was to make a data block, with a record of the block. -/
def recordResult (service : ServiceId) (finalizer? : Option Key)
    (result : Except HostError Address) : Act (Host η) Address := do
  Run.modify fun w => w.recordBlock service finalizer? result
  Run.ofExcept result

/-- Makes an instance of a foreign class and records its data block. -/
def recordingBlock (s cls : Slot) (make : Act (Host η) Address) : Act (Host η) Address := do
  let w ← Run.get
  recordResult (w.vm s.vm).service (w.slotFinalizer? cls) (← Run.attempt make)

/-- Makes a handle and records it. -/
def recordingHandle (make : Act (Host η) CallHandle) : Act (Host η) CallHandle := do
  let h ← make
  Run.modify fun w => w.recordHandle h
  return h

variable [Observer η]

/-- Performs an operation.  The functions that the machine at `a` calls back are those of
`engines (a :: active)`. -/
def run (engines : List Address → Engine (Host η)) (active : List Address) :
    Operation η β → Act (Host η) β
  | look f => Run.gets f
  | keep f => Run.modify fun w => w.keep f
  | misreport faults => Run.modify fun w => { w with faults }
  | newService => Bridge.newService
  | registerClass service binding => Bridge.registerClass service binding
  | registerMethod service binding => Bridge.registerMethod service binding
  | registerFinalizer service t finalizer => Bridge.registerFinalizer service t finalizer
  | create service config => Vm.create service config
  | lookupVm service a => Bridge.lookupVm service a
  | listen vm f => Vm.modifyListeners vm f
  | access x => x.run
  | makeCallHandle vm signature => recordingHandle (Vm.makeCallHandle vm signature)
  | getHandle s => recordingHandle s.getHandle
  | setHandle s h => s.setHandle h
  | release h => h.release
  | setNewForeignObject s cls object => recordingBlock s cls (s.setNewForeignObject cls object)
  | setNewForeignStruct s cls value => recordingBlock s cls (s.setNewForeignStruct cls value)
  | setForeignStruct s value => s.setForeignStruct value
  | interpret vm module source => do
    let a ← Run.gets fun w => w.addressOf vm
    Vm.interpret (engines (a :: active)) vm module source
  | call vm h => do
    let a ← Run.gets fun w => w.addressOf vm
    Vm.call (engines (a :: active)) vm h
  | collectGarbage vm => do
    let a ← Run.gets fun w => w.addressOf vm
    Vm.collectGarbage (engines (a :: active)) vm
  | dispose vm => do
    let a ← Run.gets fun w => w.addressOf vm.id
    Vm.dispose (engines (a :: active)) vm
  | drop vm => do
    let a ← Run.gets fun w => w.addressOf vm.id
    Vm.drop (engines (a :: active)) vm

end Operation

/-! ## Programs -/

/-- The code of a host. -/
inductive Program (η α : Type) : Type 1 where
  | done (a : α) : Program η α
  | stop (h : Halt) : Program η α
  | perform {β : Type} (op : Operation η β) (next : Outcome HostError β → Program η α) :
      Program η α

/-- Runs a program while the machines at the addresses `active` run.  Breaking a rule ends it. -/
def Program.run [Observer η] (engines : List Address → Engine (Host η)) (active : List Address) :
    Program η α → Effect (Host η) α
  | .done a => pure a
  | .stop h => Run.halt h
  | .perform op next => do
    Run.modify World.watch
    if op.isPermitted active (← Run.get) then
      let outcome ← (op.run engines active).observed
      (next outcome).run engines active
    else Run.halt (.fatal "broken rule")

/-- The programs that machines call back. -/
structure Code (η : Type) where
  write : Delegate → VmId → String → Program η Unit
  error : Delegate → VmId → Diagnostic → Program η Unit
  resolve : Delegate → VmId → String → String → Program η (Option String)
  load : Delegate → VmId → String → Program η (Option String)
  bindClass : Delegate → VmId → String → String → Program η (Option Key)
  bindMethod : Delegate → VmId → MethodName → Program η (Option Key)
  method : Delegate → VmId → Program η (Except HostError Unit)
  allocator : Delegate → VmId → Program η (Except HostError Unit)
  classFinalizer : Delegate → Finalized → Program η Unit
  typedFinalizer : Delegate → Payload → Program η Unit

namespace Code

/-- The functions of a host whose programs are run by `run`. -/
def delegates (code : Code η) (run : {α : Type} → Program η α → Effect (Host η) α) :
    Delegates (Host η) where
  write d vm text := run (code.write d vm text)
  error d vm diagnostic := run (code.error d vm diagnostic)
  resolve d vm importer name := run (code.resolve d vm importer name)
  load d vm name := run (code.load d vm name)
  bindClass d vm module name := run (code.bindClass d vm module name)
  bindMethod d vm name := run (code.bindMethod d vm name)
  method d vm := do Run.ofExcept (← (run (code.method d vm)).widen)
  allocator d vm := do Run.ofExcept (← (run (code.allocator d vm)).widen)
  classFinalizer d object := run (code.classFinalizer d object)
  typedFinalizer d payload := run (code.typedFinalizer d payload)
  unmanaged _ _ := noCallbacks

/-- The functions of a host with callbacks nested at most `depth` deep. -/
def engines [Observer η] (code : Code η) (importDepth : Nat) :
    Nat → List Address → Engine (Host η)
  | 0, _ => ⟨code.delegates fun _ => Run.halt .exhausted, importDepth⟩
  | depth + 1, active =>
    ⟨code.delegates fun p => p.run (code.engines importDepth depth) active, importDepth⟩

end Code

/-- A host: its names of types, the choice of addresses, what it keeps at first, its callbacks, and
how deep imports and callbacks may nest. -/
structure Setting (η : Type) where
  typeNames : TypeNames
  placement : Placement
  own : η
  code : Code η
  importDepth : Nat
  depth : Nat

namespace Setting

variable [Observer η]

/-- The callbacks for machines that are started by the program itself. -/
def engines (s : Setting η) : List Address → Engine (Host η) :=
  s.code.engines s.importDepth s.depth

/-- Runs a program from the beginning. -/
def run (s : Setting η) (p : Program η α) : Outcome Empty α × World (Host η) :=
  p.run s.engines [] (World.start s.typeNames s.placement s.own)

end Setting

end ScriptHost.Bridge
