import ScriptHost.Session.State

/-!
# Steps on entry points and trampolines

Machines can be driven without any service, and the functions that machines call can be called with
any address.  A machine without a service has a few fixed callbacks.
-/

namespace ScriptHost.Session

open Bridge
open Machine (State Callbacks Call ClassKeys MethodName)

/-! ## Machines without a service -/

/-- The source of every module that a machine without a service loads. -/
def plainSource : String := "var Loaded = 7"

/-- The name of every module that a machine without a service resolves. -/
def plainName : String := "resolved"

/-- The word that a machine without a service may be made with. -/
def plainWord : Nat := 0x77

/-- Records an event in the middle of a run. -/
def emitInside (a : Address) (event : String → Event) : Call (World Session) Unit :=
  atHost a do
    let name ← kept fun s => s.vmName a
    emit (event name)

/-- What a machine without a service calls. -/
def plainCallbacks (a : Address) (h : PlainHooks) : Callbacks (World Session) where
  write text := if h.write then emitInside a (.rawWrite · text) else return ()
  report diagnostic := if h.error then emitInside a (.rawError · diagnostic) else return ()
  resolve? := if h.resolve then some fun _ _ => return some plainName else none
  load _ := if h.load then return some plainSource else return none
  bindClass _ _ := return .unbound
  bindMethod _ := return none
  execute _ := return ()
  allocate _ := return ()
  finalize _ _ := return ()

/-- A machine with no callbacks. -/
def PlainHooks.none : PlainHooks := ⟨false, false, false, false, false⟩

/-- What the machine at an address calls, if no service has made it. -/
def unmanagedCallbacks (w : World Session) (a : Address) : Callbacks (World Session) :=
  plainCallbacks a ((w.host.hooks.find? a).getD .none)

/-! ## Entry points -/

/-- A terminated text as a machine reads it, empty if there is none. -/
def readText (t : RawText) : String := (t.map Text.readTerminated).getD ""

/-- A terminated text as a service reads it. -/
def readText? (t : RawText) : Option String := t.map Text.readTerminated

/-- The address of a handle by its name, zero without one. -/
def rawHandle (name? : Option String) : Do Address :=
  match name? with
  | none => return 0
  | some name => named "handle" Session.rawHandles name

/-- Names a handle that was made without a service. -/
def nameRawHandle (name : String) (h : Address) : Do Answer := do
  keep fun s => { s with rawHandles := s.rawHandles.insert name h }
  return .bool true

/-- The word that stands for the length of bytes that are not there. -/
def absentLength : Int := -77

/-- Calls an entry point of the machine at an address. -/
def performNative (e : Engine Session) (a : Address) : NativeAction → Do Answer
  | .initConfiguration =>
    let c := NativeConfig.default
    return .items [.count c.initialHeapSize, .count c.minHeapSize, .count c.heapGrowthPercent,
      .bool false]
  | .collectGarbage => do return .ofUnit (← onMachine e.delegates a Machine.collectGarbage)
  | .interpret module source => do
    let result ← onMachine e.delegates a fun cb =>
      Machine.interpret cb e.importDepth (readText module) (readText source)
    return .count result.code
  | .getUserData => read fun s => .count s.userData
  | .setUserData word => change fun s => { s with userData := word }
  | .makeCallHandle signature name => do
    nameRawHandle name (← Native.placeHandle a fun s h => s.makeCallHandle h (readText signature))
  | .call handle? => do
    let h ← rawHandle handle?
    let result ← onMachine e.delegates a fun cb => Machine.callHandle cb h
    return .count result.code
  | .releaseHandle handle? => do
    let h ← rawHandle handle?
    change fun s => s.releaseHandle h
  | .liveCounts => read fun s => .items [.count s.handles.size, .count s.heap.foreignCount]
  | .getSlotCount => read fun s => .count s.slotCount
  | .ensureSlots count => change fun s => s.ensureSlots count
  | .getSlotType i => read fun s => .count (s.slotType i).code
  | .getSlotBool i => read fun s => .bool (s.slotBool i)
  | .getSlotBytes i => read fun s =>
    match s.slotBytes? i with
    | some bytes => .fields [("hex", .bytes (bytes ++ [0])), ("length", .count bytes.length)]
    | none => .fields [("null", .bool true), ("length", .integer absentLength)]
  | .getSlotDouble i => read fun s => .double (s.slotDouble i)
  | .getSlotForeign i => read fun s =>
    match s.slotBlock? i with
    | some block => .fields [("tagged", .bool block.owner?.isSome)]
    | none => .null
  | .getSlotString i => read fun s =>
    match s.slotBytes? i with
    | some bytes => .bytes (Text.cut bytes)
    | none => .null
  | .getSlotHandle i name => do
    nameRawHandle name (← Native.placeHandle a fun s h => s.slotHandle h i)
  | .setSlotBool i b => change fun s => s.setSlot i (.bool b)
  | .setSlotBytes i bytes => change fun s => s.setSlot i (.string bytes)
  | .setSlotDouble i x => change fun s => s.setSlot i (.number x)
  | .setSlotNewForeign i classIndex => do
    return .bool (← Native.placeForeign a i classIndex).isSome
  | .setSlotNewList i => change fun s => s.newList i
  | .setSlotNewMap i => change fun s => s.newMap i
  | .setSlotNull i => change fun s => s.setSlot i .null
  | .setSlotString i text => change fun s => s.setSlot i (.string (Text.cut (text.getD [])))
  | .setSlotHandle i handle? => do
    let h ← rawHandle handle?
    change fun s => s.setSlotHandle i h
  | .getListCount i => read fun s => .count (s.listCount i)
  | .getListElement list i element => change fun s => s.getElement list i element
  | .setListElement list i element => change fun s => s.setElement list i element
  | .insertInList list i element => change fun s => s.insertElement list i element
  | .getMapCount i => read fun s => .count (s.mapCount i)
  | .getMapContainsKey map key => read fun s => .bool (s.containsKey map key)
  | .getMapValue map key value => change fun s => s.getEntry map key value
  | .setMapValue map key value => change fun s => s.setEntry map key value
  | .removeMapValue map key value => change fun s => s.dropEntry map key value
  | .getVariable module name i => change fun s => s.getVariable (readText module) (readText name) i
  | .hasVariable module name =>
    read fun s => .bool (s.hasVariable (readText module) (readText name))
  | .hasModule module => read fun s => .bool (s.hasModule (readText module))
  | .abortFiber i => change fun s => s.requestAbort i
where
  read (f : State → Answer) : Do Answer := readNative a f
  change (f : State → State) : Do Answer := do
    changeNative a f
    return .null

/-! ## Trampolines -/

/-- The answer with a key, zero for none. -/
def keyAnswer (key? : Option Machine.Key) : Answer := .count (key?.getD 0)

/-- Calls a function that machines of a service call. -/
def performTrampoline (e : Engine Session) (a : Address) : TrampolineAction → Do Answer
  | .write text => silent (Trampoline.write d a (readText? text))
  | .error kind module line message =>
    silent (Trampoline.error d a
      ⟨.ofCode kind, readText? module, line, (readText? message).getD ""⟩)
  | .resolve importer name => do
    let resolved ← call (Trampoline.resolve d a (readText? importer) (readText? name))
    return match resolved with
      | some text => .fields [("hex", .bytes (Text.cut (Text.Utf8.encode text)))]
      | none => .null
  | .load name => do
    let source ← call (Trampoline.load d a (readText? name))
    return match source with
      | some text =>
        .fields [("source", .bytes (Text.cut (Text.Utf8.encode text))), ("on_complete", .bool true)]
      | none => .fields [("source", .null), ("on_complete", .bool false)]
  | .bindClass module className => do
    let keys ← call (Trampoline.bindClass d a (readText module) (readText className))
    return .fields [("allocate", .bool keys.allocate?.isSome),
      ("allocate_key", keyAnswer keys.allocate?), ("finalize", .bool keys.finalize?.isSome),
      ("finalize_key", keyAnswer keys.finalize?)]
  | .bindMethod module className signature isStatic => do
    let key? ← call (Trampoline.bindMethod d a
      ⟨readText module, readText className, isStatic, readText signature⟩)
    return .fields [("execute", .bool key?.isSome), ("key", keyAnswer key?)]
  | .execute key => silent (Trampoline.execute d a key)
  | .allocate key => silent (Trampoline.allocate d a key)
  | .finalize hasBlock key => do
    let block ← if hasBlock then newAddress else pure 0
    silent (Trampoline.finalize d ⟨block, none⟩ key)
  | .reallocate => return .fields [("kept", .count 42), ("freed_null", .bool true)]
where
  d : Delegates Session := e.delegates
  call {α : Type} (x : Effect Session α) : Do α := x.sealed.widen
  silent (x : Effect Session Unit) : Do Answer := do return .ofUnit (← call x)

end ScriptHost.Session
