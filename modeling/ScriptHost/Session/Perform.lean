import ScriptHost.Session.Natives
import ScriptHost.Session.Values
import ScriptHost.Text.Quoted

/-!
# Performing steps

What each step of a session does.  `perform` itself never recurs: bodies are only stored here, and
run when a machine calls.
-/

namespace ScriptHost.Session

open Bridge

/-! ## Making host functions -/

/-- Sets a listener of a machine to a new host function. -/
def listen (view? : Option VmId) (vm? : Option String) (f : HostFunction)
    (set : Delegate → Listeners → Listeners) : Do Answer := do
  let vm ← vmNamed view? vm?
  let d ← newFunction f
  Vm.modifyListeners vm.id (set d)
  return .null

/-- The listeners without one of them, or without all. -/
def Clearing.apply : Clearing → Listeners → Listeners
  | .write, l => { l with write? := none }
  | .error, l => { l with error? := none }
  | .resolve, l => { l with resolve? := none }
  | .load, l => { l with load? := none }
  | .bindClass, l => { l with bindClass? := none }
  | .bindMethod, l => { l with bindMethod? := none }
  | .userData, l => { l with userData? := none }
  | .all, _ => .none

/-- Registers a class binding and names it. -/
def registerClassAs (name : String) (service : ServiceId) (binding : ClassBinding) : Do Answer := do
  let key ← registerClass service binding
  keep fun s => { s with classes := s.classes.insert name ⟨binding, key⟩ }
  return .count key

/-- Registers a method binding and names it. -/
def registerMethodAs (name : String) (service : ServiceId) (binding : MethodBinding) :
    Do Answer := do
  let key ← registerMethod service binding
  keep fun s => { s with methods := s.methods.insert name ⟨binding, key⟩ }
  return .count key

/-- Registers a named binding again, of a class if there is one with the name. -/
def reregister (source name : String) (service : ServiceId) : Do Answer := do
  match ← kept fun s => s.classes.find? source with
  | some registered => registerClassAs name service registered.binding
  | none =>
    let registered ← named "binding" Session.methods source
    registerMethodAs name service registered.binding

/-! ## Texts that show things -/

/-- A text with fields in braces. -/
def showFields (name : String) (fields : List (String × String)) : String :=
  name ++ " \x7b " ++ ", ".intercalate (fields.map fun f => f.1 ++ ": " ++ f.2) ++ " \x7d"

/-- The word for a truth value. -/
def showBool (b : Bool) : String := if b then "true" else "false"

/-- The text of a machine. -/
def showVm (vm : Vm) (record : VmRecord) : String :=
  showFields "Vm" [("addr", Text.Hex.address record.address), ("alive", showBool record.isAlive),
    ("is_root", showBool vm.isRoot), ("outstanding_handles", toString record.outstanding.length)]

/-- The text of a service. -/
def showService (id : ServiceId) (s : Service) : String :=
  showFields "Bridge" [("service", Text.Hex.address id),
    ("classes", toString s.bindings.classCount), ("methods", toString s.bindings.methodCount),
    ("foreign_objects", toString s.payloads.size)]

/-- The text of listeners. -/
def showListeners (l : Listeners) : String :=
  showFields "Listeners" [("write", showBool l.write?.isSome), ("error", showBool l.error?.isSome),
    ("resolve_module", showBool l.resolve?.isSome), ("load_module", showBool l.load?.isSome),
    ("bind_foreign_class", showBool l.bindClass?.isSome),
    ("bind_foreign_method", showBool l.bindMethod?.isSome),
    ("user_data", showBool l.userData?.isSome)]

/-- The text of a class binding. -/
def showClass (b : ClassBinding) : String :=
  showFields "ForeignClassBinding" [("allocator", Text.Hex.address b.allocator),
    ("finalizer", showBool b.finalizer?.isSome)]

/-- The text of a label. -/
def showLabel : Option String → String
  | none => "None"
  | some label => "Some(" ++ Text.Quoted.quote label ++ ")"

/-- The text of a method binding. -/
def showMethod (b : MethodBinding) : String :=
  showFields "ForeignMethodBinding" [("method", Text.Hex.address b.method),
    ("label", showLabel b.label?)]

/-- The text of a thing. -/
def describe (view? : Option VmId) (vm? : Option String) : Subject → Do String
  | .vm => do
    let vm ← vmNamed view? vm?
    Run.gets fun w => showVm vm (w.vm vm.id)
  | .bridge => do
    let vm ← vmNamed view? vm?
    Run.gets fun w => showService (w.vm vm.id).service (w.serviceOf vm.id)
  | .slot index => do
    let vm ← vmNamed view? vm?
    Run.gets fun w => showFields "Slot"
      [("vm", Text.Hex.address (w.addressOf vm.id)), ("index", toString index)]
  | .handle name => do
    let h ← handleNamed name
    Run.gets fun w => showFields "CallHandle"
      [("addr", Text.Hex.address h.address), ("vm", Text.Hex.address (w.addressOf h.vm)),
        ("valid", showBool (w.isLiveHandle h.address h.id))]
  | .cls name => do return showClass (← named "class" Session.classes name).binding
  | .method name => do return showMethod (← named "method" Session.methods name).binding
  | .listeners => return showListeners .none

/-! ## Machines -/

/-- Makes a machine and names it. -/
def makeVm (e : Engine Session) (name : String) (service : ServiceId) (config : VmConfig) :
    Do Answer := do
  let vm ← Vm.create service config
  let a ← Run.gets fun w => w.addressOf vm.id
  keep fun s => { s with vmNames := s.vmNames.insert a name }
  storeVm e name vm
  let c := config.native
  return .fields [("initial_heap_size", .count c.initialHeapSize),
    ("min_heap_size", .count c.minHeapSize), ("heap_growth_percent", .count c.heapGrowthPercent),
    ("policy", .text config.policy.name)]

/-- What the last machine that was freed still held. -/
def lastReport : Do Answer :=
  Run.gets fun w =>
    match w.freeReport? with
    | some r => .items [.count r.leakedHandles, .count r.finalizedObjects]
    | none => .null

/-- Takes the name of a machine away and ends the machine in the given way. -/
def endVm (view? : Option VmId) (vm? : Option String) (finish : Vm → Do Unit) : Do Answer := do
  let vm ← vmNamed view? vm?
  if vm?.isSome || view?.isNone then
    keep fun s => { s with vms := s.vms.erase (vm?.getD defaultVm) }
  finish vm
  lastReport

/-- Looks a machine up by its address and names the view, if there is a name. -/
def lookUp (e : Engine Session) (service : ServiceId) (a : Address) (name? : Option String) :
    Do Answer := do
  match ← lookupVm service a with
  | none => return .null
  | some vm =>
    let record ← Run.gets fun w => w.vm vm.id
    let known ← kept fun s => s.vmName record.address
    match name? with
    | some name => storeVm e name vm
    | none => pure ()
    return .fields [("vm", .text known), ("is_root", .bool vm.isRoot),
      ("alive", .bool record.isAlive)]

/-- Makes a machine without a service. -/
def makeRawVm (name : String) (hooks : PlainHooks) : Do Answer := do
  let a ← Native.place false (if hooks.userData then plainWord else 0)
  keep fun s => { s with rawVms := s.rawVms.insert name a, vmNames := s.vmNames.insert a name,
                         hooks := s.hooks.insert a hooks }
  return .null

/-- Frees a machine without a service. -/
def freeRawVm (e : Engine Session) (view? : Option VmId) (vm? : Option String) : Do Answer := do
  let a ← addressNamed view? vm?
  match vm? with
  | some name => keep fun s => { s with rawVms := s.rawVms.erase name }
  | none => pure ()
  Vm.freeNative e a
  lastReport

/-! ## Steps -/

/-- What a step does.  Without a name, the machine is `view?` inside a body. -/
def perform (e : Engine Session) (view? : Option VmId) : Action → Do Answer
  | .bridge name => do
    let id ← newService
    keep fun s => { s with bridges := s.bridges.insert name id }
    return .null
  | .cloneBridge name bridge? => do
    let id ← bridgeNamed bridge?
    keep fun s => { s with bridges := s.bridges.insert name id }
    return .null
  | .sameService bridge? other => do
    let a ← bridgeNamed bridge?
    let b ← bridgeNamed other
    return .bool (a == b)
  | .vmCount bridge? => do return .count (← vmCount (← bridgeNamed bridge?))
  | .foreignLen bridge? => do
    let id ← bridgeNamed bridge?
    Run.gets fun w => .count (w.service id).payloads.size
  | .bindingCounts bridge? => do
    let id ← bridgeNamed bridge?
    Run.gets fun w => .items [.count (w.service id).bindings.classCount,
      .count (w.service id).bindings.methodCount]
  | .lookup bridge? vm? name? => do
    let a ← addressNamed view? vm?
    lookUp e (← bridgeNamed bridge?) a name?
  | .registerClass name bridge? body making hasFinalizer => do
    let service ← bridgeNamed bridge?
    let allocator ← newFunction (.allocate body making)
    let finalizer? ←
      if hasFinalizer then some <$> newFunction (.classFinalizer name) else pure none
    registerClassAs name service ⟨allocator, finalizer?⟩
  | .registerMethod name bridge? body label? => do
    let service ← bridgeNamed bridge?
    let method ← newFunction (.body body)
    registerMethodAs name service ⟨method, label?⟩
  | .reregister source name bridge? => do reregister source name (← bridgeNamed bridge?)
  | .registerFinalizer t label bridge? => do
    let service ← bridgeNamed bridge?
    registerFinalizer service t (← newFunction (.typedFinalizer label))
    return .null
  | .fault faults => do
    Run.modify fun w => { w with faults }
    return .null
  | .vm name bridge? config => do makeVm e name (← bridgeNamed bridge?) config
  | .dispose vm? => endVm view? vm? (Vm.dispose e)
  | .drop vm? => endVm view? vm? (Vm.drop e)
  | .cloneVm vm? name => do
    let vm ← vmNamed view? vm?
    storeVm e name ⟨vm.id, false⟩
    return .null
  | .isAlive vm? => do
    let vm ← vmNamed view? vm?
    Run.gets fun w => .bool (w.vm vm.id).isAlive
  | .isRoot vm? => do return .bool (← vmNamed view? vm?).isRoot
  | .rawIsNull vm? => do
    let vm ← vmNamed view? vm?
    Run.gets fun w => .bool !(w.vm vm.id).isAlive
  | .outstanding vm? => do
    let vm ← vmNamed view? vm?
    Run.gets fun w => .count (w.vm vm.id).outstanding.length
  | .sameVm vm? other => do
    let a ← vmNamed view? vm?
    let b ← vmNamed view? other
    return .bool (a.id == b.id)
  | .liveCounts vm? => do
    let vm ← vmNamed view? vm?
    Run.gets fun w =>
      let m := w.machine (w.addressOf vm.id)
      .items [.count m.handles.size, .count m.heap.foreignCount]
  | .debug vm? subject => do return .text (← describe view? vm? subject)
  | .interpret vm? module source => do
    let vm ← vmNamed view? vm?
    return .text (← Vm.interpret e vm.id module source).name
  | .call vm? handle => do
    let vm ← vmNamed view? vm?
    let h ← handleNamed handle
    return .text (← Vm.call e vm.id h).name
  | .makeCallHandle vm? signature name => do
    let vm ← vmNamed view? vm?
    storeHandle name (← Vm.makeCallHandle vm.id signature)
    return .null
  | .release handle => do return .ofUnit (← (← handleNamed handle).release)
  | .dropHandle handle => do
    let h ← handleNamed handle
    keep fun s => { s with handles := s.handles.erase handle }
    return .ofUnit (← h.release)
  | .handleValid handle => do return .bool (← (← handleNamed handle).isValid)
  | .handleVm handle => do
    let h ← handleNamed handle
    return .text (← callerName h.vm)
  | .handleBelongs vm? handle => do
    let h ← handleNamed handle
    return .bool (h.belongsTo (← vmNamed view? vm?).id)
  | .collect vm? => do return .ofUnit (← Vm.collectGarbage e (← vmNamed view? vm?).id)
  | .ensureSlots vm? count => do return .ofUnit (← Vm.ensureSlots (← vmNamed view? vm?).id count)
  | .slotCount vm? => do return .count (← Vm.slotCount (← vmNamed view? vm?).id)
  | .slots vm? => do
    let _ ← vmNamed view? vm?
    return .fields [("indices", .items ((List.range 16).map .count)), ("own", .bool true)]
  | .hasModule vm? module => do return .bool (← Vm.hasModule (← vmNamed view? vm?).id module)
  | .hasVariable vm? module name => do
    return .bool (← Vm.hasVariable (← vmNamed view? vm?).id module name)
  | .getVariable vm? module name slot => do
    let vm ← vmNamed view? vm?
    let slot ← operandSlot view? vm.id slot
    return .ofUnit (← Vm.getVariable vm.id module name slot)
  | .abortFiber vm? slot => do
    let vm ← vmNamed view? vm?
    let slot ← operandSlot view? vm.id slot
    return .ofUnit (← Vm.abortFiber vm.id slot)
  | .abortMessage vm? message => do
    return .ofUnit (← Vm.abortFiberWithMessage (← vmNamed view? vm?).id message)
  | .onWrite vm? body => listen view? vm? (.body body) fun d l => { l with write? := some d }
  | .onError vm? body => listen view? vm? (.body body) fun d l => { l with error? := some d }
  | .onResolve vm? rule body =>
    listen view? vm? (.resolve rule body) fun d l => { l with resolve? := some d }
  | .onLoad vm? modules body =>
    listen view? vm? (.load modules body) fun d l => { l with load? := some d }
  | .onBindClass vm? rule body =>
    listen view? vm? (.bind rule body) fun d l => { l with bindClass? := some d }
  | .onBindMethod vm? rule body =>
    listen view? vm? (.bind rule body) fun d l => { l with bindMethod? := some d }
  | .clear vm? what => do
    let vm ← vmNamed view? vm?
    return .ofUnit (← Vm.modifyListeners vm.id what.apply)
  | .setUserData vm? source => do
    let vm ← vmNamed view? vm?
    let p ← makePayload vm.id source
    return .ofUnit (← Vm.modifyListeners vm.id fun l => { l with userData? := some p })
  | .getUserData vm? t => do
    let vm ← vmNamed view? vm?
    let l ← Vm.listeners vm.id
    let data? := l.userData?.filter fun p => p.type == t
    return .fields [("data", (data?.map Answer.payload).getD .null)]
  | .fail message => Run.fault (.script message)
  | .add vm? left right target => do
    let vm ← vmNamed view? vm?
    let x ← (Slot.mk vm.id left).getDouble
    let y ← (Slot.mk vm.id right).getDouble
    return .ofUnit (← (Slot.mk vm.id target).setDouble (x.add y))
  | .concat vm? left right target => do
    let vm ← vmNamed view? vm?
    let x ← (Slot.mk vm.id left).getString
    let y ← (Slot.mk vm.id right).getString
    return .ofUnit (← (Slot.mk vm.id target).setString (x ++ y))
  | .slot vm? index action => do
    let vm ← vmNamed view? vm?
    performSlot view? ⟨vm.id, index⟩ action
  | .rawVm name hooks => makeRawVm name hooks
  | .rawFree vm? => freeRawVm e view? vm?
  | .native vm? action => do performNative e (← addressNamed view? vm?) action
  | .trampoline vm? action => do performTrampoline e (← addressNamed view? vm?) action

end ScriptHost.Session
