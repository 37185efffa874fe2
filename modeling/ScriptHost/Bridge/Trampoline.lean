import ScriptHost.Bridge.Vm

/-!
# Calls from machines to services

Every machine of a service calls the same functions.  Each of them finds the machine by its address
in the process-wide table, finds the listener or the binding that is meant, and runs it.  What the
table does not know, and listeners that are not set, have defaults and never fail.

A host function that fails with an ordinary error makes the running program fail with its text; one
that fails with a fatal error ends the process, and so does a panic.
-/

namespace ScriptHost.Bridge

open Machine (Key MethodName ClassKeys Callbacks Running Call)

variable {η α φ : Type}

/-- What the functions of a host do.  Each gets the machine that calls, as a view. -/
structure Delegates (η : Type) where
  write : Delegate → VmId → String → Effect η Unit
  error : Delegate → VmId → Diagnostic → Effect η Unit
  resolve : Delegate → VmId → String → String → Effect η (Option String)
  load : Delegate → VmId → String → Effect η (Option String)
  bindClass : Delegate → VmId → String → String → Effect η (Option Key)
  bindMethod : Delegate → VmId → MethodName → Effect η (Option Key)
  method : Delegate → VmId → Act η Unit
  allocator : Delegate → VmId → Act η Unit
  classFinalizer : Delegate → Finalized → Effect η Unit
  typedFinalizer : Delegate → Payload → Effect η Unit
  /-- What a machine calls that no service has made. -/
  unmanaged : World η → Address → Callbacks (World η)

namespace Trampoline

variable [Observer η]

/-- The machine that is registered at an address. -/
def lookup (a : Address) (callback : String) : Effect η (Option VmId) := do
  let w ← Run.get
  match w.registered.find? a with
  | some id => return some id
  | none =>
    log .warn (callback ++ " callback for unmanaged vm " ++ Text.Hex.address a)
    return none

/-- Turns the result of a host function into what the running program sees. -/
def settle (vm : VmId) (result : Except HostError Unit) (what : String) : Effect η Unit := do
  match result with
  | .ok () => return ()
  | .error e =>
    if e.isFatal then fatal e
    else
      let address := Text.Hex.address (← Run.gets fun w => w.addressOf vm)
      log .debug ("vm " ++ address ++ ": " ++ what ++ " raised a script error: " ++ e.message)
      match ← Run.attempt (Vm.abortFiberWithMessage vm e.message) with
      | .ok () => return ()
      | .error e' =>
        log .error ("vm " ++ address ++ ": could not report '" ++ e.message ++
          "' to the script: " ++ e'.message)

/-- The error of calling a key that is bound to nothing. -/
def unknownBinding (what : String) (key : Key) : HostError :=
  .script ("no foreign " ++ what ++ " is registered under key " ++ toString key)

/-! ## Output -/

/-- A machine writes a text. -/
def write (d : Delegates η) (a : Address) (text? : Option String) : Effect η Unit := do
  match ← lookup a "write" with
  | none => return ()
  | some id =>
    match (← Vm.listeners id).write? with
    | none => return ()
    | some listener => d.write listener id (text?.getD "")

/-- A machine reports a diagnostic. -/
def error (d : Delegates η) (a : Address) (diagnostic : Diagnostic) : Effect η Unit := do
  match ← lookup a "error" with
  | none => return ()
  | some id =>
    match (← Vm.listeners id).error? with
    | some listener => d.error listener id diagnostic
    | none =>
      log .debug ("vm " ++ Text.Hex.address a ++ ": unhandled " ++ diagnostic.kind.name ++
        " error: " ++ diagnostic.message)

/-! ## Modules -/

/-- A machine asks for the canonical name of a module. -/
def resolve (d : Delegates η) (a : Address) (importer? name? : Option String) :
    Effect η (Option String) := do
  match name? with
  | none => return none
  | some name =>
    match ← lookup a "resolve module" with
    | none => return some name
    | some id =>
      match (← Vm.listeners id).resolve? with
      | none => return some name
      | some listener => d.resolve listener id (importer?.getD "") name

/-- A machine asks for the source of a module.  A source with a NUL cannot be handed over. -/
def load (d : Delegates η) (a : Address) (name? : Option String) : Effect η (Option String) := do
  match ← lookup a "load module" with
  | none => return none
  | some id =>
    match (← Vm.listeners id).load?, name? with
    | some listener, some name =>
      match ← d.load listener id name with
      | none => return none
      | some source =>
        match Text.firstNul? source with
        | none => return some source
        | some position =>
          log .warn ("source of module '" ++ name ++ "' is not loadable: " ++
            HostError.nulMessage position)
          return none
    | _, _ => return none

/-! ## Binding -/

/-- A machine asks for the binding of a foreign method. -/
def bindMethod (d : Delegates η) (a : Address) (name : MethodName) : Effect η (Option Key) := do
  match ← lookup a "bind foreign method" with
  | none => return none
  | some id =>
    match (← Vm.listeners id).bindMethod? with
    | none => return none
    | some listener =>
      match ← d.bindMethod listener id name with
      | none => return none
      | some key =>
        if ((← Run.gets fun w => w.serviceOf id).bindings.method? key).isSome then return some key
        else
          log .warn ("binder returned unknown method key " ++ toString key ++ " for " ++
            name.className ++ "." ++ name.signature)
          return none

/-- A machine asks for the binding of a foreign class. -/
def bindClass (d : Delegates η) (a : Address) (module className : String) :
    Effect η ClassKeys := do
  match ← lookup a "bind foreign class" with
  | none => return .unbound
  | some id =>
    match (← Vm.listeners id).bindClass? with
    | none => return .unbound
    | some listener =>
      match ← d.bindClass listener id module className with
      | none => return .unbound
      | some key =>
        if ((← Run.gets fun w => w.serviceOf id).bindings.class? key).isSome then
          return ⟨some key, some key⟩
        else
          log .warn ("binder returned unknown class key " ++ toString key ++ " for " ++ module ++
            "." ++ className)
          return .unbound

/-! ## Foreign calls -/

/-- A machine runs a foreign method. -/
def execute (d : Delegates η) (a : Address) (key : Key) : Effect η Unit := do
  match ← lookup a "foreign method" with
  | none => return ()
  | some id =>
    match (← Run.gets fun w => w.serviceOf id).bindings.method? key with
    | none => settle id (.error (unknownBinding "method" key)) "foreign method"
    | some binding => settle id (← Run.attempt (d.method binding.method id)) "foreign method"

/-- A machine runs the allocator of a foreign class. -/
def allocate (d : Delegates η) (a : Address) (key : Key) : Effect η Unit := do
  match ← lookup a "allocate" with
  | none => return ()
  | some id =>
    match (← Run.gets fun w => w.serviceOf id).bindings.class? key with
    | none => settle id (.error (unknownBinding "class" key)) "allocator"
    | some binding => settle id (← Run.attempt (d.allocator binding.allocator id)) "allocator"

/-- Runs the finalizers of an object whose payload was taken out of a service: the one of the class
first, then the one of the type.  Tells whether there was a payload. -/
def runFinalizers (d : Delegates η) (service : ServiceId) (address : Address)
    (classFinalizer? : Option Delegate) (found? : Option Entry) : Effect η Bool := do
  if let some finalizer := classFinalizer? then
    d.classFinalizer finalizer (Payloads.finalized address found?)
  match found? with
  | none =>
    log .trace ("finalize for untracked foreign " ++ Text.Hex.address address)
    return false
  | some entry =>
    if let some finalizer := (← Run.gets fun w => w.service service).payloads.finalizer? entry then
      d.typedFinalizer finalizer entry.holding.payload
    return true

/-- Takes the payload under an address out of a service and runs its finalizers. -/
def finalizePayload (d : Delegates η) (service : ServiceId) (address : Address)
    (classFinalizer? : Option Delegate) : Effect η Bool := do
  let found? ← Run.modifyGet fun w =>
    let (found?, payloads) := (w.service service).payloads.take address
    (found?, w.modifyService service fun s => { s with payloads })
  runFinalizers d service address classFinalizer? found?

/-- A machine finalizes a foreign object.  The tag in its data block names the service. -/
def finalize (d : Delegates η) (block : Machine.Block) (key : Key) : Effect η Unit := do
  if block.address = 0 then return ()
  else
    match block.owner? with
    | none => log .warn ("finalizing untagged foreign object " ++ Text.Hex.address block.address)
    | some service =>
      let binding? := (← Run.gets fun w => w.service service).bindings.class? key
      let _ ← finalizePayload d service block.address (binding?.bind ClassBinding.finalizer?)
      return ()

end Trampoline

/-! ## Machines among their callbacks -/

/-- Runs work of the host in the middle of a run of the machine at an address. -/
def atHost (a : Address) (x : Effect η α) : Call (World η) α := fun r =>
  let (outcome, w) := x.sealed (r.host.putMachine a r.machine)
  (outcome, ⟨w.machine a, w⟩)

/-- What the machine of a service at an address calls. -/
def callbacks [Observer η] (d : Delegates η) (a : Address) : Callbacks (World η) where
  write text := atHost a (Trampoline.write d a (some text))
  report diagnostic := atHost a (Trampoline.error d a diagnostic)
  resolve? := some fun importer name =>
    atHost a (Trampoline.resolve d a (some importer) (some name))
  load name := atHost a (Trampoline.load d a (some name))
  bindClass module className := atHost a (Trampoline.bindClass d a module className)
  bindMethod name := atHost a (Trampoline.bindMethod d a name)
  execute key := atHost a (Trampoline.execute d a key)
  allocate key := atHost a (Trampoline.allocate d a key)
  finalize block key := atHost a (Trampoline.finalize d block key)

/-- What the machine at an address calls. -/
def callbacksOf [Observer η] (d : Delegates η) (w : World η) (a : Address) :
    Callbacks (World η) :=
  match w.natives.find? a with
  | some n => if n.isManaged then callbacks d a else d.unmanaged w a
  | none => callbacks d a

/-- Lets the machine at an address run. -/
def onMachine [Observer η] (d : Delegates η) (a : Address)
    (x : Callbacks (World η) → Call (World η) α) : Run (World η) φ α := fun w =>
  match x (callbacksOf d w a) ⟨w.machine a, w⟩ with
  | (.value v, r) => (.value v, r.host.putMachine a r.machine)
  | (.halt h, r) => (.halt h, r.host.putMachine a r.machine)

end ScriptHost.Bridge
