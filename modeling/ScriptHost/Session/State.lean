import ScriptHost.Session.Record
import ScriptHost.Session.Step

/-!
# The state of a session

A session keeps the things it has named, what its host functions do, and the events since the last
record.  A thing that gets a name in use takes it over, and the thing that had it is dropped.
-/

namespace ScriptHost

open Bridge

namespace Session

/-- What a host function does. -/
inductive HostFunction where
  /-- Runs steps: a foreign method, or a listener for output or diagnostics. -/
  | body (steps : List Step)
  | allocate (steps : List Step) (making : Making)
  | resolve (rule : ResolveRule) (steps : List Step)
  | load (modules : List (String × String)) (steps : List Step)
  | bind (rule : BindRule) (steps : List Step)
  | classFinalizer (label : String)
  | typedFinalizer (label : String)

/-- A registered binding with its key. -/
structure Registered (β : Type) where
  binding : β
  key : Machine.Key

end Session

/-- What a session keeps for itself. -/
structure Session where
  bridges : Table String ServiceId
  vms : Table String Vm
  /-- Machines without a service. -/
  rawVms : Table String Address
  handles : Table String CallHandle
  rawHandles : Table String Address
  classes : Table String (Session.Registered ClassBinding)
  methods : Table String (Session.Registered MethodBinding)
  /-- Data blocks by the names of their objects. -/
  pointers : Table String Address
  functions : Table Delegate Session.HostFunction
  /-- The names under which machines were made, by address. -/
  vmNames : Table Address String
  /-- The names that handles were given last, by address. -/
  handleNames : Table Address String
  hooks : Table Address Session.PlainHooks
  /-- The number of host objects made. -/
  objects : Nat
  /-- The least severe log records that are kept. -/
  logLevel? : Option LogLevel
  /-- The events since the last record, the last one first. -/
  events : List Session.Event

namespace Session

/-- A session in which nothing is named. -/
def empty (logLevel? : Option LogLevel) : Session :=
  { bridges := .empty, vms := .empty, rawVms := .empty, handles := .empty, rawHandles := .empty,
    classes := .empty, methods := .empty, pointers := .empty, functions := .empty,
    vmNames := .empty, handleNames := .empty, hooks := .empty, objects := 0, logLevel?,
    events := [] }

/-- The rank of a severity, the most severe first. -/
def severity : LogLevel → Nat
  | .error => 0
  | .warn => 1
  | .debug => 2
  | .trace => 3

/-- The name under which the machine at an address was made. -/
def vmName (s : Session) (a : Address) : String := (s.vmNames.find? a).getD "?"

/-- Where the machine lies, or lay, that was made last under a name. -/
def lastMade? (s : Session) (name : String) : Option Address :=
  (s.vmNames.entries.reverse.find? fun e => e.2 == name).map Prod.fst

/-- Records an event. -/
def record (s : Session) (e : Event) : Session := { s with events := e :: s.events }

/-- Whether a log record of a severity is kept. -/
def keeps (s : Session) (level : LogLevel) : Bool :=
  match s.logLevel? with
  | some least => severity level ≤ severity least
  | none => false

instance : Observer Session where
  log level text s := if s.keeps level then s.record (.log level text) else s
  released vm handle s := s.record (.nativeRelease (s.vmName vm) (s.handleNames.find? handle))

/-- An operation of a session. -/
abbrev Do (α : Type) : Type := Act Session α

section

variable {φ : Type}

/-- Part of what the session keeps. -/
def kept {α : Type} (f : Session → α) : Run (World Session) φ α := Run.gets fun w => f w.host

/-- Changes what the session keeps. -/
def keep (f : Session → Session) : Run (World Session) φ Unit :=
  Run.modify fun w => { w with host := f w.host }

/-- Records an event. -/
def emit (e : Event) : Run (World Session) φ Unit := keep fun s => s.record e

/-- The name of a machine that calls. -/
def callerName (vm : VmId) : Run (World Session) φ String :=
  Run.gets fun w => w.host.vmName (w.addressOf vm)

/-- Where the host functions of a session lie. -/
def functionBase : Address := 0x7F0000000000

/-- Makes a host function. -/
def newFunction (f : HostFunction) : Run (World Session) φ Delegate :=
  Run.modifyGet fun w =>
    let d := functionBase + 16 * w.host.functions.size
    (d, { w with host := { w.host with functions := w.host.functions.insert d f } })

end

/-! ## Names -/

/-- What is said of a name that nothing has. -/
def missing (what name : String) : String := "no " ++ what ++ " '" ++ name ++ "'"

/-- The thing with a name, or else a panic. -/
def named {α : Type} (what : String) (table : Session → Table String α) (name : String) : Do α := do
  match ← kept fun s => (table s).find? name with
  | some a => return a
  | none => Run.halt (.panic (missing what name))

/-- The machine that is meant without a name, outside bodies. -/
def defaultVm : String := "v"

/-- The service that is meant without a name. -/
def defaultBridge : String := "b"

/-- The handle with a name. -/
def handleNamed (name : String) : Do CallHandle := named "handle" Session.handles name

/-- The service with a name. -/
def bridgeNamed (name? : Option String) : Do ServiceId :=
  named "bridge" Session.bridges (name?.getD defaultBridge)

/-- The machine with a name, or else the one that runs the body, which is a view. -/
def vmNamed (view? : Option VmId) (name? : Option String) : Do Vm :=
  match name?, view? with
  | some name, _ => named "vm" Session.vms name
  | none, some id => return ⟨id, false⟩
  | none, none => named "vm" Session.vms defaultVm

/-- An address at which there is never a machine. -/
def unknownAddress : Address := 0x10

/-- The address that a name alone means: of a machine without a service, or of one that is gone and
whose name nothing has taken over. -/
def address? (s : Session) (name : String) : Option Address :=
  (s.rawVms.find? name).or (if s.vms.contains name then none else s.lastMade? name)

/-- The address of a machine, alive or gone, or one at which there never is any. -/
def addressNamed (view? : Option VmId) (name? : Option String) : Do Address :=
  if name? = some "?unknown" then return unknownAddress
  else if name? = some "?null" then return 0
  else do
    let known? := name?.or (if view?.isNone then some defaultVm else none)
    match ← kept fun s => known?.bind s.address? with
    | some a => return a
    | none =>
      let vm ← vmNamed view? name?
      Run.gets fun w => w.addressOf vm.id

/-- Gives a name to a machine in the hand of the host. -/
def storeVm (e : Engine Session) (name : String) (vm : Vm) : Do Unit := do
  let old? ← kept fun s => s.vms.find? name
  keep fun s => { s with vms := s.vms.insert name vm }
  match old? with
  | some old => Vm.drop e old
  | none => return ()

/-- Gives a name to a handle. -/
def storeHandle (name : String) (h : CallHandle) : Do Unit := do
  let old? ← kept fun s => s.handles.find? name
  keep fun s =>
    { s with handles := s.handles.insert name h,
             handleNames := s.handleNames.insert h.address name }
  match old? with
  | some old => old.release
  | none => return ()

end Session

end ScriptHost
