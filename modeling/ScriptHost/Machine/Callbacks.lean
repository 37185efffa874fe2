import ScriptHost.Machine.Entry
import ScriptHost.Run

/-!
# Calls from a machine to its host

While a program runs, the machine calls its host: to write text, to report a diagnostic, to find and
load modules, to bind foreign classes and methods, to run them, and to finalize foreign objects.  A
callback may do whatever the host can do to the machine, running further programs included, so it
works on the machine and on the state of the host together.  It cannot raise a script error by
itself; it asks for one with `State.requestAbort`.
-/

namespace ScriptHost.Machine

/-- A machine in the middle of a run, with the state of its host. -/
structure Running (ε : Type) where
  machine : State
  host : ε

/-- A call from a machine to its host. -/
abbrev Call (ε α : Type) : Type := Run (Running ε) Empty α

/-- The keys to which a foreign class is bound. -/
structure ClassKeys where
  allocate? : Option Key
  finalize? : Option Key
  deriving DecidableEq, Repr

/-- A class that is bound to nothing. -/
def ClassKeys.unbound : ClassKeys := ⟨none, none⟩

/-- The name of a foreign method. -/
structure MethodName where
  module : String
  className : String
  isStatic : Bool
  signature : String
  deriving DecidableEq, Repr

/-- What a host does when it is called.  Texts have no NULs, since they cross as terminated strings;
only a host without a resolver sees none of them at all. -/
structure Callbacks (ε : Type) where
  write : String → Call ε Unit
  report : Diagnostic → Call ε Unit
  /-- The canonical name for an importer and a name, `none` to reject the import. -/
  resolve? : Option (String → String → Call ε (Option String))
  /-- The source of a module, `none` if there is none. -/
  load : String → Call ε (Option String)
  bindClass : String → String → Call ε ClassKeys
  bindMethod : MethodName → Call ε (Option Key)
  execute : Key → Call ε Unit
  allocate : Key → Call ε Unit
  finalize : Block → Key → Call ε Unit

/-- The machine. -/
def machine {ε φ : Type} : Run (Running ε) φ State := Run.gets Running.machine

/-- Changes the machine. -/
def update {ε φ : Type} (f : State → State) : Run (Running ε) φ Unit :=
  Run.modify fun r => { r with machine := f r.machine }

/-- Changes the machine and returns a result computed with it. -/
def updateGet {ε φ α : Type} (f : State → α × State) : Run (Running ε) φ α :=
  Run.modifyGet fun r => ((f r.machine).1, { r with machine := (f r.machine).2 })

end ScriptHost.Machine
