import ScriptHost.Script.CompileError

/-!
# Runtime errors

Why a running program stops.  A program that does not compile is a fault of its own, since an
importing module turns it into a runtime error and the host reports it differently.
-/

namespace ScriptHost.Machine

open Script (quote)

/-- Why a running program stops. -/
inductive RuntimeError where
  | undefinedVariable (name : String)
  /-- The receiver has no such method. -/
  | missingMethod (receiverType signature : String)
  /-- The program or a host function asked to stop, with the text of the error value. -/
  | aborted (text : String)
  | noAllocator (className : String)
  /-- An allocator left something else than an instance of its class. -/
  | noInstance (className : String)
  | unboundMethod (signature className module : String)
  | unresolvedModule (name importer : String)
  | missingModule (name : String)
  | brokenModule (name : String)
  | missingVariable (name module : String)
  deriving DecidableEq, Repr

/-- The text of a runtime error. -/
def RuntimeError.message : RuntimeError → String
  | .undefinedVariable name => "Variable " ++ quote name ++ " is not defined."
  | .missingMethod receiverType signature =>
    receiverType ++ " does not implement " ++ quote signature ++ "."
  | .aborted text => text
  | .noAllocator className => "Foreign class " ++ quote className ++ " has no allocator."
  | .noInstance className =>
    "Allocator of foreign class " ++ quote className ++ " did not create an instance."
  | .unboundMethod signature className module =>
    "Could not find foreign method " ++ quote signature ++ " for class " ++ className ++
      " in module " ++ quote module ++ "."
  | .unresolvedModule name importer =>
    "Could not resolve module " ++ quote name ++ " imported from " ++ quote importer ++ "."
  | .missingModule name => "Could not load module " ++ quote name ++ "."
  | .brokenModule name => "Could not compile module " ++ quote name ++ "."
  | .missingVariable name module =>
    "Could not find a variable named " ++ quote name ++ " in module " ++ quote module ++ "."

/-- Why a run ends early. -/
inductive Fault where
  | compile (e : Script.CompileError)
  | runtime (e : RuntimeError)
  deriving DecidableEq, Repr

/-- The text of a fault. -/
def Fault.message : Fault → String
  | .compile e => e.message
  | .runtime e => e.message

end ScriptHost.Machine
