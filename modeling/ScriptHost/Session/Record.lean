import ScriptHost.Bridge.World

/-!
# What a session records

The answer of every step, and the events in between: calls of listeners and finalizers, handles that
are released, the log, and the steps of bodies.  Machines appear in events by name.
-/

namespace ScriptHost.Session

open Bridge
open Number (Double Single)

/-- The answer of a step. -/
inductive Answer where
  | null
  | bool (b : Bool)
  | integer (i : Int)
  | text (s : String)
  | double (x : Double)
  | single (x : Single)
  | bytes (bytes : List UInt8)
  | payload (p : Payload)
  | items (answers : List Answer)
  | fields (answers : List (String × Answer))

namespace Answer

/-- The answer with a natural number. -/
def count (n : Nat) : Answer := .integer n

/-- The answer of a step that answers nothing. -/
def ofUnit (_ : Unit) : Answer := .null

/-- The answer with a text, or null. -/
def ofText? : Option String → Answer
  | some s => .text s
  | none => .null

end Answer

/-- Something that happens during a step. -/
inductive Event where
  | write (vm text : String)
  | error (vm : String) (diagnostic : Diagnostic)
  | resolve (vm importer name : String)
  | load (vm name : String)
  | bindClass (vm module className : String)
  | bindMethod (vm : String) (name : Machine.MethodName)
  | nativeRelease (vm : String) (handle? : Option String)
  | classFinalizer (label : String) (typeName? : Option String) (payload? : Option Payload)
      (isNull : Bool)
  | typedFinalizer (label : String) (payload : Payload)
  | rawWrite (vm text : String)
  | rawError (vm : String) (diagnostic : Diagnostic)
  | log (level : LogLevel) (text : String)
  | step (label : String) (result : Except HostError Answer)

/-- How a step ended. -/
inductive Ending where
  | answered (a : Answer)
  | failed (e : HostError)
  | panicked (message : String)
  /-- The process ended. -/
  | aborted (message : String)

/-- The record of a step. -/
structure Record where
  ending : Ending
  events : List Event

end ScriptHost.Session
