/-!
# Codes at the boundary

Outcomes, diagnostics and slot types cross the boundary between host and machine as numbers.  Each
kind has a default that every unknown number is read as; `ofCode (code x) = x` for every `x`.
-/

namespace ScriptHost

/-- How a run or a call ended. -/
inductive InterpretResult where
  | success
  | compileError
  | runtimeError
  deriving DecidableEq, Repr, Inhabited

namespace InterpretResult

/-- The number of a result. -/
def code : InterpretResult → Nat
  | success => 0
  | compileError => 1
  | runtimeError => 2

/-- The result with a given number; unknown numbers are runtime errors. -/
def ofCode : Nat → InterpretResult
  | 0 => success
  | 1 => compileError
  | _ => runtimeError

/-- The name of a result. -/
def name : InterpretResult → String
  | success => "Success"
  | compileError => "CompileError"
  | runtimeError => "RuntimeError"

theorem ofCode_code (r : InterpretResult) : ofCode r.code = r := by cases r <;> rfl

end InterpretResult

/-- What a diagnostic reports. -/
inductive DiagnosticKind where
  | compile
  | runtime
  | stackTrace
  deriving DecidableEq, Repr, Inhabited

namespace DiagnosticKind

/-- The number of a kind. -/
def code : DiagnosticKind → Nat
  | compile => 0
  | runtime => 1
  | stackTrace => 2

/-- The kind with a given number; unknown numbers are runtime diagnostics. -/
def ofCode : Nat → DiagnosticKind
  | 0 => compile
  | 2 => stackTrace
  | _ => runtime

/-- The name of a kind. -/
def name : DiagnosticKind → String
  | compile => "Compile"
  | runtime => "Runtime"
  | stackTrace => "StackTrace"

theorem ofCode_code (k : DiagnosticKind) : ofCode k.code = k := by cases k <;> rfl

end DiagnosticKind

/-- The type of the value in a slot. -/
inductive SlotType where
  | bool
  | number
  | foreign
  | list
  | map
  | null
  | string
  | unknown
  deriving DecidableEq, Repr, Inhabited

namespace SlotType

/-- The number of a type. -/
def code : SlotType → Nat
  | bool => 0
  | number => 1
  | foreign => 2
  | list => 3
  | map => 4
  | null => 5
  | string => 6
  | unknown => 7

/-- The type with a given number; unknown numbers are the unknown type. -/
def ofCode : Nat → SlotType
  | 0 => bool
  | 1 => number
  | 2 => foreign
  | 3 => list
  | 4 => map
  | 5 => null
  | 6 => string
  | _ => unknown

/-- The name of a type. -/
def name : SlotType → String
  | bool => "Bool"
  | number => "Number"
  | foreign => "Foreign"
  | list => "List"
  | map => "Map"
  | null => "Null"
  | string => "String"
  | unknown => "Unknown"

theorem ofCode_code (t : SlotType) : ofCode t.code = t := by cases t <;> rfl

end SlotType

/-- A report of a machine to its host. -/
structure Diagnostic where
  kind : DiagnosticKind
  module? : Option String
  line : Int
  message : String
  deriving DecidableEq, Repr

end ScriptHost
