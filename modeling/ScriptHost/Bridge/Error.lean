import ScriptHost.Code
import ScriptHost.Text.Hex
import ScriptHost.Text.Utf8

/-!
# Errors of the bridge

Every operation that a host asks for either succeeds or gives one of these causes.  Three of them
are fatal: using something that is gone, mixing two machines, and finding an address taken.  The
others are ordinary: inside a host function they become errors of the running program.
-/

namespace ScriptHost.Bridge

/-- How a payload is held: shared with the host, or copied into the bridge. -/
inductive PayloadKind where
  | object
  | value
  deriving DecidableEq, Repr, Inhabited

/-- The name of a way to hold a payload. -/
def PayloadKind.name : PayloadKind → String
  | .object => "Object"
  | .value => "Struct"

/-- Why an operation of the bridge fails. -/
inductive HostError where
  | useAfterDispose (what : String) (address : Nat) (operation : String)
  | slotOutOfRange (index count : Nat)
  | slotTypeMismatch (index : Nat) (expected actual : SlotType)
  | invalidForeignType (address : Nat) (expected actual : String)
  | payloadKindMismatch (address : Nat) (expected actual : PayloadKind)
  | unknownForeignObject (address : Nat)
  | listIndexOutOfRange (index : Int) (count : Nat)
  | crossVmMisuse (operation : String) (left right : Nat)
  | registrationConflict (what : String) (address : Nat)
  | failedToCreateVm
  | foreignAllocationFailed (index : Nat)
  | nullHandle (operation : String)
  | unhashableKey (index : Nat) (actual : SlotType)
  | moduleNotFound (module : String)
  | variableNotFound (module name : String)
  /-- A text with a NUL at a byte position, where a terminated text is needed. -/
  | stringConversion (position : Nat)
  | utf8Conversion (failure : Text.Utf8.Failure)
  /-- An error that host code raises with a text of its own. -/
  | script (message : String)
  deriving DecidableEq, Repr

namespace HostError

/-- A name in single quotation marks. -/
def quoted (s : String) : String := "'" ++ s ++ "'"

/-- A type name in backquotes, which are U+0060. -/
def ticked (s : String) : String := "\x60" ++ s ++ "\x60"

/-- The refusal of a text with a NUL at a byte position. -/
def nulMessage (position : Nat) : String :=
  "nul byte found in provided data at position: " ++ toString position

/-- The text of an error. -/
def message : HostError → String
  | useAfterDispose what address operation =>
    what ++ " " ++ Text.Hex.address address ++ " used after dispose in " ++ operation
  | slotOutOfRange index count =>
    "slot " ++ toString index ++ " is out of range (slot count " ++ toString count ++ ")"
  | slotTypeMismatch index expected actual =>
    "slot " ++ toString index ++ " holds " ++ actual.name ++ ", expected " ++ expected.name
  | invalidForeignType address expected actual =>
    "foreign object " ++ Text.Hex.address address ++ " holds " ++ ticked actual ++ ", expected " ++
      ticked expected
  | payloadKindMismatch address expected actual =>
    "foreign object " ++ Text.Hex.address address ++ " holds a " ++ actual.name ++
      " payload, expected " ++ expected.name
  | unknownForeignObject address =>
    "foreign object " ++ Text.Hex.address address ++ " is not registered"
  | listIndexOutOfRange index count =>
    "list index " ++ toString index ++ " is out of range (count " ++ toString count ++ ")"
  | crossVmMisuse operation left right =>
    operation ++ " mixes vm " ++ Text.Hex.address left ++ " with vm " ++ Text.Hex.address right
  | registrationConflict what address =>
    what ++ " " ++ Text.Hex.address address ++ " is already registered"
  | failedToCreateVm => "Failed to create the native VM"
  | foreignAllocationFailed index =>
    "native VM returned no storage for a new foreign object in slot " ++ toString index
  | nullHandle operation => "native VM returned a null handle in " ++ operation
  | unhashableKey index actual =>
    "slot " ++ toString index ++ " holds " ++ actual.name ++ ", which cannot be used as a map key"
  | moduleNotFound module => "Module " ++ quoted module ++ " is not loaded"
  | variableNotFound module name =>
    "Variable " ++ quoted name ++ " is not defined in module " ++ quoted module
  | stringConversion position => "String conversion error: " ++ nulMessage position
  | utf8Conversion failure => "UTF-8 conversion error: " ++ failure.message
  | script message => message

/-- The name of the cause. -/
def name : HostError → String
  | useAfterDispose _ _ _ => "UseAfterDispose"
  | slotOutOfRange _ _ => "SlotOutOfRange"
  | slotTypeMismatch _ _ _ => "SlotTypeMismatch"
  | invalidForeignType _ _ _ => "InvalidForeignType"
  | payloadKindMismatch _ _ _ => "PayloadKindMismatch"
  | unknownForeignObject _ => "UnknownForeignObject"
  | listIndexOutOfRange _ _ => "ListIndexOutOfRange"
  | crossVmMisuse _ _ _ => "CrossVmMisuse"
  | registrationConflict _ _ => "RegistrationConflict"
  | failedToCreateVm => "FailedToCreateVm"
  | foreignAllocationFailed _ => "ForeignAllocationFailed"
  | nullHandle _ => "NullHandle"
  | unhashableKey _ _ => "UnhashableKey"
  | moduleNotFound _ => "ModuleNotFound"
  | variableNotFound _ _ => "VariableNotFound"
  | stringConversion _ => "StringConversion"
  | utf8Conversion _ => "Utf8Conversion"
  | script _ => "Script"

/-- Whether an error is a mistake of the host that must stop it, instead of being reported to the
running program. -/
def isFatal : HostError → Bool
  | useAfterDispose _ _ _ => true
  | crossVmMisuse _ _ _ => true
  | registrationConflict _ _ => true
  | _ => false

end HostError

end ScriptHost.Bridge
