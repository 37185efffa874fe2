import ScriptHost.Number.Double
import ScriptHost.Table
import ScriptHost.Text.Terminated

/-!
# Values and objects

A value is a number, a truth value, a byte string, null, or a reference to an object on the heap.
Strings need not be valid UTF-8.  Two values are the same key of a map if they are numerically equal
numbers, equal strings or truth values, both null, or the same object.
-/

namespace ScriptHost.Machine

open Number (Double)

/-- The number of an object on the heap. -/
abbrev ObjectId := Nat

/-- What a script computes with. -/
inductive Value where
  | null
  | bool (b : Bool)
  | number (x : Double)
  | string (bytes : List UInt8)
  | object (id : ObjectId)
  deriving DecidableEq, Repr, Inhabited

namespace Value

/-- The value of a text. -/
def ofText (s : String) : Value := .string (Text.Utf8.encode s)

/-- The object that a value refers to. -/
def object? : Value → Option ObjectId
  | object id => some id
  | _ => none

/-- Whether two values are the same key.  Not-a-number is no key that can be found again. -/
def same : Value → Value → Bool
  | null, null => true
  | bool a, bool b => a == b
  | number x, number y => x.same y
  | string a, string b => a == b
  | object i, object j => i == j
  | _, _ => false

end Value

/-- What a machine hands back to its host to name a delegate. -/
abbrev Key := Nat

/-- The data block of a foreign object: where it lies, and the service that wrote its tag. -/
structure Block where
  address : Nat
  /-- The service whose payload belongs to the block, `none` before a tag is written. -/
  owner? : Option Nat
  deriving DecidableEq, Repr

/-- A class of a script, with the keys its declaration was bound to. -/
structure Class where
  name : String
  module : String
  isForeign : Bool
  constructors : List String
  methods : Table String Key
  statics : Table String Key
  allocate? : Option Key
  finalize? : Option Key

/-- An object on the heap. -/
inductive Object where
  | list (items : List Value)
  | map (entries : List (Value × Value))
  | classDef (c : Class)
  | instanceOf (owner : ObjectId)
  | foreign (owner : ObjectId) (block : Block)

/-- The objects that an object refers to. -/
def Object.references : Object → List ObjectId
  | .list items => items.filterMap Value.object?
  | .map entries => (entries.flatMap fun e => [e.1, e.2]).filterMap Value.object?
  | .classDef _ => []
  | .instanceOf c => [c]
  | .foreign c _ => [c]

end ScriptHost.Machine
