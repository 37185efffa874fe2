import ScriptHost.Bridge.Error
import ScriptHost.Number.Double
import ScriptHost.Table

/-!
# Payloads of foreign objects

A payload is a host value together with its type, and a type tag is what a table can keep of the
type: an identity and a name to report.  A payload is read at a type, which gives its value exactly
if that is the type it was made with.

Nothing here depends on what the types are: they are any collection that can be told apart
(`HostTypes`), and the ones of `PayloadType` unless another one is given.
-/

namespace ScriptHost.Bridge

open Number (Double)

/-- A collection of types of host values. -/
class HostTypes (τ : Type) where
  /-- The values of a type. -/
  Carrier : τ → Type

/-- The types of host values that are attached to foreign objects in a session. -/
inductive PayloadType where
  | word
  | real
  | pair
  | text
  deriving DecidableEq, Repr, Inhabited

namespace PayloadType

/-- The values of a type. -/
def Carrier : PayloadType → Type
  | word => UInt32
  | real => Double
  | pair => Double × Double
  | text => String

/-- Whether the values of a type can be held as copies. -/
def isCopyable : PayloadType → Bool
  | text => false
  | _ => true

end PayloadType

instance : HostTypes PayloadType := ⟨PayloadType.Carrier⟩

/-- A host value with its type. -/
structure Payload (τ : Type := PayloadType) [HostTypes τ] where
  type : τ
  value : HostTypes.Carrier type

variable {τ : Type} [DecidableEq τ] [HostTypes τ]

namespace Payload

/-- The value of a payload at a type, `none` if it has another one. -/
def get? (p : Payload τ) (t : τ) : Option (HostTypes.Carrier t) :=
  if h : p.type = t then some (h ▸ p.value) else none

theorem get?_self (t : τ) (v : HostTypes.Carrier t) : (Payload.mk t v).get? t = some v := by
  simp [get?]

theorem isSome_get? (p : Payload τ) (t : τ) : (p.get? t).isSome = true ↔ p.type = t := by
  unfold get?
  split <;> simp_all

end Payload

/-- What is kept of a type: tags are equal if their types are, whatever they are called. -/
structure TypeTag (τ : Type := PayloadType) where
  type : τ
  /-- The name by which messages call the type. -/
  name : String
  deriving DecidableEq, Repr

namespace TypeTag

/-- Whether a tag stands for a type. -/
def is (tag : TypeTag τ) (t : τ) : Bool := tag.type == t

/-- Whether two tags stand for one type. -/
def same (a b : TypeTag τ) : Bool := a.type == b.type

/-- The text that shows a tag. -/
def debug (tag : TypeTag τ) : String := "TypeTag(" ++ tag.name ++ ")"

end TypeTag

/-- How a host calls its types. -/
abbrev TypeNames (τ : Type := PayloadType) := τ → String

/-- The tag of a type. -/
def TypeNames.tag (names : TypeNames τ) (t : τ) : TypeTag τ := ⟨t, names t⟩

end ScriptHost.Bridge
