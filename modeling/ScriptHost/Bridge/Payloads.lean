import ScriptHost.Bridge.Payload

/-!
# The payload registry

A machine knows a foreign object by the address of its data block alone, so the bridge keeps a tag
and a payload under that address.  Reading checks, in this order, that the address is tracked, that
the payload has the wanted type, and that it is held in the wanted way.  An entry leaves the
registry when its object is finalized and never otherwise.
-/

namespace ScriptHost.Bridge

/-- The number of a host function. -/
abbrev Delegate := Nat

/-- A host object with an identity of its own. -/
structure Shared (τ : Type := PayloadType) [HostTypes τ] where
  identity : Nat
  payload : Payload τ

/-- How an entry holds its payload. -/
inductive Holding (τ : Type := PayloadType) [HostTypes τ] where
  /-- A reference to an object that the host may hold as well. -/
  | object (shared : Shared τ)
  /-- A copy that can be overwritten. -/
  | value (payload : Payload τ)

variable {τ : Type} [HostTypes τ]

namespace Holding

/-- The payload that is held. -/
def payload : Holding τ → Payload τ
  | object shared => shared.payload
  | value payload => payload

/-- The way it is held. -/
def kind : Holding τ → PayloadKind
  | object _ => .object
  | value _ => .value

end Holding

/-- What the registry keeps under an address. -/
structure Entry (τ : Type := PayloadType) [HostTypes τ] where
  tag : TypeTag τ
  holding : Holding τ

/-- The payloads of a service, and the finalizers of their types. -/
structure Payloads (τ : Type := PayloadType) [HostTypes τ] where
  entries : Table Nat (Entry τ)
  finalizers : Table τ Delegate

/-- A foreign object as a class finalizer sees it. -/
structure Finalized (τ : Type := PayloadType) [HostTypes τ] where
  address : Nat
  tag? : Option (TypeTag τ)
  payload? : Option (Payload τ)

variable [DecidableEq τ]

namespace Entry

/-- Checks that the payload of the entry under `address` has the wanted type. -/
def expectTag (e : Entry τ) (names : TypeNames τ) (address : Nat) (t : τ) :
    Except HostError Unit :=
  if e.tag.is t then .ok () else .error (.invalidForeignType address (names t) e.tag.name)

/-- Checks that the payload of the entry under `address` is held in the wanted way. -/
def expectKind (e : Entry τ) (address : Nat) (expected : PayloadKind) : Except HostError Unit :=
  if e.holding.kind = expected then .ok ()
  else .error (.payloadKindMismatch address expected e.holding.kind)

end Entry

namespace Payloads

/-- The registry that tracks nothing. -/
def empty : Payloads τ := ⟨.empty, .empty⟩

instance : Inhabited (Payloads τ) := ⟨empty⟩

/-- Tracks a payload under an address, unless something is tracked there already.  The flag says
whether it was. -/
def add (r : Payloads τ) (address : Nat) (tag : TypeTag τ) (holding : Holding τ) :
    Bool × Payloads τ :=
  let (added, entries) := r.entries.tryAdd address ⟨tag, holding⟩
  (added, { r with entries })

/-- Tracks a reference to a host object. -/
def addObject (r : Payloads τ) (names : TypeNames τ) (address : Nat) (s : Shared τ) :
    Bool × Payloads τ :=
  r.add address (names.tag s.payload.type) (.object s)

/-- Tracks a copy of a host value. -/
def addValue (r : Payloads τ) (names : TypeNames τ) (address : Nat) (p : Payload τ) :
    Bool × Payloads τ :=
  r.add address (names.tag p.type) (.value p)

/-- Whether an address is tracked. -/
def contains (r : Payloads τ) (address : Nat) : Bool := r.entries.contains address

/-- The number of tracked addresses. -/
def size (r : Payloads τ) : Nat := r.entries.size

/-- The tag under an address. -/
def tag? (r : Payloads τ) (address : Nat) : Option (TypeTag τ) :=
  (r.entries.find? address).map Entry.tag

/-- The way in which the payload under an address is held. -/
def kind? (r : Payloads τ) (address : Nat) : Option PayloadKind :=
  (r.entries.find? address).map fun e => e.holding.kind

/-- Whether a payload of a type is tracked under an address. -/
def is (r : Payloads τ) (address : Nat) (t : τ) : Bool :=
  match r.tag? address with
  | some tag => tag.is t
  | none => false

/-- The entry under an address. -/
def entry (r : Payloads τ) (address : Nat) : Except HostError (Entry τ) :=
  match r.entries.find? address with
  | some e => .ok e
  | none => .error (.unknownForeignObject address)

/-- The host object under an address, at a type. -/
def object (r : Payloads τ) (names : TypeNames τ) (address : Nat) (t : τ) :
    Except HostError (Shared τ × HostTypes.Carrier t) := do
  let e ← r.entry address
  e.expectTag names address t
  e.expectKind address .object
  match e.holding with
  | .value _ => .error (.unknownForeignObject address)
  | .object shared =>
    match shared.payload.get? t with
    | some v => .ok (shared, v)
    | none => .error (.invalidForeignType address (names t) e.tag.name)

/-- The value under an address at a type, however it is held. -/
def value (r : Payloads τ) (names : TypeNames τ) (address : Nat) (t : τ) :
    Except HostError (HostTypes.Carrier t) := do
  let e ← r.entry address
  e.expectTag names address t
  match e.holding.payload.get? t with
  | some v => .ok v
  | none => .error (.unknownForeignObject address)

/-- Overwrites the copy under an address.  References to host objects are never overwritten. -/
def setValue (r : Payloads τ) (names : TypeNames τ) (address : Nat) (p : Payload τ) :
    Except HostError (Payloads τ) := do
  let e ← r.entry address
  e.expectTag names address p.type
  e.expectKind address .value
  .ok { r with entries := r.entries.insert address { e with holding := .value p } }

/-- Sets the finalizer of a type, in place of an earlier one. -/
def setFinalizer (r : Payloads τ) (t : τ) (finalizer : Delegate) : Payloads τ :=
  { r with finalizers := r.finalizers.insert t finalizer }

/-- The finalizer for the payload of an entry. -/
def finalizer? (r : Payloads τ) (e : Entry τ) : Option Delegate := r.finalizers.find? e.tag.type

/-- Takes the entry under an address out of the registry. -/
def take (r : Payloads τ) (address : Nat) : Option (Entry τ) × Payloads τ :=
  (r.entries.find? address, { r with entries := r.entries.erase address })

/-- What a class finalizer sees of an object whose entry has been taken out. -/
def finalized (address : Nat) (found? : Option (Entry τ)) : Finalized τ :=
  ⟨address, found?.map Entry.tag, found?.map fun e => e.holding.payload⟩

/-- The number of addresses under which a host object is tracked. -/
def references (r : Payloads τ) (identity : Nat) : Nat :=
  r.entries.countValues fun e =>
    match e.holding with
    | .object shared => shared.identity == identity
    | .value _ => false

end Payloads

end ScriptHost.Bridge
