import ScriptHost.Machine.Value
import ScriptHost.Bridge.Payloads

/-!
# The binding registry

Host functions that a machine may call are registered as bindings, and the machine gets a key to
name each.  Keys start at one, are shared by classes and methods, and are never used again.  A
binding is known by its host function, and the first registration of a host function wins:
registering it again gives its first key and changes nothing.

Several threads may register at once.  Registration is therefore a sequence of steps (`Stage`), each
of which is one access to the registry; `register` is the sequence without interruption.
-/

namespace ScriptHost.Bridge

open Machine (Key)

/-- The host side of a foreign class. -/
structure ClassBinding where
  allocator : Delegate
  finalizer? : Option Delegate
  deriving DecidableEq, Repr

/-- The host side of a foreign method. -/
structure MethodBinding where
  method : Delegate
  label? : Option String
  deriving DecidableEq, Repr

/-- The bindings of one compartment, with the key of every registered host function. -/
structure Catalog (β : Type) where
  bound : Table Key β
  index : Table Delegate Key

/-- The catalog without bindings. -/
def Catalog.empty {β : Type} : Catalog β := ⟨.empty, .empty⟩

/-- The bindings of a service. -/
structure Bindings where
  nextKey : Key
  classes : Catalog ClassBinding
  methods : Catalog MethodBinding

namespace Bindings

/-- The registry without bindings. -/
def empty : Bindings := ⟨1, .empty, .empty⟩

instance : Inhabited Bindings := ⟨empty⟩

/-- The binding of a class key. -/
def class? (r : Bindings) (k : Key) : Option ClassBinding := r.classes.bound.find? k

/-- The binding of a method key. -/
def method? (r : Bindings) (k : Key) : Option MethodBinding := r.methods.bound.find? k

/-- The number of class bindings. -/
def classCount (r : Bindings) : Nat := r.classes.bound.size

/-- The number of method bindings. -/
def methodCount (r : Bindings) : Nat := r.methods.bound.size

end Bindings

/-- A compartment of the registry: how its bindings are identified, and where its catalog is. -/
structure Compartment (β : Type) where
  identity : β → Delegate
  catalog : Bindings → Catalog β
  setCatalog : Bindings → Catalog β → Bindings

/-- The class bindings. -/
def Compartment.classes : Compartment ClassBinding :=
  ⟨ClassBinding.allocator, Bindings.classes, fun r c => { r with classes := c }⟩

/-- The method bindings. -/
def Compartment.methods : Compartment MethodBinding :=
  ⟨MethodBinding.method, Bindings.methods, fun r c => { r with methods := c }⟩

/-- How far a registration has come. -/
inductive Stage where
  /-- About to look for the key of the host function. -/
  | search
  /-- About to take a key, since the host function had none. -/
  | mint
  /-- About to store the binding under its key. -/
  | store (key : Key)
  /-- About to make the key known as the one of the host function. -/
  | publish (key : Key)
  /-- About to remove the binding, since another key was known before. -/
  | withdraw (key : Key)
  /-- About to look for the key that was known before. -/
  | yieldTo (key : Key)
  /-- Ended, with a key and whether it is new. -/
  | done (key : Key) (isNew : Bool)
  deriving DecidableEq, Repr

namespace Compartment

variable {β : Type}

/-- One step of the registration of a binding. -/
def step (s : Compartment β) (binding : β) (r : Bindings) : Stage → Stage × Bindings
  | .search =>
    match (s.catalog r).index.find? (s.identity binding) with
    | some key => (.done key false, r)
    | none => (.mint, r)
  | .mint => (.store r.nextKey, { r with nextKey := r.nextKey + 1 })
  | .store key =>
    let c := s.catalog r
    (.publish key, s.setCatalog r { c with bound := (c.bound.tryAdd key binding).2 })
  | .publish key =>
    let c := s.catalog r
    let (added, index) := c.index.tryAdd (s.identity binding) key
    (if added then .done key true else .withdraw key, s.setCatalog r { c with index })
  | .withdraw key =>
    let c := s.catalog r
    (.yieldTo key, s.setCatalog r { c with bound := c.bound.erase key })
  | .yieldTo key => (.done (((s.catalog r).index.find? (s.identity binding)).getD key) false, r)
  | .done key isNew => (.done key isNew, r)

/-- The number of steps after which every registration has ended. -/
def stepBound : Nat := 6

/-- The state of a registration after a number of further steps. -/
def run (s : Compartment β) (binding : β) : Nat → Stage × Bindings → Stage × Bindings
  | 0, state => state
  | n + 1, (stage, r) => s.run binding n (s.step binding r stage)

/-- Registers a binding.  The flag says whether its key is new. -/
def register (s : Compartment β) (binding : β) (r : Bindings) : (Key × Bool) × Bindings :=
  match s.run binding stepBound (.search, r) with
  | (.done key isNew, r') => ((key, isNew), r')
  | (_, r') => ((0, false), r')

end Compartment

end ScriptHost.Bridge
