import ScriptHost.Session.Run

/-!
# Drills on a payload registry

Operations on the payloads of one service, at any address, with the calls of finalizers that they
lead to.
-/

namespace ScriptHost.Drill

open Bridge Session

/-- An operation on a payload registry. -/
inductive PayloadAction where
  | pointer (address : Address)
  | addObject (address : Address) (payload : Payload) (name? : Option String)
  /-- Tracks a named object once more. -/
  | shareObject (source : String) (address : Address)
  | references (source : String)
  | addValue (address : Address) (payload : Payload)
  | contains (address : Address)
  | size
  | isEmpty
  | typeTag (address : Address)
  | kind (address : Address)
  | is (address : Address) (type : PayloadType)
  | object (address : Address) (type : PayloadType)
  | value (address : Address) (type : PayloadType)
  | setValue (address : Address) (payload : Payload)
  | registerFinalizer (type : PayloadType) (label : String)
  | classFinalizer (name : String)
  | finalize (address : Address) (finalizer? : Option String)

/-- What a drill on a payload registry keeps beside the registry. -/
structure PayloadNames where
  service : ServiceId
  engine : Engine Session
  objects : Table String Shared
  finalizers : Table String Delegate

/-- The text that shows an address. -/
def showPointer (a : Address) : String := "ForeignPtr(" ++ toString a ++ ")"

/-- Replaces the payloads of the service and answers whether something was added. -/
def commit (service : ServiceId) (result : Bool × Payloads) : Do Answer := do
  Run.modify fun w => w.modifyService service fun s => { s with payloads := result.2 }
  return .bool result.1

/-- The thing with a name. -/
def pick {α : Type} (what : String) (table : Table String α) (name : String) : Do α :=
  match table.find? name with
  | some a => return a
  | none => Run.halt (.panic (missing what name))

/-- Performs an operation. -/
def PayloadAction.perform (n : PayloadNames) : PayloadAction → Do (Answer × PayloadNames)
  | .pointer a => answer <| .fields [("addr", .count a), ("null", .bool (a == 0)),
      ("back", .count a), ("debug", .text (showPointer a))]
  | .addObject a p name? => do
    let object ← newObject p
    let w ← Run.get
    let added ← commit n.service ((payloadsOf w).addObject w.typeNames a object)
    match name? with
    | some name => return (added, { n with objects := n.objects.insert name object })
    | none => return (added, n)
  | .shareObject source a => do
    let object ← pick "object" n.objects source
    let w ← Run.get
    return (← commit n.service ((payloadsOf w).addObject w.typeNames a object), n)
  | .references source => do
    let object ← pick "object" n.objects source
    answer (.count ((payloadsOf (← Run.get)).references object.identity + 1))
  | .addValue a p => do
    let w ← Run.get
    return (← commit n.service ((payloadsOf w).addValue w.typeNames a p), n)
  | .contains a => do answer (.bool ((payloadsOf (← Run.get)).contains a))
  | .size => do answer (.count (payloadsOf (← Run.get)).size)
  | .isEmpty => do answer (.bool ((payloadsOf (← Run.get)).size == 0))
  | .typeTag a => do answer (.ofText? (((payloadsOf (← Run.get)).tag? a).map TypeTag.name))
  | .kind a => do answer (.ofText? (((payloadsOf (← Run.get)).kind? a).map PayloadKind.name))
  | .is a t => do answer (.bool ((payloadsOf (← Run.get)).is a t))
  | .object a t => do
    let w ← Run.get
    let (_, v) ← Run.ofExcept ((payloadsOf w).object w.typeNames a t)
    answer (.fields [("ok", .payload ⟨t, v⟩)])
  | .value a t => do
    let w ← Run.get
    let v ← Run.ofExcept ((payloadsOf w).value w.typeNames a t)
    answer (.fields [("ok", .payload ⟨t, v⟩)])
  | .setValue a p => do
    let w ← Run.get
    let payloads ← Run.ofExcept ((payloadsOf w).setValue w.typeNames a p)
    let _ ← commit n.service (true, payloads)
    answer (.fields [("ok", .null)])
  | .registerFinalizer t label => do
    Bridge.registerFinalizer n.service t (← newFunction (.typedFinalizer label))
    answer .null
  | .classFinalizer name => do
    let finalizer ← newFunction (.classFinalizer name)
    return (.null, { n with finalizers := n.finalizers.insert name finalizer })
  | .finalize a finalizer? => do
    let finalizer? ← match finalizer? with
      | some name => some <$> pick "finalizer" n.finalizers name
      | none => pure none
    let removed ← (Trampoline.finalizePayload n.engine.delegates n.service a finalizer?).widen
    answer (.bool removed)
where
  answer (a : Answer) : Do (Answer × PayloadNames) := return (a, n)
  payloadsOf (w : World Session) : Payloads := (w.service n.service).payloads

/-- Performs operations and records them. -/
def recordAll : List PayloadAction → PayloadNames → World Session → List Record
  | [], _, _ => []
  | a :: rest, n, w =>
    let (outcome, w) := a.perform n w
    let (events, w) := takeEvents w
    match outcome with
    | .value (answer, n) => ⟨.answered answer, events⟩ :: recordAll rest n w
    | .fault e => ⟨.failed e, events⟩ :: recordAll rest n w
    | .halt (.panic message) => [⟨.panicked message, events⟩]
    | .halt (.fatal message) => [⟨.aborted message, events⟩]
    | .halt .exhausted => [⟨.aborted exhaustedMessage, events⟩]

/-- The records of operations on the payloads of a new service. -/
def payloadEntries (names : TypeNames) (actions : List PayloadAction) : List Record :=
  let e := engine 1
  let w := initialWorld names ⟨[], true, none⟩ e
  let service := (w.host.bridges.find? defaultBridge).getD 0
  recordAll actions ⟨service, e, .empty, .empty⟩ w

end ScriptHost.Drill
