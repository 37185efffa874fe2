import ScriptHost.Session.State

/-!
# Drills on binding registries

Bindings are made and cloned under names and registered at one of several registries; a key is
described by the names of the bindings that share its host function.
-/

namespace ScriptHost.Drill

open Bridge
open Machine (Key)
open Session (Answer missing)

/-- What a drill on binding registries keeps. -/
structure BindingNames where
  registries : Table Nat Bindings
  classes : Table String ClassBinding
  methods : Table String MethodBinding
  classKeys : Table String Key
  methodKeys : Table String Key
  /-- The number of host functions made. -/
  made : Nat

/-- A drill in which nothing is named. -/
def BindingNames.empty : BindingNames := ⟨.empty, .empty, .empty, .empty, .empty, 0⟩

/-- An operation on binding registries. -/
inductive BindingAction where
  | newClass (name : String) (hasFinalizer : Bool)
  /-- A class binding with the allocator of another one. -/
  | cloneClass (source name : String) (hasFinalizer : Bool)
  | registerClass (source name : String) (registry : Nat)
  | resolveClass (key : String) (registry : Nat)
  | newMethod (name : String) (label? : Option String)
  /-- A method binding with the host function of another one. -/
  | cloneMethod (source name : String) (label? : Option String)
  | registerMethod (source name : String) (registry : Nat)
  | resolveMethod (key : String) (registry : Nat)
  | classCount (registry : Nat)
  | methodCount (registry : Nat)

/-- A step of a drill, which panics at unknown names. -/
abbrev Drilling (α : Type) : Type := Run BindingNames Empty α

/-- The thing with a name. -/
def find {α : Type} (what : String) (table : BindingNames → Table String α) (name : String) :
    Drilling α := do
  match ← Run.gets fun s => (table s).find? name with
  | some a => return a
  | none => Run.halt (.panic (missing what name))

/-- A new host function. -/
def newDelegate : Drilling Delegate :=
  Run.modifyGet fun s => (s.made + 1, { s with made := s.made + 1 })

/-- A registry. -/
def BindingNames.registry (s : BindingNames) (n : Nat) : Bindings :=
  (s.registries.find? n).getD .empty

/-- Registers a binding at a registry and returns its key. -/
def registerAt {β : Type} (part : Compartment β) (binding : β) (registry : Nat) : Drilling Key :=
  Run.modifyGet fun s =>
    let ((key, _), r) := part.register binding (s.registry registry)
    (key, { s with registries := s.registries.insert registry r })

/-- The names of the values that satisfy a condition, in alphabetical order. -/
def sortedNames {α : Type} (t : Table String α) (p : α → Bool) : Answer :=
  let names := (t.entries.filter fun e => p e.2).map Prod.fst
  .items ((names.mergeSort fun a b => a ≤ b).map .text)

/-- Performs an operation. -/
def BindingAction.perform : BindingAction → Drilling Answer
  | .newClass name hasFinalizer => do
    let allocator ← newDelegate
    let finalizer? ← if hasFinalizer then some <$> newDelegate else pure none
    Run.modify fun s => { s with classes := s.classes.insert name ⟨allocator, finalizer?⟩ }
    return .null
  | .cloneClass source name hasFinalizer => do
    let binding ← find "class" BindingNames.classes source
    let finalizer? ← if hasFinalizer then some <$> newDelegate else pure binding.finalizer?
    Run.modify fun s => { s with classes := s.classes.insert name ⟨binding.allocator, finalizer?⟩ }
    return .null
  | .registerClass source name registry => do
    let key ← registerAt .classes (← find "class" BindingNames.classes source) registry
    Run.modify fun s => { s with classKeys := s.classKeys.insert name key }
    return .count key
  | .resolveClass key registry => do
    let k ← find "key" BindingNames.classKeys key
    let s ← Run.get
    return match (s.registry registry).class? k with
      | none => .null
      | some b => .fields
        [("same_allocator", sortedNames s.classes fun c => c.allocator == b.allocator),
          ("finalizer", .bool b.finalizer?.isSome)]
  | .newMethod name label? => do
    let method ← newDelegate
    Run.modify fun s => { s with methods := s.methods.insert name ⟨method, label?⟩ }
    return .null
  | .cloneMethod source name label? => do
    let binding ← find "method" BindingNames.methods source
    Run.modify fun s =>
      { s with methods := s.methods.insert name ⟨binding.method, label?.or binding.label?⟩ }
    return .null
  | .registerMethod source name registry => do
    let key ← registerAt .methods (← find "method" BindingNames.methods source) registry
    Run.modify fun s => { s with methodKeys := s.methodKeys.insert name key }
    return .count key
  | .resolveMethod key registry => do
    let k ← find "key" BindingNames.methodKeys key
    let s ← Run.get
    return match (s.registry registry).method? k with
      | none => .null
      | some b => .fields
        [("same_method", sortedNames s.methods fun m => m.method == b.method),
          ("label", .ofText? b.label?)]
  | .classCount registry => Run.gets fun s => .count (s.registry registry).classCount
  | .methodCount registry => Run.gets fun s => .count (s.registry registry).methodCount

/-- The answers of operations, in order, or the panic that ends them. -/
def bindingAnswers : List BindingAction → BindingNames → Except String (List Answer)
  | [], _ => .ok []
  | a :: rest, s =>
    match a.perform s with
    | (.value answer, s) => (bindingAnswers rest s).map (answer :: ·)
    | (.halt (.panic message), _) => .error message
    | (.halt _, _) => .error ""

end ScriptHost.Drill
