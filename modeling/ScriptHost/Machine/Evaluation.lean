import ScriptHost.Machine.Callbacks
import ScriptHost.Machine.RuntimeError
import ScriptHost.Script.Parser
import ScriptHost.Script.Scope

/-!
# Running programs

Expressions are evaluated from left to right; values in use are pinned, so that a collection during
a host call keeps them.  A host function runs in a frame of its own, and the frame around it is
restored behind it.  `interpret` and `call` are the two ways to start a run; both report a failure
to the host before they return.

Imports nest by `depth`; everything else recurs on the program.
-/

namespace ScriptHost.Machine

open Script

variable {ε : Type}

/-- A step of a run that can fail. -/
abbrev Eval (ε α : Type) : Type := Run (Running ε) Fault α

/-- Stops with a runtime error. -/
def raise {α : Type} (e : RuntimeError) : Eval ε α := Run.fault (.runtime e)

/-! ## Methods -/

/-- What a method call means. -/
inductive Target where
  | print
  | write
  | abort
  | construct (owner : ObjectId)
  | constructForeign (owner : ObjectId) (allocate? : Option Key)
  | foreign (key : Key)
  | missing
  deriving DecidableEq, Repr

/-- Whether a class is the one of the core module with a given name. -/
def Class.isCore (c : Class) (name : String) : Bool :=
  c.module == State.coreModule && c.name == name

/-- What a call of a class object means. -/
def classTarget (owner : ObjectId) (c : Class) (signature : String) : Target :=
  if c.isCore State.systemName then
    if signature == "print(_)" || signature == "print()" then .print
    else if signature == "write(_)" then .write
    else .missing
  else if c.isCore State.fiberName && signature == "abort(_)" then .abort
  else if c.constructors.contains signature then
    if c.isForeign then .constructForeign owner c.allocate? else .construct owner
  else
    match c.statics.find? signature with
    | some key => .foreign key
    | none => .missing

/-- What a call of an instance means. -/
def instanceTarget (h : Heap) (owner : ObjectId) (signature : String) : Target :=
  match (h.class? owner).bind fun c => c.methods.find? signature with
  | some key => .foreign key
  | none => .missing

/-- What a call of a value means. -/
def Heap.target (h : Heap) (receiver : Value) (signature : String) : Target :=
  match receiver.object? with
  | none => .missing
  | some id =>
    match h.get? id with
    | some (.classDef c) => classTarget id c signature
    | some (.instanceOf owner) => instanceTarget h owner signature
    | some (.foreign owner _) => instanceTarget h owner signature
    | _ => .missing

/-- Enters a frame, behind which no abort is requested. -/
def State.enterFrame (s : State) (frame : List Value) : State :=
  { s with slots := frame, savedFrames := s.slots :: s.savedFrames, abortRequest? := none }

/-- Leaves a frame. -/
def State.leaveFrame (s : State) : State :=
  { s with slots := s.savedFrames.headD [], savedFrames := s.savedFrames.tail,
           abortRequest? := none }

/-- Runs a host function in `frame`.  Its first slot is the result, unless it asked to abort with a
value other than null. -/
def callForeign (function : Call ε Unit) (frame : List Value) : Eval ε Value := do
  update fun s => s.enterFrame frame
  function.widen
  let s ← machine
  update State.leaveFrame
  match s.abortRequest? with
  | none => return s.slots.headD .null
  | some .null => return s.slots.headD .null
  | some error => raise (.aborted (s.heap.text error))

/-- Whether a value is an instance of a foreign class. -/
def Heap.isForeignInstance (h : Heap) (v : Value) (owner : ObjectId) : Bool :=
  match v.object?.bind h.get? with
  | some (.foreign c _) => c == owner
  | _ => false

/-- Invokes a method on the first value of `frame` with the others as arguments. -/
def invoke (cb : Callbacks ε) (signature : String) (frame : List Value) : Eval ε Value := do
  let receiver := frame.headD .null
  let argument? := frame[1]?
  let s ← machine
  match s.heap.target receiver signature with
  | .print =>
    (cb.write (Text.strip (argument?.elim "" s.heap.text))).widen
    (cb.write "\n").widen
    return argument?.getD .null
  | .write =>
    let value := argument?.getD .null
    (cb.write (Text.strip (s.heap.text value))).widen
    return value
  | .abort => raise (.aborted (s.heap.text (argument?.getD .null)))
  | .construct owner => return .object (← updateGet fun s => s.alloc (.instanceOf owner))
  | .constructForeign owner allocate? =>
    let className := s.heap.className owner
    match allocate? with
    | none => raise (.noAllocator className)
    | some key =>
      let created ← callForeign (cb.allocate key) frame
      if (← machine).heap.isForeignInstance created owner then return created
      else raise (.noInstance className)
  | .foreign key => callForeign (cb.execute key) frame
  | .missing => raise (.missingMethod (s.heap.typeName receiver) signature)

/-! ## Expressions -/

/-- Forgets the pins above the lowest `base`. -/
def State.unpinTo (base : Nat) (s : State) : State :=
  { s with pins := s.pins.drop (s.pins.length - base) }

/-- Runs `x` and forgets the pins that it added. -/
def withPins {α : Type} (x : Eval ε α) : Eval ε α := do
  let base := (← machine).pins.length
  x.andFinally fun r => { r with machine := r.machine.unpinTo base }

/-- Runs `x` with `values` pinned. -/
def withPinned {α : Type} (values : List Value) (x : Eval ε α) : Eval ε α :=
  withPins do
    update fun s => { s with pins := values.reverse ++ s.pins }
    x

mutual

/-- The value of an expression in a module. -/
def eval (cb : Callbacks ε) (module : String) : Expr → Eval ε Value
  | .null => return .null
  | .bool b => return .bool b
  | .number x => return .number x
  | .text s => return .ofText s
  | .variable name _ => do
    match (← machine).lookup? module name with
    | some v => return v
    | none => raise (.undefinedVariable name)
  | .list items => do
    let values ← withPins (evalAll cb module items)
    return .object (← updateGet fun s => s.alloc (.list values))
  | .getter receiver name => do
    let frame ← withPins do
      let v ← evalPinned cb module receiver
      return [v]
    withPinned frame (invoke cb (signature name none) frame)
  | .call receiver name arguments => do
    let frame ← withPins do
      let v ← evalPinned cb module receiver
      let vs ← evalAll cb module arguments
      return v :: vs
    withPinned frame (invoke cb (signature name (some arguments.length)) frame)

/-- The value of an expression, pinned. -/
def evalPinned (cb : Callbacks ε) (module : String) (e : Expr) : Eval ε Value := do
  let v ← eval cb module e
  update fun s => { s with pins := v :: s.pins }
  return v

/-- The values of expressions in order, each pinned when it is there. -/
def evalAll (cb : Callbacks ε) (module : String) : List Expr → Eval ε (List Value)
  | [] => return []
  | e :: rest => do
    let v ← evalPinned cb module e
    let vs ← evalAll cb module rest
    return v :: vs

end

/-! ## Classes -/

/-- Binds the methods of a class declaration one after the other. -/
def bindMethods (cb : Callbacks ε) (module className : String) :
    List MethodDecl → Class → Eval ε Class
  | [], c => return c
  | m :: rest, c => do
    let bound ← (cb.bindMethod ⟨Text.strip module, Text.strip className, m.isStatic,
      Text.strip m.signature⟩).widen
    match bound with
    | none => raise (.unboundMethod m.signature className module)
    | some key =>
      bindMethods cb module className rest
        (if m.isStatic then { c with statics := c.statics.insert m.signature key }
          else { c with methods := c.methods.insert m.signature key })

/-- Binds a class and defines it in a module. -/
def declareClass (cb : Callbacks ε) (module : String) (decl : ClassDecl) : Eval ε Unit := do
  let keys ←
    if decl.isForeign then (cb.bindClass (Text.strip module) (Text.strip decl.name)).widen
    else pure ClassKeys.unbound
  let c ← bindMethods cb module decl.name decl.methods
    { name := decl.name, module, isForeign := decl.isForeign, constructors := decl.constructors,
      methods := .empty, statics := .empty,
      allocate? := keys.allocate?, finalize? := keys.finalize? }
  update fun s =>
    let (id, s) := s.alloc (.classDef c)
    s.define module decl.name (.object id)

/-! ## Diagnostics -/

/-- Reports a module that does not compile. -/
def reportCompile (cb : Callbacks ε) (module : String) (e : CompileError) : Call ε Unit :=
  cb.report ⟨.compile, some (Text.strip module), e.line, Text.strip e.message⟩

/-- Reports a runtime error and the place where it was raised. -/
def reportRuntime (cb : Callbacks ε) (message : String) : Call ε Unit := do
  cb.report ⟨.runtime, none, -1, Text.strip message⟩
  let at' := (← machine).location
  cb.report ⟨.stackTrace, some (Text.strip at'.module), at'.line, "(script)"⟩

/-! ## Modules -/

/-- The canonical name of an imported module. -/
def resolveModule (cb : Callbacks ε) (importer name : String) : Eval ε String := do
  match cb.resolve? with
  | none => return name
  | some resolve =>
    match ← (resolve (Text.strip importer) (Text.strip name)).widen with
    | some resolved => return Text.cutText resolved
    | none => raise (.unresolvedModule name importer)

/-- The source of a module. -/
def loadModule (cb : Callbacks ε) (name : String) : Eval ε String := do
  match ← (cb.load (Text.strip name)).widen with
  | some source => return Text.cutText source
  | none => raise (.missingModule name)

/-- Defines imported variables in the importing module. -/
def importNames (importer source : String) : List String → Eval ε Unit
  | [] => return ()
  | name :: rest => do
    match (← machine).global? source name with
    | some v =>
      update fun s => s.define importer name v
      importNames importer source rest
    | none => raise (.missingVariable name source)

/-- Imports a module, which is run by `runModule` unless it is there already. -/
def importModule (cb : Callbacks ε) (runModule : String → String → Eval ε Unit)
    (importer name : String) (names : List String) : Eval ε Unit := do
  let resolved ← resolveModule cb importer name
  if !(← machine).hasModule resolved then
    let source ← loadModule cb resolved
    match ← (runModule resolved source).attempt with
    | .ok () => pure ()
    | .error (.compile e) =>
      (reportCompile cb resolved e).widen
      raise (.brokenModule resolved)
    | .error e => Run.fault e
  importNames importer resolved names

/-- Executes a statement of a module. -/
def exec (cb : Callbacks ε) (runModule : String → String → Eval ε Unit) (module : String)
    (st : Statement) : Eval ε Unit := do
  match st.action with
  | .importModule name names => importModule cb runModule module name names
  | .define name value =>
    let v ← eval cb module value
    update fun s => s.define module name v
  | .assign name value =>
    let v ← eval cb module value
    update fun s => s.define module name v
  | .declare decl => declareClass cb module decl
  | .evaluate value =>
    let _ ← eval cb module value
    return ()

/-- Executes statements one after the other. -/
def execAll (cb : Callbacks ε) (runModule : String → String → Eval ε Unit) (module : String) :
    List Statement → Eval ε Unit
  | [] => return ()
  | st :: rest => do
    update fun s => { s with location := ⟨module, st.line⟩ }
    exec cb runModule module st
    execAll cb runModule module rest

/-- Registers a module, unless it is there already. -/
def State.addModule (s : State) (module : String) : State :=
  if s.hasModule module then s else { s with modules := s.modules.insert module .empty }

/-- Compiles a program for a module.  A program with good grammar registers the module even if its
names are refused. -/
def compile (module source : String) : Eval ε (List Statement) := do
  match parse source with
  | .error e => Run.fault (.compile e)
  | .ok statements =>
    update fun s => s.addModule module
    match Scope.check ((← machine).namesIn module) statements with
    | .error e => Run.fault (.compile e)
    | .ok _ => return statements

/-- Compiles and executes a program in a module, with imports nested at most `depth` deep. -/
def runModule (cb : Callbacks ε) : Nat → String → String → Eval ε Unit
  | 0, _, _ => Run.halt .exhausted
  | depth + 1, module, source => do
    let statements ← compile module source
    execAll cb (runModule cb depth) module statements

/-! ## Runs -/

/-- Runs a program in a module and reports how it fails. -/
def interpret (cb : Callbacks ε) (depth : Nat) (module source : String) :
    Call ε InterpretResult := do
  match ← (runModule cb depth module source).attempt with
  | .ok () => return .success
  | .error (.compile e) =>
    reportCompile cb module e
    return .compileError
  | .error (.runtime e) =>
    reportRuntime cb e.message
    return .runtimeError

/-- Where a machine stands while its host calls a method. -/
def callLocation : Location := ⟨"(call)", -1⟩

/-- Calls a method on the value in the first slot with the values in the `arity` slots behind it as
arguments, and leaves the result in the first slot. -/
def callMethod (cb : Callbacks ε) (signature : String) (arity : Nat) : Call ε InterpretResult := do
  let s ← machine
  if s.slots.length < arity + 1 then
    reportRuntime cb ("Not enough slots to call " ++ quote signature ++ ".")
    return .runtimeError
  else
    update fun s => { s with location := callLocation }
    match ← (invoke cb signature (s.slots.take (arity + 1))).attempt with
    | .ok v =>
      update fun s => s.setSlot 0 v
      return .success
    | .error e =>
      reportRuntime cb e.message
      return .runtimeError

/-- Calls the method of a handle.  Handles of values and unknown ones cannot be called. -/
def callHandle (cb : Callbacks ε) (address : Nat) : Call ε InterpretResult := do
  match (← machine).handles.find? address with
  | some (.method signature arity) => callMethod cb signature arity
  | _ => return .runtimeError

/-! ## Memory -/

/-- Calls the finalizer of a swept object, if its class has one. -/
def callFinalizer (cb : Callbacks ε) (d : Dead) : Call ε Unit :=
  match d.finalize? with
  | some key => cb.finalize d.block key
  | none => pure ()

/-- Finalizes a swept object, the next one. -/
def finalizeOne (cb : Callbacks ε) (d : Dead) : Call ε Unit := do
  update (State.beginFinalizer d)
  callFinalizer cb d
  update State.endFinalizer

/-- Finalizes swept objects, in order. -/
def finalizeAll (cb : Callbacks ε) : List Dead → Call ε Unit
  | [] => return ()
  | d :: rest => do
    finalizeOne cb d
    finalizeAll cb rest

/-- Collects garbage and finalizes what is removed. -/
def collectGarbage (cb : Callbacks ε) : Call ε Unit := do
  let dead ← updateGet State.sweep
  finalizeAll cb dead

/-- Ends a machine: drops all handles, finalizes all objects, and returns how many handles the host
still held. -/
def shutdown (cb : Callbacks ε) : Call ε Nat := do
  let leaked := (← machine).handles.size
  let dead ← updateGet State.drain
  finalizeAll cb dead
  return leaked

end ScriptHost.Machine
