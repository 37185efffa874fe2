import ScriptHost.Session.Perform

/-!
# Host functions of a session

What the host functions of a session do when a machine calls: they record the call, run their body,
and answer by their rule.  A body may let machines run again, so the host functions at one level of
nesting use those of the level below; the lowest level only stops.
-/

namespace ScriptHost.Session

open Bridge

/-- Runs a body with a machine as the one that is meant.  It ends at the first step that fails and
is not guarded. -/
def runBody (e : Engine Session) (vm : VmId) : List Step → Do Unit
  | [] => return ()
  | s :: rest => do
    let result ← Run.attempt (perform e (some vm) s.action)
    emit (.step s.label result)
    match result with
    | .ok _ => runBody e vm rest
    | .error failure => if s.isGuarded then runBody e vm rest else Run.fault failure

/-- Runs a body whose failure nobody hears of. -/
def runQuietly (e : Engine Session) (vm : VmId) (steps : List Step) : Effect Session Unit := do
  let _ ← Run.attempt (runBody e vm steps)
  return ()

/-- What a host function does. -/
def functionOf {φ : Type} (d : Delegate) : Run (World Session) φ HostFunction :=
  kept fun s => (s.functions.find? d).getD (.body [])

/-- Records a call and runs the body of the function that was called, whose rule is then asked. -/
def answerCall (e : Engine Session) (d : Delegate) (vm : VmId) (event : String → Event) :
    Effect Session HostFunction := do
  emit (event (← callerName vm))
  let f ← functionOf d
  runQuietly e vm <| match f with
    | .body steps => steps
    | .allocate steps _ => steps
    | .resolve _ steps => steps
    | .load _ steps => steps
    | .bind _ steps => steps
    | .classFinalizer _ => []
    | .typedFinalizer _ => []
  return f

/-- The value of a name in a list of pairs. -/
def lookUpName {α : Type} (names : List (String × α)) (name : String) : Option α :=
  (names.find? fun p => p.1 == name).map Prod.snd

/-- The name that a resolver answers. -/
def ResolveRule.answer (r : ResolveRule) (name : String) : Option String :=
  match lookUpName r.names name with
  | some resolved? => resolved?
  | none => r.lead?.map fun lead => lead ++ name

/-- The name that a binder answers. -/
def BindRule.answer (r : BindRule) (name : String) : Option String :=
  (lookUpName r.names name).or r.default?

/-- What an allocator does when its body has run. -/
def makeInstance (vm : VmId) : Making → Do Unit
  | .nothing => return ()
  | .attach kind source => do
    let p ← makePayload vm source
    let _ ← makeForeign ⟨vm, 0⟩ ⟨vm, 0⟩ kind p
    return ()

/-- Runs a foreign method or an allocator. -/
def runDelegate (e : Engine Session) (d : Delegate) (vm : VmId) : Do Unit := do
  match ← functionOf d with
  | .body steps => runBody e vm steps
  | .allocate steps making => do
    runBody e vm steps
    makeInstance vm making
  | _ => return ()

/-- The label of a finalizer. -/
def HostFunction.finalizerLabel : HostFunction → String
  | .classFinalizer label => label
  | .typedFinalizer label => label
  | _ => ""

/-- The host functions of a session, whose bodies let machines run in `e`.  An engine is made only
when a machine calls, so that a great bound on nesting costs nothing. -/
def delegates (e : Thunk (Engine Session)) : Delegates Session where
  write d vm text := do
    let _ ← answerCall e.get d vm (.write · text)
    return ()
  error d vm diagnostic := do
    let _ ← answerCall e.get d vm (.error · diagnostic)
    return ()
  resolve d vm importer name := do
    match ← answerCall e.get d vm (.resolve · importer name) with
    | .resolve rule _ => return rule.answer name
    | _ => return none
  load d vm name := do
    match ← answerCall e.get d vm (.load · name) with
    | .load modules _ => return lookUpName modules name
    | _ => return none
  bindClass d vm module className := do
    match ← answerCall e.get d vm (.bindClass · module className) with
    | .bind rule _ =>
      let classes ← kept Session.classes
      return ((rule.answer className).bind classes.find?).map Registered.key
    | _ => return none
  bindMethod d vm name := do
    match ← answerCall e.get d vm (.bindMethod · name) with
    | .bind rule _ =>
      let methods ← kept Session.methods
      return ((rule.answer name.signature).bind methods.find?).map Registered.key
    | _ => return none
  method d vm := runDelegate e.get d vm
  allocator d vm := runDelegate e.get d vm
  classFinalizer d object := do
    let f ← functionOf d
    emit (.classFinalizer f.finalizerLabel (object.tag?.map TypeTag.name) object.payload?
      (object.address == 0))
  typedFinalizer d payload := do
    let f ← functionOf d
    emit (.typedFinalizer f.finalizerLabel payload)
  unmanaged := unmanagedCallbacks

/-- Host functions that only stop. -/
def stopped : Delegates Session where
  write _ _ _ := Run.halt .exhausted
  error _ _ _ := Run.halt .exhausted
  resolve _ _ _ _ := Run.halt .exhausted
  load _ _ _ := Run.halt .exhausted
  bindClass _ _ _ _ := Run.halt .exhausted
  bindMethod _ _ _ := Run.halt .exhausted
  method _ _ := Run.halt .exhausted
  allocator _ _ := Run.halt .exhausted
  classFinalizer _ _ := Run.halt .exhausted
  typedFinalizer _ _ := Run.halt .exhausted
  unmanaged := unmanagedCallbacks

/-- How deep imports may nest in a session. -/
def importDepth : Nat := 100000

/-- The engine of a session in which runs nest at most `n` deep. -/
def engine : Nat → Engine Session
  | 0 => ⟨stopped, importDepth⟩
  | n + 1 => ⟨delegates ⟨fun _ => engine n⟩, importDepth⟩

end ScriptHost.Session
