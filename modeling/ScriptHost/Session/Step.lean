import ScriptHost.Bridge.Execution

/-!
# Steps of a session

A session is a list of steps on named things: services, machines, handles, bindings.  What a host
function does is a list of steps too, its body, which runs with the calling machine as the one that
is meant when no name is given.
-/

namespace ScriptHost.Session

open Bridge
open Number (Double Single)

/-- A slot by its index, of the machine of the step or of a named one. -/
structure Operand where
  vm? : Option String
  index : Nat

/-- Where a payload comes from. -/
inductive PayloadSource where
  | given (payload : Payload)
  /-- Read from slots, at a type. -/
  | slots (type : PayloadType) (indices : List Nat)

/-- A terminated text as a machine or a service gets it: nothing, or its bytes. -/
abbrev RawText := Option (List UInt8)

/-- An operation on a slot. -/
inductive SlotAction where
  | slotType
  | isNull
  | getBool
  | getDouble
  | getInt
  | getFloat
  | getString
  | getOptionalString
  | getBytes
  | setBool (b : Bool)
  | setDouble (x : Double)
  | setInt (i : Int)
  | setFloat (x : Single)
  | setString (text : String)
  | setBytes (bytes : List UInt8)
  | setNull
  | getHandle (name : String)
  | setHandle (handle : String)
  | setNewList
  | listCount
  | getListElement (index : Int) (element : Operand)
  | setListElement (index : Int) (element : Operand)
  | insertInList (index : Int) (element : Operand)
  | setNewMap
  | mapCount
  | mapContainsKey (key : Operand)
  | getMapValue (key value : Operand)
  | setMapValue (key value : Operand)
  | removeMapValue (key removed : Operand)
  | newForeignObject (cls : Operand) (source : PayloadSource) (name? : Option String)
  | newForeignStruct (cls : Operand) (source : PayloadSource) (name? : Option String)
  | getForeignPtr
  | getForeignObject (type : PayloadType)
  | getForeignStruct (type : PayloadType)
  | setForeignStruct (source : PayloadSource)
  | isForeign (type : PayloadType)
  /-- Copies a payload into another slot, of a pair the first or the second component. -/
  | foreignToSlot (type : PayloadType) (second : Bool) (target : Nat)

/-- A call of an entry point of a machine, without any service. -/
inductive NativeAction where
  | initConfiguration
  | collectGarbage
  | interpret (module source : RawText)
  | getUserData
  | setUserData (word : Nat)
  | makeCallHandle (signature : RawText) (name : String)
  | call (handle? : Option String)
  | releaseHandle (handle? : Option String)
  | liveCounts
  | getSlotCount
  | ensureSlots (count : Int)
  | getSlotType (index : Int)
  | getSlotBool (index : Int)
  | getSlotBytes (index : Int)
  | getSlotDouble (index : Int)
  | getSlotForeign (index : Int)
  | getSlotString (index : Int)
  | getSlotHandle (index : Int) (name : String)
  | setSlotBool (index : Int) (b : Bool)
  | setSlotBytes (index : Int) (bytes : List UInt8)
  | setSlotDouble (index : Int) (x : Double)
  | setSlotNewForeign (index classIndex : Int)
  | setSlotNewList (index : Int)
  | setSlotNewMap (index : Int)
  | setSlotNull (index : Int)
  | setSlotString (index : Int) (text : RawText)
  | setSlotHandle (index : Int) (handle? : Option String)
  | getListCount (index : Int)
  | getListElement (list index element : Int)
  | setListElement (list index element : Int)
  | insertInList (list index element : Int)
  | getMapCount (index : Int)
  | getMapContainsKey (map key : Int)
  | getMapValue (map key value : Int)
  | setMapValue (map key value : Int)
  | removeMapValue (map key value : Int)
  | getVariable (module name : RawText) (index : Int)
  | hasVariable (module name : RawText)
  | hasModule (module : RawText)
  | abortFiber (index : Int)

/-- A call of one of the functions that machines of a service call. -/
inductive TrampolineAction where
  | write (text : RawText)
  | error (kind : Nat) (module : RawText) (line : Int) (message : RawText)
  | resolve (importer name : RawText)
  | load (name : RawText)
  | bindClass (module className : RawText)
  | bindMethod (module className signature : RawText) (isStatic : Bool)
  | execute (key : Nat)
  | allocate (key : Nat)
  /-- Finalizes a data block without a tag, or nothing. -/
  | finalize (hasBlock : Bool) (key : Nat)
  /-- Gets, grows and frees a piece of memory with a number in it. -/
  | reallocate

/-- Which callbacks a machine without a service has. -/
structure PlainHooks where
  write : Bool
  error : Bool
  load : Bool
  resolve : Bool
  userData : Bool

/-- What the text of a thing is asked of. -/
inductive Subject where
  | vm
  | bridge
  | slot (index : Nat)
  | handle (name : String)
  | cls (name : String)
  | method (name : String)
  | listeners

/-- What is cleared of a machine. -/
inductive Clearing where
  | write
  | error
  | resolve
  | load
  | bindClass
  | bindMethod
  | userData
  | all

/-- How a resolver names modules: by a table, which may reject a name, or else with a word in
front. -/
structure ResolveRule where
  names : List (String × Option String)
  lead? : Option String

/-- How a binder picks registered names: by a table, or else always the same. -/
structure BindRule where
  names : List (String × String)
  default? : Option String

/-- What an allocator does when its body has run. -/
inductive Making where
  | nothing
  /-- Attaches a payload to a new object in the first slot. -/
  | attach (kind : PayloadKind) (source : PayloadSource)

mutual

/-- A step, with the word that its records are labelled with.  A guarded step of a body may fail
without ending the body. -/
inductive Step where
  | mk (label : String) (isGuarded : Bool) (action : Action)

/-- What a step does. -/
inductive Action where
  -- services
  | bridge (name : String)
  | cloneBridge (name : String) (bridge? : Option String)
  | sameService (bridge? : Option String) (other : String)
  | vmCount (bridge? : Option String)
  | foreignLen (bridge? : Option String)
  | bindingCounts (bridge? : Option String)
  | lookup (bridge? vm? name? : Option String)
  | registerClass (name : String) (bridge? : Option String) (body : List Step) (making : Making)
      (hasFinalizer : Bool)
  | registerMethod (name : String) (bridge? : Option String) (body : List Step)
      (label? : Option String)
  | reregister (source name : String) (bridge? : Option String)
  | registerFinalizer (type : PayloadType) (label : String) (bridge? : Option String)
  | fault (faults : List NativeFault)
  -- machines
  | vm (name : String) (bridge? : Option String) (config : VmConfig)
  | dispose (vm? : Option String)
  | drop (vm? : Option String)
  | cloneVm (vm? : Option String) (name : String)
  | isAlive (vm? : Option String)
  | isRoot (vm? : Option String)
  | rawIsNull (vm? : Option String)
  | outstanding (vm? : Option String)
  | sameVm (vm? : Option String) (other : String)
  | liveCounts (vm? : Option String)
  | debug (vm? : Option String) (subject : Subject)
  -- running and handles
  | interpret (vm? : Option String) (module source : String)
  | call (vm? : Option String) (handle : String)
  | makeCallHandle (vm? : Option String) (signature name : String)
  | release (handle : String)
  | dropHandle (handle : String)
  | handleValid (handle : String)
  | handleVm (handle : String)
  | handleBelongs (vm? : Option String) (handle : String)
  | collect (vm? : Option String)
  | ensureSlots (vm? : Option String) (count : Nat)
  | slotCount (vm? : Option String)
  | slots (vm? : Option String)
  | hasModule (vm? : Option String) (module : String)
  | hasVariable (vm? : Option String) (module name : String)
  | getVariable (vm? : Option String) (module name : String) (slot : Operand)
  | abortFiber (vm? : Option String) (slot : Operand)
  | abortMessage (vm? : Option String) (message : String)
  -- listeners and user data
  | onWrite (vm? : Option String) (body : List Step)
  | onError (vm? : Option String) (body : List Step)
  | onResolve (vm? : Option String) (rule : ResolveRule) (body : List Step)
  | onLoad (vm? : Option String) (modules : List (String × String)) (body : List Step)
  | onBindClass (vm? : Option String) (rule : BindRule) (body : List Step)
  | onBindMethod (vm? : Option String) (rule : BindRule) (body : List Step)
  | clear (vm? : Option String) (what : Clearing)
  | setUserData (vm? : Option String) (source : PayloadSource)
  | getUserData (vm? : Option String) (type : PayloadType)
  -- helpers of bodies
  | fail (message : String)
  | add (vm? : Option String) (left right target : Nat)
  | concat (vm? : Option String) (left right target : Nat)
  -- slots, entry points and trampolines
  | slot (vm? : Option String) (index : Nat) (action : SlotAction)
  | rawVm (name : String) (hooks : PlainHooks)
  | rawFree (vm? : Option String)
  | native (vm? : Option String) (action : NativeAction)
  | trampoline (vm? : Option String) (action : TrampolineAction)

end

/-- The word that the records of a step are labelled with. -/
def Step.label : Step → String
  | .mk label _ _ => label

/-- Whether a step may fail without ending its body. -/
def Step.isGuarded : Step → Bool
  | .mk _ isGuarded _ => isGuarded

/-- What a step does. -/
def Step.action : Step → Action
  | .mk _ _ action => action

end ScriptHost.Session
