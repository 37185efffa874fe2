import Mathlib.Tactic.Tauto
import ScriptHost.Machine.Evaluation

/-!
# Calling a method from a script and from the host

A script calls a method with an argument list, and the parser counts the arguments.  A host calls one
through a handle, and the handle counts the underscores of a signature text.  Both then build a frame
and invoke the method of that signature on it.

The counts agree exactly for names without underscores (`placeCount_methodSignature`).  For those, a
call through a handle and a call by a script are one invocation, seen from two places: they find the
same target in the same frame, and what the script gets as a value the host finds in its first slot
(`callHandle_of_signature`).  A name with underscores makes the handle ask for more slots than the
method has places, so that the call is refused before any target is looked for.
-/

namespace ScriptHost.Machine

open Script

variable {ε α : Type}

/-! ## Arities -/

theorem count_intercalate_underscores (n : Nat) :
    (",".intercalate (List.replicate n "_")).toList.count '_' = n := by
  rw [String.toList_intercalate]
  induction n with
  | zero => rfl
  | succ n ih =>
    cases n with
    | zero => rfl
    | succ n =>
      rw [List.replicate_succ, List.map_cons, List.intercalate_cons_of_ne_nil (by simp),
        List.count_append, List.count_append, ih]
      rw [show ("_".toList.count '_' = 1) from rfl, show (",".toList.count '_' = 0) from rfl]
      omega

/-- **A signature has one place for each argument, and one for each underscore of the name.** -/
theorem placeCount_methodSignature (name : String) (n : Nat) :
    State.placeCount (methodSignature name n) = name.toList.count '_' + n := by
  have hopen : "(".toList.count '_' = 0 := rfl
  have hclose : ")".toList.count '_' = 0 := rfl
  simp only [State.placeCount, methodSignature, String.toList_append, List.count_append, hopen,
    hclose, count_intercalate_underscores, Nat.add_zero]

/-! ## Host functions -/

/-- Machines that differ at most in where they stand and in what they have pinned. -/
def Alike (s s' : State) : Prop := s' = { s with location := s'.location, pins := s'.pins }

/-- The values that a machine keeps whatever the running host function does to its slots. -/
def State.kept (s : State) : List Value := s.pins ++ s.savedFrames.flatten

/-- A host function that comes back to its own frame, and that cannot tell machines apart that are
alike and keep the same values. -/
structure Indifferent (function : Call ε Unit) : Prop where
  frames : ∀ {r r'}, function r = (.value (), r') →
    r'.machine.savedFrames = r.machine.savedFrames
  alike : ∀ {r r'}, Alike r.machine r'.machine → r'.host = r.host →
    (∀ v, v ∈ r'.machine.kept ↔ v ∈ r.machine.kept) →
    (function r').1 = (function r).1 ∧ Alike (function r).2.machine (function r').2.machine ∧
      (function r').2.host = (function r).2.host

/-- A host whose methods and allocators are indifferent, and that takes any output. -/
structure Discreet (cb : Callbacks ε) : Prop where
  write : ∀ text r, ∃ r', cb.write text r = (.value (), r') ∧
    (r.machine.slots ≠ [] → r'.machine.slots ≠ [])
  execute : ∀ key, Indifferent (cb.execute key)
  allocate : ∀ key, Indifferent (cb.allocate key)

namespace Alike

variable {s s' : State}

theorem heap (h : Alike s s') : s'.heap = s.heap := by rw [h]

theorem slots (h : Alike s s') : s'.slots = s.slots := by rw [h]

theorem savedFrames (h : Alike s s') : s'.savedFrames = s.savedFrames := by rw [h]

theorem abortRequest? (h : Alike s s') : s'.abortRequest? = s.abortRequest? := by rw [h]

theorem enterFrame (h : Alike s s') (frame : List Value) :
    Alike (s.enterFrame frame) (s'.enterFrame frame) := by
  rw [h]
  rfl

theorem leaveFrame (h : Alike s s') : Alike s.leaveFrame s'.leaveFrame := by
  rw [h]
  rfl

theorem unpinTo (h : Alike s s') (base : Nat) : Alike (s.unpinTo base) s' := by
  rw [h]
  rfl

end Alike

/-! ## Foreign methods -/

/-- What a host function has answered when it comes back. -/
def State.answer (s : State) : Outcome Fault Value :=
  match s.abortRequest? with
  | none => .value (s.slots.headD .null)
  | some .null => .value (s.slots.headD .null)
  | some error => .fault (.runtime (.aborted (s.heap.text error)))

/-- The run of a host function in a frame of its own. -/
def Running.entered (r : Running ε) (frame : List Value) : Running ε :=
  { r with machine := r.machine.enterFrame frame }

theorem enterFrame_eq (frame : List Value) (r : Running ε) :
    (update fun s => s.enterFrame frame : Eval ε Unit) r = (.value (), r.entered frame) := rfl

theorem callForeign_of_value {function : Call ε Unit} {frame : List Value} {r t : Running ε}
    (h : function (r.entered frame) = (.value (), t)) :
    callForeign function frame r =
      (t.machine.answer, { t with machine := t.machine.leaveFrame }) := by
  have hwiden : (function.widen : Eval ε Unit) (r.entered frame) = (.value (), t) := by
    rw [Run.widen, h]
  have hmachine : (machine : Eval ε State) t = (.value t.machine, t) := rfl
  have hleave : (update State.leaveFrame : Eval ε Unit) t =
      (.value (), { t with machine := t.machine.leaveFrame }) := rfl
  unfold callForeign
  rw [Run.bind_of_value (enterFrame_eq frame r), Run.bind_of_value hwiden,
    Run.bind_of_value hmachine, Run.bind_of_value hleave]
  unfold State.answer
  cases t.machine.abortRequest? with
  | none => rfl
  | some error => cases error <;> rfl

theorem callForeign_of_halt {function : Call ε Unit} {frame : List Value} {r t : Running ε}
    {w : Halt} (h : function (r.entered frame) = (.halt w, t)) :
    callForeign function frame r = (.halt w, t) := by
  have hwiden : (function.widen : Eval ε Unit) (r.entered frame) = (.halt w, t) := by
    rw [Run.widen, h]
  unfold callForeign
  rw [Run.bind_of_value (enterFrame_eq frame r), Run.bind_of_halt hwiden]

/-- Runs that a host function cannot tell apart. -/
structure Twins (r r' : Running ε) : Prop where
  machine : Alike r.machine r'.machine
  host : r'.host = r.host

/-- In a frame of their own, two runs keep the same values. -/
def KeepAlike (frame : List Value) (r r' : Running ε) : Prop :=
  ∀ v, v ∈ (r'.entered frame).machine.kept ↔ v ∈ (r.entered frame).machine.kept

theorem answer_eq {s s' : State} (h : Alike s s') : s'.answer = s.answer := by
  rw [State.answer, State.answer, h.abortRequest?, h.slots, h.heap]

theorem savedFrames_callForeign {function : Call ε Unit} (hf : Indifferent function)
    {frame : List Value} {r t : Running ε}
    (h : function (r.entered frame) = (.value (), t)) :
    t.machine.leaveFrame.slots = r.machine.slots := by
  have hframes : t.machine.savedFrames = r.machine.slots :: r.machine.savedFrames := hf.frames h
  rw [State.leaveFrame, hframes]
  rfl

/-- **An indifferent host function answers twin runs alike.** -/
theorem callForeign_twins {function : Call ε Unit} (hf : Indifferent function)
    {frame : List Value} {r r' : Running ε} (h : Twins r r') (hkeep : KeepAlike frame r r') :
    (callForeign function frame r').1 = (callForeign function frame r).1 ∧
      Twins (callForeign function frame r).2 (callForeign function frame r').2 ∧
      ((∃ w, (callForeign function frame r').1 = .halt w) ∨
        (callForeign function frame r').2.machine.slots = r'.machine.slots) := by
  have htwins : Twins (r.entered frame) (r'.entered frame) := ⟨h.machine.enterFrame frame, h.host⟩
  obtain ⟨houtcome, halike, hhost⟩ := hf.alike htwins.machine htwins.host hkeep
  rcases hrun : function (r.entered frame) with ⟨_ | e | w, t⟩
  · rcases hrun' : function (r'.entered frame) with ⟨o', t'⟩
    rw [hrun, hrun'] at houtcome halike hhost
    obtain rfl : o' = .value () := houtcome
    rw [callForeign_of_value hrun, callForeign_of_value hrun']
    exact ⟨answer_eq halike, ⟨halike.leaveFrame, hhost⟩, Or.inr (savedFrames_callForeign hf hrun')⟩
  · exact e.elim
  · rcases hrun' : function (r'.entered frame) with ⟨o', t'⟩
    rw [hrun, hrun'] at houtcome halike hhost
    obtain rfl : o' = .halt w := houtcome
    rw [callForeign_of_halt hrun, callForeign_of_halt hrun']
    exact ⟨rfl, ⟨halike, hhost⟩, Or.inl ⟨w, rfl⟩⟩

/-! ## Invocations -/

theorem machine_bind {φ : Type} (f : State → Run (Running ε) φ α) (r : Running ε) :
    (machine >>= f) r = f r.machine r := rfl

/-- Output has no effect on what a method returns. -/
theorem widen_write {cb : Callbacks ε} (hcb : Discreet cb) (text : String) (r : Running ε) :
    ∃ r', ((cb.write text).widen : Eval ε Unit) r = (.value (), r') ∧
      (r.machine.slots ≠ [] → r'.machine.slots ≠ []) := by
  obtain ⟨r', hrun, hslots⟩ := hcb.write text r
  refine ⟨r', ?_, hslots⟩
  rw [Run.widen, hrun]

/-- What an invocation in one run says of that in its twin: it ends in the same way, leaves a first
slot for its value, and runs that fail are twins still. -/
structure Echo (x : Outcome Fault Value × Running ε) (y : Outcome Fault Value × Running ε) :
    Prop where
  outcome : y.1 = x.1
  slots : ∀ v, y.1 = .value v → y.2.machine.slots ≠ []
  twins : ∀ e, x.1 = .fault e → Twins x.2 y.2

theorem Echo.of_twins {o : Outcome Fault Value} {r r' : Running ε} (h : Twins r r')
    (hslots : r'.machine.slots ≠ []) : Echo (o, r) (o, r') :=
  ⟨rfl, fun _ _ => hslots, fun _ _ => h⟩

theorem echo_callForeign {function : Call ε Unit} (hf : Indifferent function)
    {frame : List Value} {r r' : Running ε} (h : Twins r r') (hkeep : KeepAlike frame r r')
    (hslots : r'.machine.slots ≠ []) :
    Echo (callForeign function frame r) (callForeign function frame r') := by
  obtain ⟨houtcome, htwins, hreturned⟩ := callForeign_twins hf h hkeep
  refine ⟨houtcome, fun v hv => ?_, fun _ _ => htwins⟩
  rcases hreturned with ⟨w, hw⟩ | hback
  · rw [hw] at hv
    exact absurd hv (by simp)
  · rw [hback]
    exact hslots

/-- A method that constructs a foreign object checks what its allocator has answered. -/
theorem echo_construct {x y : Outcome Fault Value × Running ε} (h : Echo x y) (owner : ObjectId)
    (e : RuntimeError) {check : Value → Eval ε Value}
    (hcheck : ∀ v r, check v r =
      if r.machine.heap.isForeignInstance v owner then (.value v, r) else (.fault (.runtime e), r))
    (hheap : ∀ v, x.1 = .value v → Twins x.2 y.2) {f g : Eval ε Value} {r r' : Running ε}
    (hf : f r = x) (hg : g r' = y) : Echo ((f >>= check) r) ((g >>= check) r') := by
  obtain ⟨o, t⟩ := x
  obtain ⟨o', t'⟩ := y
  obtain rfl : o' = o := h.outcome
  cases o' with
  | value v =>
    have htwins : Twins t t' := hheap v rfl
    rw [Run.bind_of_value hf, Run.bind_of_value hg, hcheck, hcheck, htwins.machine.heap]
    split
    · exact ⟨rfl, fun _ _ => h.slots v rfl, fun _ _ => htwins⟩
    · exact ⟨rfl, fun _ he => absurd he (by simp), fun _ _ => htwins⟩
  | fault e =>
    rw [Run.bind_of_fault hf, Run.bind_of_fault hg]
    exact ⟨rfl, fun _ he => absurd he (by simp), fun _ _ => h.twins e rfl⟩
  | halt w =>
    rw [Run.bind_of_halt hf, Run.bind_of_halt hg]
    exact ⟨rfl, fun _ he => absurd he (by simp), fun _ he => absurd he (by simp)⟩

/-- **One signature and one frame mean the same in twin runs**: the same target, and the same
outcome. -/
theorem echo_invoke {cb : Callbacks ε} (hcb : Discreet cb) (signature : String)
    {frame : List Value} {r r' : Running ε} (h : Twins r r') (hkeep : KeepAlike frame r r')
    (hslots : r'.machine.slots ≠ []) :
    Echo (invoke cb signature frame r) (invoke cb signature frame r') := by
  unfold invoke
  rw [machine_bind, machine_bind]
  simp only [h.machine.heap]
  cases r.machine.heap.target (frame.headD .null) signature with
  | print =>
    let text := Text.strip (frame[1]?.elim "" r.machine.heap.text)
    obtain ⟨t₁, hrun₁, -⟩ := widen_write hcb text r
    obtain ⟨t₂, hrun₂, -⟩ := widen_write hcb "\n" t₁
    obtain ⟨u₁, hrun₁', hslots₁⟩ := widen_write hcb text r'
    obtain ⟨u₂, hrun₂', hslots₂⟩ := widen_write hcb "\n" u₁
    dsimp only
    rw [Run.bind_of_value hrun₁, Run.bind_of_value hrun₂, Run.bind_of_value hrun₁',
      Run.bind_of_value hrun₂']
    exact ⟨rfl, fun _ _ => hslots₂ (hslots₁ hslots), fun _ he => nomatch he⟩
  | write =>
    let text := Text.strip (r.machine.heap.text (frame[1]?.getD .null))
    obtain ⟨t, hrun, -⟩ := widen_write hcb text r
    obtain ⟨u, hrun', hslots'⟩ := widen_write hcb text r'
    dsimp only
    rw [Run.bind_of_value hrun, Run.bind_of_value hrun']
    exact ⟨rfl, fun _ _ => hslots' hslots, fun _ he => nomatch he⟩
  | abort => exact Echo.of_twins h hslots
  | construct owner =>
    have hid : (r'.machine.alloc (.instanceOf owner)).1 =
        (r.machine.alloc (.instanceOf owner)).1 := by
      rw [h.machine]
      rfl
    exact ⟨congrArg (fun id => Outcome.value (Value.object id)) hid, fun _ _ => hslots,
      fun _ he => nomatch he⟩
  | constructForeign owner allocate? =>
    cases allocate? with
    | none => exact Echo.of_twins h hslots
    | some key =>
      have htwins := (callForeign_twins (hcb.allocate key) h hkeep).2.1
      refine echo_construct (echo_callForeign (hcb.allocate key) h hkeep hslots) owner
        (.noInstance (r.machine.heap.className owner)) (fun v t => ?_) (fun _ _ => htwins) rfl rfl
      rw [machine_bind]
      split <;> rfl
  | foreign key => exact echo_callForeign (hcb.execute key) h hkeep hslots
  | missing => exact Echo.of_twins h hslots

/-! ## Two ways to call -/

/-- What is left of a call by the host once its frame is known. -/
def settleCall (cb : Callbacks ε) : Except Fault Value → Call ε InterpretResult
  | .ok v => do
    update fun s => s.setSlot 0 v
    return .success
  | .error e => do
    reportRuntime cb e.message
    return .runtimeError

/-- The refusal of a call for which there are too few slots. -/
def refuseCall (cb : Callbacks ε) (signature : String) : Call ε InterpretResult := do
  reportRuntime cb ("Not enough slots to call " ++ quote signature ++ ".")
  return .runtimeError

/-- The operands of a call in a script, receiver first. -/
def operands (cb : Callbacks ε) (module : String) (receiver : Expr) (arguments : List Expr) :
    Eval ε (List Value) :=
  withPins do
    let v ← evalPinned cb module receiver
    let vs ← evalAll cb module arguments
    return v :: vs

/-- A call by the host answers one by a script: with the same value in the first slot, or with a
report of the same error. -/
def Answers (cb : Callbacks ε) (script : Outcome Fault Value × Running ε)
    (call : Outcome Empty InterpretResult × Running ε) : Prop :=
  match script with
  | (.value v, _) => ∃ r, call = (.value .success, r) ∧ r.machine.slot 0 = v
  | (.fault e, r) => ∃ r', Twins r r' ∧ call = settleCall cb (.error e) r'
  | (.halt w, _) => call.1 = .halt w

theorem length_evalAll {cb : Callbacks ε} {module : String} : ∀ {es : List Expr} {r r' : Running ε}
    {vs : List Value}, evalAll cb module es r = (.value vs, r') → vs.length = es.length
  | [], r, r', vs, h => by
    rw [evalAll] at h
    cases h
    rfl
  | e :: rest, r, r', vs, h => by
    rw [evalAll] at h
    obtain ⟨v, t, -, h⟩ := Run.value_of_bind h
    obtain ⟨vs', t', hrest, h⟩ := Run.value_of_bind h
    cases h
    rw [List.length_cons, List.length_cons, length_evalAll hrest]

theorem withPins_of_value {x : Eval ε α} {r r' : Running ε} {v : α}
    (h : withPins x r = (.value v, r')) : ∃ t, x r = (.value v, t) := by
  unfold withPins at h
  rw [machine_bind, Run.andFinally] at h
  rcases hx : x r with ⟨_ | _ | _, t⟩ <;> rw [hx] at h <;> cases h
  exact ⟨t, rfl⟩

/-- The operands of a call are its receiver and one value for each argument. -/
theorem length_operands {cb : Callbacks ε} {module : String} {receiver : Expr}
    {arguments : List Expr} {r r' : Running ε} {frame : List Value}
    (h : operands cb module receiver arguments r = (.value frame, r')) :
    frame.length = arguments.length + 1 := by
  obtain ⟨t, h⟩ := withPins_of_value h
  obtain ⟨v, u, -, h⟩ := Run.value_of_bind h
  obtain ⟨vs, u', hrest, h⟩ := Run.value_of_bind h
  cases h
  rw [List.length_cons, length_evalAll hrest]

/-- A call in a script invokes the method on its operands, which are pinned. -/
theorem eval_call {cb : Callbacks ε} {module name : String} {receiver : Expr}
    {arguments : List Expr} {r₀ r : Running ε} {frame : List Value}
    (h : operands cb module receiver arguments r₀ = (.value frame, r)) :
    eval cb module (.call receiver name arguments) r₀ =
      withPinned frame (invoke cb (methodSignature name arguments.length) frame) r := by
  rw [eval]
  exact Run.bind_of_value h _

theorem callHandle_of_method {cb : Callbacks ε} {signature : String} {arity address : Nat}
    {r : Running ε} (h : r.machine.handles.find? address = some (.method signature arity)) :
    callHandle cb address r = callMethod cb signature arity r := by
  unfold callHandle
  rw [machine_bind, h]

theorem callMethod_of_short {cb : Callbacks ε} {signature : String} {arity : Nat}
    {r : Running ε} (h : r.machine.slots.length < arity + 1) :
    callMethod cb signature arity r = refuseCall cb signature r := by
  unfold callMethod
  rw [machine_bind, if_pos h]
  rfl

/-- The run in which a host calls a method. -/
def Running.called (r : Running ε) : Running ε :=
  { r with machine := { r.machine with location := callLocation } }

/-- A call by the host invokes the method on the values in the slots. -/
theorem callMethod_of_slots {cb : Callbacks ε} {signature : String} {arity : Nat}
    {r : Running ε} (h : arity + 1 ≤ r.machine.slots.length) :
    callMethod cb signature arity r =
      ((invoke cb signature (r.machine.slots.take (arity + 1))).attempt >>= settleCall cb)
        r.called := by
  have hlocate : (update fun s => { s with location := callLocation } : Call ε Unit) r =
      (.value (), r.called) := rfl
  unfold callMethod
  rw [machine_bind, if_neg (Nat.not_lt.2 h), Run.bind_of_value hlocate]
  refine congrFun (congrArg _ (funext fun result => ?_)) _
  cases result <;> rfl

/-- What the script gets from an invocation is what the host gets from its twin. -/
theorem answers_of_echo {cb : Callbacks ε} {signature : String} {frame : List Value}
    {r r' : Running ε} {base : Nat}
    (h : Echo (invoke cb signature frame r) (invoke cb signature frame r')) :
    Answers cb ((invoke cb signature frame).andFinally
        (fun t => { t with machine := t.machine.unpinTo base }) r)
      (((invoke cb signature frame).attempt >>= settleCall cb) r') := by
  obtain ⟨houtcome, hslots, htwins⟩ := h
  rcases hscript : invoke cb signature frame r with ⟨o, t⟩
  rcases hcall : invoke cb signature frame r' with ⟨o', t'⟩
  rw [hscript, hcall] at houtcome
  rw [hcall] at hslots
  rw [hscript, hcall] at htwins
  obtain rfl : o' = o := houtcome
  rw [Run.andFinally, hscript]
  cases o' with
  | value v =>
    rw [Run.bind_of_value (Run.attempt_of_value hcall)]
    refine ⟨_, rfl, ?_⟩
    exact State.slot_setSlot_self _ v (List.length_pos_iff.2 (hslots v rfl))
  | fault e =>
    obtain ⟨hmachine, hhost⟩ := htwins e rfl
    rw [Run.bind_of_value (Run.attempt_of_fault hcall)]
    exact ⟨t', ⟨hmachine.unpinTo base, hhost⟩, rfl⟩
  | halt w =>
    have hattempt : ((invoke cb signature frame).attempt : Call ε (Except Fault Value)) r' =
        (.halt w, t') := by
      rw [Run.attempt, hcall]
    rw [Run.bind_of_halt hattempt]
    rfl

/-- **A call through a handle and a call by a script are one invocation if the name has no
underscore.**  The host has the receiver and the arguments in its slots, and no others.  With an
underscore in the name, the handle is refused before it is looked for what it means. -/
theorem callHandle_of_signature {cb : Callbacks ε} (hcb : Discreet cb) {module name : String}
    {receiver : Expr} {arguments : List Expr} {frame : List Value} {r₀ r : Running ε} {s : State}
    {address : Nat} (hoperands : operands cb module receiver arguments r₀ = (.value frame, r))
    (hhandle : r.machine = s.makeCallHandle address (methodSignature name arguments.length))
    (hslots : r.machine.slots = frame) :
    (name.toList.count '_' = 0 →
      eval cb module (.call receiver name arguments) r₀ =
        withPinned frame (invoke cb (methodSignature name arguments.length) frame) r ∧
      callHandle cb address r =
        ((invoke cb (methodSignature name arguments.length) frame).attempt >>= settleCall cb)
          r.called ∧
      Answers cb (eval cb module (.call receiver name arguments) r₀) (callHandle cb address r)) ∧
    (name.toList.count '_' ≠ 0 →
      callHandle cb address r =
        refuseCall cb (methodSignature name arguments.length) r) := by
  let signature := methodSignature name arguments.length
  have hlength := length_operands hoperands
  have hfind : r.machine.handles.find? address =
      some (.method signature (name.toList.count '_' + arguments.length)) := by
    rw [hhandle, ← placeCount_methodSignature]
    exact Table.find?_insert_self ..
  rw [callHandle_of_method hfind]
  constructor
  · intro hname
    have hscript : eval cb module (.call receiver name arguments) r₀ =
        withPinned frame (invoke cb signature frame) r := eval_call hoperands
    have htake : r.machine.slots.take (name.toList.count '_' + arguments.length + 1) = frame := by
      rw [hslots, hname, Nat.zero_add, ← hlength, List.take_length]
    have hcall : callMethod cb signature (name.toList.count '_' + arguments.length) r =
        ((invoke cb signature frame).attempt >>= settleCall cb) r.called := by
      rw [callMethod_of_slots (by rw [hslots, hlength, hname]; omega), htake]
    refine ⟨hscript, hcall, ?_⟩
    rw [hscript, hcall]
    -- the pinned operands are those that the host keeps in its slots
    let pinned : Running ε :=
      { r with machine := { r.machine with pins := frame.reverse ++ r.machine.pins } }
    have htwins : Twins pinned r.called := ⟨rfl, rfl⟩
    have hkeep : KeepAlike frame pinned r.called := by
      intro v
      simp only [pinned, Running.called, Running.entered, State.kept, State.enterFrame, hslots,
        List.flatten_cons, List.mem_append, List.mem_reverse]
      tauto
    have hnonempty : r.called.machine.slots ≠ [] := by
      intro hnil
      have hframe : frame = [] := hslots.symm.trans hnil
      rw [hframe] at hlength
      exact absurd hlength (by simp)
    exact answers_of_echo (echo_invoke hcb signature htwins hkeep hnonempty)
  · intro hname
    refine callMethod_of_short ?_
    rw [hslots, hlength]
    omega

/-- A host that takes output, and whose methods answer with their first argument. -/
def mirror : Callbacks Unit where
  write _ := pure ()
  report _ := pure ()
  resolve? := none
  load _ := pure none
  bindClass _ _ := pure .unbound
  bindMethod _ := pure none
  execute _ := update fun s => s.setSlot 0 (s.slot 1)
  allocate _ := update fun s => s.setSlot 0 (s.slot 1)
  finalize _ _ := pure ()

theorem discreet_mirror : Discreet mirror := by
  have hmethod : Indifferent (update fun s => s.setSlot 0 (s.slot 1) : Call Unit Unit) := by
    refine ⟨fun h => ?_, fun h hhost _ => ⟨rfl, ?_, hhost⟩⟩
    · cases h
      rfl
    · change Alike (State.setSlot _ 0 _) (State.setSlot _ 0 _)
      rw [h]
      rfl
  exact ⟨fun _ r => ⟨r, rfl, id⟩, fun _ => hmethod, fun _ => hmethod⟩

/-- The operands of a call of `System` with one argument, in the slots of a new machine. -/
def printFrame : List Value := [.object 1, .bool true]

/-- A new machine with these operands in its slots and a handle at the address 7. -/
def printing (signature : String) : Running Unit :=
  ⟨{ State.create 0 with slots := printFrame }.makeCallHandle 7 signature, ()⟩

theorem operands_printing (signature : String) :
    operands mirror "main" (.variable "System" 1) [.bool true] (printing signature) =
      (.value printFrame, printing signature) := by
  simp only [operands, withPins, machine_bind, Run.andFinally, evalPinned, evalAll, eval]
  rfl

/-- Both names are names of the language, and only the one without an underscore can be called by
the host. -/
theorem callHandle_of_signature_print :
    lexemes "print" = .ok ⟨[⟨.word "print", 1⟩], 1⟩ ∧
    lexemes "print_it" = .ok ⟨[⟨.word "print_it", 1⟩], 1⟩ ∧
    Answers mirror
      (eval mirror "main" (.call (.variable "System" 1) "print" [.bool true])
        (printing "print(_)"))
      (callHandle mirror 7 (printing "print(_)")) ∧
    callHandle mirror 7 (printing "print_it(_)") =
      refuseCall mirror "print_it(_)" (printing "print_it(_)") := by
  have hprint : (printing "print(_)").machine = State.makeCallHandle
      { State.create 0 with slots := printFrame } 7 (methodSignature "print" 1) := rfl
  have hprintIt : (printing "print_it(_)").machine = State.makeCallHandle
      { State.create 0 with slots := printFrame } 7 (methodSignature "print_it" 1) := rfl
  refine ⟨rfl, rfl, ?_, ?_⟩
  · exact ((callHandle_of_signature discreet_mirror (operands_printing _) hprint rfl).1 rfl).2.2
  · exact (callHandle_of_signature discreet_mirror (operands_printing _) hprintIt rfl).2 (by decide)

end ScriptHost.Machine
