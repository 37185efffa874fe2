import ScriptHost.Proofs.Alarms
import ScriptHost.Proofs.Compilation
import ScriptHost.Proofs.Retention

/-!
# Errors of host functions

A method or an allocator of a host that ends with an error, and not with a fatal one, ends the run of
its machine: its text goes into the first slot of the frame, the machine is asked to abort with it
(`settle_of_error`), and the run has this text as its error.  So the innermost run is reported with the
text of the error, without its NULs, to the listener of the machine, and nothing of it goes on
(`Setting.failures_reported`).
-/

namespace ScriptHost.Bridge

open Machine (State Frame Running Call Eval Callbacks Key Lasting Steered Warned Heard HeardByHost)
open Run (Within)

variable {η α : Type}

/-! ## Asking to abort -/

section

variable {w : World η} {vm : VmId} {a : Address}

/-- A slot that exists is found. -/
theorem checked_of_slot {s : Slot} (hl : w.LiveAt s.vm a)
    (hcount : w.hasFault .negativeSlotCount = false)
    (hs : s.index < (w.machine a).slots.length) (operation : String) :
    s.checked operation w = (.value a, w.note (.enter a)) := by
  have hlive : live s.vm operation w = (.value a, w) := by
    rw [live_of_alive hl.1, hl.2]
  have hslots : (Native.slotCount a : Act η Nat) w =
      (.value (w.machine a).slots.length, w.note (.enter a)) := by
    have htold : Native.toldCount w .negativeSlotCount (w.machine a).slots.length =
        (w.machine a).slots.length := by
      unfold Native.toldCount
      rw [hcount]
      rfl
    exact Prod.ext (congrArg Outcome.value htold) rfl
  unfold Slot.checked
  rw [Run.bind_of_value hlive, Run.bind_of_value hslots, if_pos hs]
  rfl

/-- A slot that exists takes a text. -/
theorem setString_of_slot {s : Slot} (hl : w.LiveAt s.vm a)
    (hcount : w.hasFault .negativeSlotCount = false)
    (hs : s.index < (w.machine a).slots.length) (text : String) :
    s.setString text w = (.value (), ((w.note (.enter a)).note (.enter a)).putMachine a
      ((w.machine a).setSlot s.index (.ofText text))) := by
  unfold Slot.setString Slot.setBytes
  rw [Run.bind_of_value (checked_of_slot hl hcount hs "set_bytes")]
  rfl

/-- A slot that exists is taken for the error of a machine. -/
theorem abortFiber_of_slot {s : Slot} (hl : w.LiveAt s.vm a)
    (hcount : w.hasFault .negativeSlotCount = false)
    (hs : s.index < (w.machine a).slots.length) :
    Vm.abortFiber s.vm s w = (.value (), ((w.note (.enter a)).note (.enter a)).putMachine a
      ((w.machine a).requestAbort s.index)) := by
  have hsame : s.ensureSameVm s.vm "abort_fiber" w = (.value (), w) := by
    unfold Slot.ensureSameVm
    rw [if_pos rfl]
    rfl
  unfold Vm.abortFiber
  rw [Run.bind_of_value hsame, Run.bind_of_value (checked_of_slot hl hcount hs "abort_fiber")]
  rfl

/-- **A machine that is alive can be asked to abort with a text**, whatever its slots are. -/
theorem abortFiberWithMessage_eq (hl : w.LiveAt vm a) (ha : a ∈ w.natives.keys)
    (hcount : w.hasFault .negativeSlotCount = false) (text : String) :
    ∃ w', Vm.abortFiberWithMessage vm text w = (.value (), w') ∧
      (w'.machine a).abortRequest? = some (.ofText text) := by
  let slot : Slot := ⟨vm, 0⟩
  let m₁ := (w.machine a).ensureSlots (min 1 Vm.maxCount : Nat)
  let w₁ := (w.note (.enter a)).putMachine a m₁
  let m₂ := m₁.setSlot slot.index (.ofText text)
  let w₂ := ((w₁.note (.enter a)).note (.enter a)).putMachine a m₂
  have hroom : 0 < m₁.slots.length := by
    have hlength : m₁.slots.length = (w.machine a).slots.length + (1 - (w.machine a).slots.length) := by
      rw [← List.length_replicate (n := 1 - (w.machine a).slots.length) (a := Machine.Value.null),
        ← List.length_append]
      rfl
    omega
  have hm₁ : w₁.machine a = m₁ := World.machine_putMachine_self ha m₁
  have ha₁ : a ∈ w₁.natives.keys := World.mem_natives_putMachine.2 ha
  have hm₂ : w₂.machine a = m₂ := World.machine_putMachine_self ha₁ m₂
  have ha₂ : a ∈ w₂.natives.keys := World.mem_natives_putMachine.2 ha₁
  have hensure : Vm.ensureSlots vm 1 w = (.value (), w₁) := by
    unfold Vm.ensureSlots
    rw [Run.bind_of_value (live_of_alive hl.1 _), hl.2]
    rfl
  have hset : slot.setString text w₁ = (.value (), w₂) := by
    have hslot : slot.index < (w₁.machine a).slots.length := by
      rw [hm₁]
      exact hroom
    have hwrite := setString_of_slot (w := w₁) (s := slot) (a := a) hl hcount hslot text
    rw [hm₁] at hwrite
    exact hwrite
  have hroom₂ : slot.index < (w₂.machine a).slots.length := by
    have hsame : m₂.slots.length = m₁.slots.length := List.length_set
    rw [hm₂, hsame]
    exact hroom
  refine ⟨((w₂.note (.enter a)).note (.enter a)).putMachine a (m₂.requestAbort slot.index), ?_, ?_⟩
  · unfold Vm.abortFiberWithMessage
    rw [Run.bind_of_value hensure, Run.bind_of_value hset,
      abortFiber_of_slot (w := w₂) (s := slot) (a := a) hl hcount hroom₂, hm₂]
  · have hm₃ := World.machine_putMachine_self
      (w := (w₂.note (.enter a)).note (.enter a)) ha₂ (m₂.requestAbort slot.index)
    rw [hm₃]
    exact congrArg some (State.slot_setSlot_self m₁ (.ofText text) hroom)

/-- **An error of a host function becomes one of the running program.** -/
theorem settle_of_error [Observer η] {e : HostError} (he : e.isFatal = false) (hl : w.LiveAt vm a)
    (ha : a ∈ w.natives.keys) (hcount : w.hasFault .negativeSlotCount = false) (what : String) :
    ∃ w', Trampoline.settle vm (.error e) what w = (.value (), w') ∧
      (w'.machine a).abortRequest? = some (.ofText e.message) := by
  let logged : World η := w.logged .debug ("vm " ++ Text.Hex.address (w.addressOf vm) ++ ": " ++
    what ++ " raised a script error: " ++ e.message)
  obtain ⟨w', habort, htext⟩ := abortFiberWithMessage_eq (w := logged) hl ha hcount e.message
  refine ⟨w', ?_, htext⟩
  change (if e.isFatal then fatal e else _ : Effect η Unit) w = _
  rw [he, if_neg Bool.false_ne_true]
  change (Run.attempt (Vm.abortFiberWithMessage vm e.message) >>= _) logged = _
  rw [Run.bind_of_value (Run.attempt_of_value habort)]
  rfl

end

/-! ## Functions that fail -/

/-- The error with which a host function comes back, if it is one for the running program.  A machine
that misreports the number of its slots cannot be told. -/
def failure? (function : Act (Host η) Unit) (w : World (Host η)) : Option HostError :=
  match function w with
  | (.fault e, w') => if e.isFatal || w'.hasFault .negativeSlotCount then none else some e
  | _ => none

theorem failure?_eq_some {function : Act (Host η) Unit} {w : World (Host η)} {e : HostError}
    (h : failure? function w = some e) :
    ∃ w', function w = (.fault e, w') ∧ e.isFatal = false ∧ w'.hasFault .negativeSlotCount = false := by
  unfold failure? at h
  split at h
  · next e' w' hrun =>
    split at h
    · exact absurd h (by simp)
    · next hsound =>
      cases h
      rw [Bool.or_eq_true, not_or, Bool.not_eq_true, Bool.not_eq_true] at hsound
      exact ⟨w', hrun, hsound⟩
  · exact absurd h (by simp)

/-- The host function of the method that is bound to a key of a machine. -/
def World.methodAt? (w : World (Host η)) (key : Key) (vm : VmId) : Option Delegate :=
  ((w.serviceOf vm).bindings.method? key).map MethodBinding.method

/-- The host function of the allocator that is bound to a key of a machine. -/
def World.allocatorAt? (w : World (Host η)) (key : Key) (vm : VmId) : Option Delegate :=
  ((w.serviceOf vm).bindings.class? key).map ClassBinding.allocator

/-- The text of the error with which the bound function of a machine comes back, `act` being what
functions do. -/
def failureText? (bound? : World (Host η) → VmId → Option Delegate)
    (act : Delegate → VmId → Act (Host η) Unit) (a : Address) (r : Running (World (Host η))) :
    Option String :=
  match (world a r).registered.find? a with
  | none => none
  | some vm =>
    match bound? (world a r) vm with
    | none => none
    | some f => (failure? (act f vm) (world a r)).map HostError.message

/-- The callbacks of a machine, with an alarm behind each method and allocator that fails. -/
def alarmed [Observer η] (d : Delegates (Host η)) (a : Address) : Callbacks (World (Host η)) :=
  (callbacks d a).alarmed (fun key => failureText? (·.methodAt? key) d.method a)
    (fun key => failureText? (·.allocatorAt? key) d.allocator a)

section

variable [Observer η] {vm : VmId} {a : Address} {active : List Address} {d : Delegates (Host η)}
  {r : Running (World (Host η))}

theorem balanced_trivial : Machine.Balanced (fun _ _ => True) (fun _ _ => True) fun _ _ => True where
  refl _ := trivial
  trans _ _ _ _ _ := trivial
  own _ := trivial
  call _ := trivial
  pinning _ := trivial
  transPinning _ _ _ _ _ := trivial
  pin _ _ := trivial
  unpin _ := trivial

theorem tends_trivial : Tends (fun _ => True) fun _ _ => True where
  refl _ := trivial
  trans _ _ _ _ _ := trivial
  touch _ := ⟨id, trivial⟩
  create := trivial

/-- Nothing is kept of a machine but that it lives as long as it runs. -/
abbrev Regime.living (vm : VmId) (a : Address) : Regime η := .relating vm a fun _ _ => True

theorem upheld_living (vm : VmId) (a : Address) : (Regime.living vm a : Regime η).Upheld :=
  upheld_relating tends_trivial balanced_trivial fun _ _ => trivial

/-- **A host function that fails has asked to abort when it comes back.** -/
theorem abort_of_failure {run : Effect (Host η) Unit} {what : String}
    {bound? : World (Host η) → VmId → Option Delegate} {act : Delegate → VmId → Act (Host η) Unit}
    (hrun : ∀ w id f, w.registered.find? a = some id → bound? w id = some f →
      run w = (do Trampoline.settle id (← Run.attempt (act f id)) what : Effect (Host η) Unit) w)
    (hact : ∀ f id w,
      Within ((Regime.living vm a).Moves active) ((Regime.living vm a).Reaches active) (act f id) w)
    (hr : Working vm a active r) (ha : a ∈ active) {text : String}
    (htext : failureText? bound? act a r = some text) :
    ∃ t, atHost a run r = (.value (), t) ∧ t.machine.abortRequest? = some (.ofText text) := by
  have hreg : (world a r).registered.find? a = some vm :=
    (hr.steady.sound.roster.registered a vm).2 hr.live
  obtain ⟨f, e, hbound, hfailure, rfl⟩ : ∃ f e, bound? (world a r) vm = some f ∧
      failure? (act f vm) (world a r) = some e ∧ e.message = text := by
    rw [failureText?, hreg] at htext
    dsimp only at htext
    split at htext
    · exact absurd htext (by simp)
    · next f hbound =>
      obtain ⟨e, hfailure, hmessage⟩ := Option.map_eq_some_iff.1 htext
      exact ⟨f, e, hbound, hfailure, hmessage⟩
  obtain ⟨w', hfault, he, hcount⟩ := failure?_eq_some hfailure
  -- the machine lives on while its function runs
  have hmoves : (Regime.living vm a).Moves active (world a r) (world a ⟨w'.machine a, w'⟩) := by
    have hwithin := (hact f vm (world a r)).2
    rw [hfault] at hwithin
    rw [world_machine]
    exact hwithin rfl
  have hback : Working vm a active ⟨w'.machine a, w'⟩ := (hr.of_moves trivial ha hmoves).2.1
  obtain ⟨hsteady, hlive⟩ := hback
  rw [world_machine] at hsteady hlive
  have hnative := hsteady.sound.roster.mem_natives hlive
  obtain ⟨u, hsettle, habort⟩ := settle_of_error he hlive hnative hcount what
  have hcome : run (world a r) = (.value (), u) := by
    rw [hrun (world a r) vm f hreg hbound, Run.bind_of_value (Run.attempt_of_fault hfault)]
    exact hsettle
  refine ⟨⟨u.machine a, u⟩, ?_, habort⟩
  have hsealed : run.sealed (world a r) = (.value (), u) := by
    rw [Run.sealed, hcome]
  unfold atHost
  rw [show r.host.putMachine a r.machine = world a r from rfl, hsealed]

theorem execute_of_bound {w : World (Host η)} {key : Key} {id : VmId} {f : Delegate}
    (hreg : w.registered.find? a = some id) (hbound : w.methodAt? key id = some f) :
    Trampoline.execute d a key w = (do
      Trampoline.settle id (← Run.attempt (d.method f id)) "foreign method" :
        Effect (Host η) Unit) w := by
  obtain ⟨binding, hbinding, rfl⟩ := Option.map_eq_some_iff.1 hbound
  simp only [Trampoline.execute, Trampoline.lookup_bind hreg, Run.gets_bind, hbinding]

theorem allocate_of_bound {w : World (Host η)} {key : Key} {id : VmId} {f : Delegate}
    (hreg : w.registered.find? a = some id) (hbound : w.allocatorAt? key id = some f) :
    Trampoline.allocate d a key w = (do
      Trampoline.settle id (← Run.attempt (d.allocator f id)) "allocator" :
        Effect (Host η) Unit) w := by
  obtain ⟨binding, hbinding, rfl⟩ := Option.map_eq_some_iff.1 hbound
  simp only [Trampoline.allocate, Trampoline.lookup_bind hreg, Run.gets_bind, hbinding]

/-- The machine runs among calls of its host. -/
theorem steered_living (h : (Regime.living vm a).Behaved active d) (ha : a ∈ active) :
    Steered (Working vm a active) (Passes active a) (Leaves vm a active fun _ => True) (fun _ _ => True)
      (fun _ _ => True) (fun _ _ => True) (callbacks d a) :=
  steered_relating tends_trivial balanced_trivial ha h

/-- **The alarms of a machine are raised in front of its aborts.** -/
theorem warned_alarmed (h : (Regime.living vm a).Behaved active d) (ha : a ∈ active) :
    Warned (fun _ => True) (Working vm a active) (alarmed d a) (callbacks d a) := by
  have l := Machine.pairedRuns_lasting (steered_living h ha)
  have hentered : ∀ {r : Running (World (Host η))} (frame), Working vm a active r →
      Working vm a active (r.entered frame) :=
    fun frame hr => (hr.of_frame (Machine.State.frame_enterFrame _ frame)).2
  exact
    { write := fun _ _ _ => rfl
      report := fun _ _ _ => rfl
      resolve := fun _ _ _ _ => rfl
      load := fun _ _ _ => rfl
      bindClass := fun _ _ _ _ => rfl
      bindMethod := fun _ _ _ => rfl
      execute := fun key frame r hr => Machine.heard_alarm
        (fun text htext => abort_of_failure (fun w id f => execute_of_bound)
          (fun f id w => h.method f id w trivial) (hentered frame hr) ha htext)
        fun _ => Machine.heard_self (l.execute key frame r hr)
      allocate := fun key frame r hr => Machine.heard_alarm
        (fun text htext => abort_of_failure (fun w id f => allocate_of_bound)
          (fun f id w => h.allocator f id w trivial) (hentered frame hr) ha htext)
        fun _ => Machine.heard_self (l.allocate key frame r hr) }

/-- A report goes to the listener of the machine. -/
theorem report_of_listener (hr : Working vm a active r) {listener : Delegate}
    (hlistener : ((world a r).vm vm).listeners.error? = some listener) (diagnostic : Diagnostic) :
    (callbacks d a).report diagnostic r = atHost a (d.error listener vm diagnostic) r := by
  have hreg : (world a r).registered.find? a = some vm :=
    (hr.steady.sound.roster.registered a vm).2 hr.live
  have hrun : Trampoline.error d a diagnostic (world a r) =
      d.error listener vm diagnostic (world a r) := by
    simp only [Trampoline.error, Trampoline.lookup_bind hreg, Vm.listeners_bind, hlistener]
  exact atHost_congr hrun

end

/-! ## Reports -/

/-- The report of an error with a text. -/
def runtimeReport (text : String) : Diagnostic := ⟨.runtime, none, -1, Text.strip text⟩

/-- What the end `p` of a run among alarms says of its end `q` without them.  An alarm with a text is a
report of this text, which is delivered in the state of the alarm once the frame of the function is
left and pins are forgotten; then the run ends as one with a runtime error.  A run without an alarm is
the same. -/
structure Delivered [Observer η] (d : Delegates (Host η)) (vm : VmId) (a : Address)
    (p q : Outcome Empty InterpretResult × Running (World (Host η))) : Prop where
  alarm : ∀ text u, p = (.halt (.panic text), u) → ∃ pins,
    q = Machine.reported (callbacks d a) text (u.returned pins) ∧
    (∀ result, q.1 = .value result → result = .runtimeError) ∧
    ∀ listener, ((world a (u.returned pins)).vm vm).listeners.error? = some listener →
      (callbacks d a).report (runtimeReport text) (u.returned pins) =
        atHost a (d.error listener vm (runtimeReport text)) (u.returned pins)
  silent : (∀ text u, p ≠ (.halt (.panic text), u)) → q = p

theorem Delivered.of_heard [Observer η] {vm : VmId} {a : Address} {active : List Address}
    {d : Delegates (Host η)} {p q : Outcome Empty InterpretResult × Running (World (Host η))}
    (h : HeardByHost (fun _ => True) (Working vm a active) (callbacks d a) p q) :
    Delivered d vm a p q := by
  refine ⟨fun text u hp => ?_, fun hp => ?_⟩
  · subst hp
    obtain ⟨-, pins, hworking, rfl⟩ := h
    refine ⟨pins, rfl, fun result hresult => ?_, fun listener hlistener => ?_⟩
    · have hvalue : Machine.reported (callbacks d a) text (u.returned pins) =
          (.value result, (Machine.reported (callbacks d a) text (u.returned pins)).2) :=
        Prod.ext hresult rfl
      obtain ⟨_, t, -, ht⟩ := Run.value_of_bind hvalue
      cases congrArg Prod.fst ht
      rfl
    · exact report_of_listener hworking hlistener _
  · rcases p with ⟨v | e | w, u⟩
    · exact h
    · exact h
    · cases w with
      | panic text => exact absurd rfl (hp text u)
      | fatal | exhausted => exact h

namespace Setting

variable [Observer η] (s : Setting η) {vm : VmId} {a : Address} {active : List Address}

/-- **An error of a method or an allocator ends the innermost run with a report of its text.**  The
alarms say where that is: a run among alarms is at its end where one is raised, and the run without
them does nothing there but report. -/
theorem failures_reported (depth : Nat) {r : Running (World (Host η))} (ha : a ∈ active)
    (hw : Steady active (world a r)) (hl : (world a r).LiveAt vm a) :
    let d := (s.code.engines s.importDepth depth active).delegates
    (∀ nesting module source, Delivered d vm a
      (Machine.interpret (alarmed d a) nesting module source r)
      (Machine.interpret (callbacks d a) nesting module source r)) ∧
    ∀ handle, Delivered d vm a (Machine.callHandle (alarmed d a) handle r)
      (Machine.callHandle (callbacks d a) handle r) := by
  intro d
  have h : (Regime.living vm a).Behaved active d :=
    (serves_engines (upheld_living vm a) s.code.obeys_free s.importDepth depth).behaved active
  have p := steered_living h ha
  have w := warned_alarmed h ha
  refine ⟨fun nesting module source => ?_, fun handle => ?_⟩
  · exact .of_heard (Machine.heard_interpret p w ⟨hw, hl⟩ nesting module source)
  · exact .of_heard (Machine.heard_callHandle p w ⟨hw, hl⟩ handle)

/-- A host whose only method fails. -/
def refusing : Setting Unit :=
  { silent with
    code := { silent.code with method := fun _ _ => .done (.error (.script "no\x00pe")) } }

/-- A host that makes a machine with a listener for diagnostics, and has a method. -/
def offering : Program Unit Vm :=
  .ask .newService fun service =>
  .ask (.registerMethod service ⟨1, none⟩) fun _ =>
  .ask (.create service ⟨none, none, none, none⟩) fun vm =>
  .ask (.listen vm.id fun l => { l with error? := some 5 }) fun _ => .done vm

/-- The world of the machine. -/
def offered : World (Host Unit) := (refusing.run offering).2

theorem offered_eq :
    ((refusing.run offering).1.isFinal, (offered.vm 1).isAlive, (offered.vm 1).address) =
      (false, true, 2) := by
  cbv

/-- A class with the method `f()`. -/
def offeredClass : Machine.Class :=
  ⟨"A", "main", false, [], .empty, Table.empty.insert "f()" 1, none, none⟩

/-- The machine with the class. -/
def offeredMachine : State :=
  let allocated := (offered.machine 2).alloc (.classDef offeredClass)
  allocated.2.define "main" "A" (.object allocated.1)

theorem frame_offeredMachine : Frame (offered.machine 2) offeredMachine :=
  (State.frame_alloc (offered.machine 2) rfl).trans (State.frame_define _ "main" "A" _)

/-- The script `A.f()` calls the method, and the alarm behind it is raised. -/
theorem alarm_offered :
    ∃ u, Machine.interpret (alarmed (refusing.code.engines 1 1 [2]).delegates 2) 1 "main" "A.f()"
        ⟨offeredMachine, offered⟩ = (.halt (.panic "no\x00pe"), u) ∧
      ∀ pins, ((world 2 (u.returned pins)).vm 1).listeners.error? = some 5 := by
  generalize hcb : alarmed (refusing.code.engines 1 1 [2]).delegates 2 = cb
  let r : Running (World (Host Unit)) := ⟨offeredMachine, offered⟩
  let statement : Script.Statement := ⟨.evaluate (.call (.variable "A" 1) "f" []), 1⟩
  let r₁ : Running (World (Host Unit)) :=
    ⟨{ (r.withModule "main").machine with location := ⟨"main", 1⟩ }, offered⟩
  have hparse : Script.parse "A.f()" = .ok [statement] := by cbv
  have haccepted : Machine.Accepted "main" "A.f()" r [statement] ["System", "Fiber", "A"] :=
    ⟨hparse, by rfl⟩
  have hoperands : Machine.operands cb "main" (.variable "A" 1) [] r₁ = (.value [.object 3], r₁) := by
    unfold Machine.operands
    rw [Machine.evalPinned, Machine.evalAll, Machine.eval_variable]
    rfl
  have hsignature : Script.methodSignature "f" 0 = "f()" := by cbv
  obtain ⟨u, hinvoke, hlistener⟩ : ∃ u, Machine.withPinned [.object 3]
      (Machine.invoke cb "f()" [.object 3]) r₁ = (.halt (.panic "no\x00pe"), u) ∧
        ∀ pins, ((world 2 (u.returned pins)).vm 1).listeners.error? = some 5 := by
    subst hcb
    exact ⟨_, by rfl, fun pins => by rfl⟩
  refine ⟨u, ?_, hlistener⟩
  have heval : Machine.eval cb "main" (.call (.variable "A" 1) "f" []) r₁ =
      (.halt (.panic "no\x00pe"), u) := by
    rw [Machine.eval_call hoperands]
    exact (congrArg (fun signature => Machine.withPinned [.object 3]
      (Machine.invoke cb signature [.object 3]) r₁) hsignature).trans hinvoke
  have hrun : Machine.runModule cb 1 "main" "A.f()" r = (.halt (.panic "no\x00pe"), u) := by
    rw [Machine.runModule, Run.bind_of_value (Machine.compile_of_accepted haccepted)]
    rw [Machine.execAll]
    have hlocate : (Machine.update fun s => { s with location := ⟨"main", 1⟩ } :
        Eval (World (Host Unit)) Unit) (r.withModule "main") = (.value (), r₁) := rfl
    refine (Run.bind_of_value hlocate _).trans (Run.bind_of_halt ?_ _)
    exact Run.bind_of_halt heval _
  have hattempt : ((Machine.runModule cb 1 "main" "A.f()").attempt :
      Call (World (Host Unit)) (Except Machine.Fault Unit)) r = (.halt (.panic "no\x00pe"), u) := by
    rw [Run.attempt, hrun]
  exact Run.bind_of_halt hattempt _

/-- The method is called, fails, and its error is reported to the listener. -/
theorem failures_reported_call :
    let d := (refusing.code.engines 1 1 [2]).delegates
    let r : Running (World (Host Unit)) := ⟨offeredMachine, offered⟩
    Steady [2] (world 2 r) ∧ (world 2 r).LiveAt 1 2 ∧ ∃ v,
      Machine.interpret (callbacks d 2) 1 "main" "A.f()" r =
        Machine.reported (callbacks d 2) "no\x00pe" v ∧
      (callbacks d 2).report ⟨.runtime, none, -1, "nope"⟩ v =
        atHost 2 (d.error 5 1 ⟨.runtime, none, -1, "nope"⟩) v := by
  intro d r
  have hend : (refusing.run offering).1.isFinal = false := congrArg (·.1) offered_eq
  have hl : offered.LiveAt 1 2 := ⟨congrArg (·.2.1) offered_eq, congrArg (·.2.2) offered_eq⟩
  have hsteady : Steady [] offered := refusing.steady_run offering hend
  have hstart : Working 1 2 [2] ⟨offered.machine 2, offered⟩ := by
    constructor
    · rw [world_machine]
      exact hsteady.cons (hsteady.sound.roster.mem_natives hl)
    · rw [world_machine]
      exact hl
  obtain ⟨hw, hlive⟩ : Working 1 2 [2] r := (hstart.of_frame frame_offeredMachine).2
  obtain ⟨u, halarm, hlistener⟩ := alarm_offered
  obtain ⟨pins, hreported, -, hdelivered⟩ :=
    ((refusing.failures_reported 1 List.mem_cons_self hw hlive).1 1 "main" "A.f()").alarm _ u halarm
  have hstrip : runtimeReport "no\x00pe" = ⟨.runtime, none, -1, "nope"⟩ := by
    cbv
  refine ⟨hw, hlive, _, hreported, ?_⟩
  rw [← hstrip]
  exact hdelivered 5 (hlistener pins)

end Setting

end ScriptHost.Bridge
