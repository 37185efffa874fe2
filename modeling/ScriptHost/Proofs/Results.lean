import ScriptHost.Proofs.Alarms
import ScriptHost.Proofs.Balance

/-!
# The value that a call by the host leaves

A method that is called by its handle runs on values that are copied from the slots, and nothing pins
them.  A host function gets them as its frame, and the slots of its caller are saved around it, so that
a collection finds both.  But `print` and `write` call a listener on the slots of the caller, and give
their argument back behind it: a listener that overwrites the slots and collects garbage takes the
argument away, and the call leaves a value that refers to nothing (`dangling_echo`).

So a call leaves a value that is on the heap if its method is another one, or if listeners to what is
written leave the slots as they are (`Sparing`).  Where all of them do, nothing dangles in a machine
whatever else its host does, calls of methods by their handles included
(`Setting.results_held`, `Setting.whole_sparing`).
-/

namespace ScriptHost.Machine

open Script
open Run (Within)

variable {ε α : Type} {alarm : Halt}

section

variable {Ok : Running ε → Prop} {L S : Running ε → Running ε → Prop} {cb : Callbacks ε}
  (c : Careful Ok L S cb) {r : Running ε}
include c

/-- A listener that leaves the slots gives them back. -/
theorem sure_call_returned {x : Call ε α} {F : State → Prop}
    (hx : Leads Ok L S State.Kept x) (hcont : Run.Contained x) (hspare : LeavesSlots Ok x)
    (hok : Ok r) :
    Sure Ok L S x (guarded alarm x) (fun _ m => State.Returned r.machine m) F r := by
  have hcall : Sure Ok L S x (guarded alarm x) (fun _ m => State.Kept r.machine m) F r :=
    sure_call c hok hx hcont
  refine ⟨hcall.same, fun v t hrun => ?_, hcall.fault, hcall.halt⟩
  obtain ⟨hl, hokt, hkept⟩ := hcall.value v t hrun
  exact ⟨hl, hokt, hkept, hspare r v t hok hrun⟩

/-- **A method finds the values of its frame in the slots**, and its value is on the heap. -/
theorem sure_invoke_slots (signature : String) {frame : List Value} (hok : Ok r)
    (hframe : ∀ v ∈ frame, v ∈ r.machine.slots)
    (hspare : (r.machine.heap.target (frame.headD .null) signature).echoes = true →
      ∀ text, LeavesSlots Ok (cb.write text)) :
    Sure Ok L S (invoke cb signature frame) (invoke (cb.guarded alarm) signature frame)
      (fun v m => State.Kept r.machine m ∧ m.heap.Holds v) (State.Kept r.machine) r := by
  refine sure_invoke_of c (I := State.Returned r.machine) signature hok (.refl _)
    State.Returned.toKept (fun t hokt hback v hv => ?_) fun hechoes text t hokt hback => ?_
  · refine (c.whole hokt).slots ?_
    rw [hback.slots]
    exact hframe v hv
  · refine Sure.mono (F := fun _ => True) (sure_call_returned c (c.hosted.write text)
      (c.contained.write text) (hspare hechoes text) hokt) (fun _ _ _ h => hback.trans h)
      fun _ _ h => h

/-- What a handle calls, if there are slots enough. -/
def State.calledTarget (m : State) (address : Nat) : Target :=
  match m.handles.find? address with
  | some (.method signature arity) =>
    m.heap.target ((m.slots.take (arity + 1)).headD .null) signature
  | _ => .missing

omit c in
theorem calledTarget_of_method {m : State} {address arity : Nat} {signature : String}
    (h : m.handles.find? address = some (.method signature arity)) :
    m.calledTarget address =
      m.heap.target ((m.slots.take (arity + 1)).headD .null) signature := by
  rw [State.calledTarget, h]

/-- What is left of a call behind its invocation. -/
theorem safe_settleCall {result : Except Fault Value} (hok : Ok r)
    (hholds : ∀ v, result = .ok v → r.machine.heap.Holds v) :
    Safe Ok L S (settleCall cb result) (settleCall (cb.guarded alarm) result) r := by
  cases result with
  | ok v =>
    refine safe_update c hok (State.frame_setSlot _ 0 v) ((c.whole hok).setSlot 0 (hholds v rfl))
      (State.writes_setSlot _ 0 v).rewrites.kept fun _ hokt => safe_pure c hokt _
  | error e => exact safe_seq c (safe_reportRuntime c _ hok) fun _ _ hokt => safe_pure c hokt _

/-- **A call of a handle leaves a machine whole**, and calls its host on whole machines only. -/
theorem safe_callHandle (address : Nat) (hok : Ok r)
    (hspare : (r.machine.calledTarget address).echoes = true →
      ∀ text, LeavesSlots Ok (cb.write text)) :
    Safe Ok L S (callHandle cb address) (callHandle (cb.guarded alarm) address) r := by
  unfold callHandle
  refine sure_machine ?_
  split
  · next signature arity hfind =>
    rw [calledTarget_of_method hfind] at hspare
    unfold callMethod
    refine sure_machine ?_
    split
    · exact safe_seq c (safe_reportRuntime c _ hok) fun _ _ hokt => safe_pure c hokt _
    · have hwhole : r.called.machine.Whole := (c.whole hok).reroot rfl fun v hv => Or.inl hv
      have hkept : State.Kept r.machine r.called.machine := ⟨rfl, rfl⟩
      refine sure_update c hok (State.frame_locate _ _) hwhole fun hcalled => ?_
      -- the slots are those from which the frame was taken
      refine sure_bind c (sure_attempt (sure_invoke_slots c signature hcalled
        (fun v hv => List.mem_of_mem_take hv) hspare)) (fun result t hokt h => ?_) fun _ h => id
      have hend : ∀ result, State.Kept r.called.machine t.machine →
          (∀ v, result = .ok v → t.machine.heap.Holds v) →
          Sure Ok L S (settleCall cb result) (settleCall (cb.guarded alarm) result)
            (fun _ m => State.Kept r.machine m) (State.Kept r.machine) t :=
        fun result hback hholds => (safe_settleCall c hokt hholds).mono
          (fun _ _ _ h => (hkept.trans hback).trans h) fun _ _ h => (hkept.trans hback).trans h
      rcases h with ⟨v, rfl, hback, hholds⟩ | ⟨⟨e, rfl⟩, hback⟩
      · refine hend (.ok v) hback fun u hu => ?_
        cases hu
        exact hholds
      · exact hend (.error e) hback fun u hu => absurd hu (by simp)
  · exact safe_pure c hok _

end

/-- What `print` and `write` give back is the argument that they were given. -/
theorem value_of_echoes {cb : Callbacks ε} {signature : String} {frame : List Value} {v : Value}
    {r t : Running ε} (htarget : (r.machine.heap.target (frame.headD .null) signature).echoes = true)
    (h : invoke cb signature frame r = (.value v, t)) : v = frame[1]?.getD .null := by
  unfold invoke at h
  rw [machine_bind] at h
  cases hmeans : r.machine.heap.target (frame.headD .null) signature with
  | print =>
    rw [hmeans] at h
    obtain ⟨_, _, -, h⟩ := Run.value_of_bind h
    obtain ⟨_, _, -, h⟩ := Run.value_of_bind h
    cases h
    rfl
  | write =>
    rw [hmeans] at h
    obtain ⟨_, _, -, h⟩ := Run.value_of_bind h
    cases h
    rfl
  | _ =>
    rw [hmeans] at htarget
    exact absurd htarget (by simp [Target.echoes])

/-- A call of a handle that succeeds has invoked its method on the values in the slots, and has put the
value into the first one. -/
theorem callHandle_success {cb : Callbacks ε} {address : Nat} {r t : Running ε}
    (h : callHandle cb address r = (.value .success, t)) : ∃ signature arity v u,
      r.machine.handles.find? address = some (.method signature arity) ∧
      invoke cb signature (r.machine.slots.take (arity + 1)) r.called = (.value v, u) ∧
      t = { u with machine := u.machine.setSlot 0 v } := by
  have hreported : ∀ {text u}, reported cb text u ≠ (.value .success, t) := by
    intro text u hrun
    obtain ⟨_, _, _, hend⟩ := Run.value_of_bind hrun
    exact absurd (congrArg Prod.fst hend) (by simp [Pure.pure, Run.pure])
  cases hfind : r.machine.handles.find? address with
  | none =>
    rw [callHandle, machine_bind, hfind] at h
    exact absurd (congrArg Prod.fst h) (by simp [Pure.pure, Run.pure])
  | some target =>
    cases target with
    | value v =>
      rw [callHandle, machine_bind, hfind] at h
      exact absurd (congrArg Prod.fst h) (by simp [Pure.pure, Run.pure])
    | method signature arity =>
      rw [callHandle_of_method hfind] at h
      by_cases hshort : r.machine.slots.length < arity + 1
      · rw [callMethod_of_short hshort] at h
        exact absurd h hreported
      · rw [callMethod_of_slots (Nat.le_of_not_lt hshort)] at h
        obtain ⟨result, u, hresult, hend⟩ := Run.value_of_bind h
        rcases hrun : invoke cb signature (r.machine.slots.take (arity + 1)) r.called with
          ⟨v | e | w, u'⟩
        · cases (Run.attempt_of_value hrun).symm.trans hresult
          cases hend
          exact ⟨signature, arity, v, u, rfl, hrun, rfl⟩
        · cases (Run.attempt_of_fault hrun).symm.trans hresult
          exact absurd hend hreported
        · rw [Run.attempt, hrun] at hresult
          exact absurd (congrArg Prod.fst hresult) (by simp)

end ScriptHost.Machine

namespace ScriptHost.Bridge

open Machine (State Running Callbacks LeavesSlots)
open Run (Within)

variable {η α : Type}

/-! ## Listeners to what is written -/

/-- Listeners that leave the slots of the machine `vm` at `a` when it writes, if nothing dangles. -/
def Sparing (vm : VmId) (a : Address) (active : List Address) (d : Delegates (Host η)) : Prop :=
  ∀ f text w, Steady active w → w.LiveAt vm a → (w.machine a).Whole →
    SparesSlots a (d.write f vm text) w

/-- The machine `vm` at `a` is whole as long as it is alive, whatever is done. -/
def Regime.whole (vm : VmId) (a : Address) : Regime η :=
  .about .free vm a State.Whole State.Kept

section

variable [Observer η] {vm : VmId} {a : Address} {active : List Address} {d : Delegates (Host η)}
  {code : Code η} {importDepth depth : Nat}

theorem leavesSlots_write (h : Sparing vm a active d) (text : String) :
    LeavesSlots (Ready vm a active) ((callbacks d a).write text) := by
  refine leavesSlots_atHost (fun _ hr => hr.working) fun r hr hreg =>
    spares_lookup hreg (spares_gets_bind ?_)
  split
  · exact spares_pure _
  · refine h _ _ _ hr.steady hr.live ?_
    rw [hr.working.machine]
    exact hr.whole

/-- Runs and calls of the machine itself leave it whole. -/
theorem mine_whole (ha : a ∈ active) (h : (Regime.whole vm a).Behaved active d)
    (hspare : Sparing vm a active d) :
    Mine .free vm a active State.Whole State.Kept (callbacks d a) := by
  have c := careful_callbacks (l := .free) trivial h ha
  refine ⟨fun {r} hr depth module source => ?_, fun _ {r} hr handle => ?_⟩
  · have hready : Ready vm a active r := ⟨hr.1.steady, hr.1.live, hr.2⟩
    exact lasting_of_safe (y := Machine.interpret ((callbacks d a).guarded .exhausted) depth module
      source) (Machine.safe_interpret c depth module source hready)
  · have hready : Ready vm a active r := ⟨hr.1.steady, hr.1.live, hr.2⟩
    exact lasting_of_safe (y := Machine.callHandle ((callbacks d a).guarded .exhausted) handle)
      (Machine.safe_callHandle c handle hready fun _ => leavesSlots_write hspare)

/-- **Callbacks leave a machine whole**, if listeners to what it writes leave its slots wherever they
are called below. -/
theorem serves_whole (hspare : ∀ k < depth, ∀ active, a ∈ active →
    Sparing vm a active (code.engines importDepth k active).delegates) :
    (Regime.whole vm a).Serves (code.engines importDepth depth) := by
  have k : (Regime.whole vm a : Regime η).Lawful := lawful_about tends_whole
  induction depth using Nat.strongRecOn with
  | ind depth ih =>
    refine serves_of_drives k (le_rightsAt vm) code.obeys_free (fun d hd => ?_) fun _ =>
      sweeps_about tends_whole
    have hserves := ih d hd fun e he => hspare e (by omega)
    exact drives_about tends_whole hserves fun active ha =>
      mine_whole ha (hserves.behaved active) (hspare d hd active ha)

/-- So do all runs and calls among them. -/
theorem drives_whole (hspare : ∀ k ≤ depth, ∀ active, a ∈ active →
    Sparing vm a active (code.engines importDepth k active).delegates) :
    (Regime.whole vm a).Drives (code.engines importDepth depth) := by
  have hserves : (Regime.whole vm a).Serves (code.engines importDepth depth) :=
    serves_whole fun k hk => hspare k (by omega)
  exact drives_about tends_whole hserves fun active ha =>
    mine_whole ha (hserves.behaved active) (hspare depth (by omega) active ha)

/-- A listener that does nothing leaves the slots. -/
theorem sparing_of_idle (h : ∀ f vm text, code.write f vm text = .done ()) (k : Nat) :
    Sparing vm a active (code.engines importDepth k active).delegates := by
  intro f text w _ _ _ v w' hrun
  cases k with
  | zero => exact absurd (congrArg Prod.fst hrun) (by simp [Code.engines, Code.delegates, Run.halt])
  | succ k =>
    have hdone : (code.engines importDepth (k + 1) active).delegates.write f vm text =
        (code.write f vm text).run (code.engines importDepth k) active := rfl
    rw [hdone, h] at hrun
    cases hrun
    rfl

end

namespace Setting

variable [Observer η] (s : Setting η) {vm : VmId} {a : Address} {active : List Address}

/-- **Nothing dangles behind any program** of a host whose listeners to what a machine writes leave
its slots. -/
theorem whole_sparing (hspare : ∀ k ≤ s.depth, ∀ active, a ∈ active →
      Sparing vm a active (s.code.engines s.importDepth k active).delegates)
    {p : Program η α} (hend : (s.run p).1.isFinal = false) (hl : (s.run p).2.LiveAt vm a) :
    ((s.run p).2.machine a).Whole := by
  have hprogram : Within ((Regime.whole vm a).Moves []) ((Regime.whole vm a).Reaches [])
      (p.run s.engines []) s.start :=
    (drives_whole hspare).program (lawful_about tends_whole) p p.obeys_free
      (le_rightsAt vm) s.start
  exact (hprogram.2 hend s.steady_start fun hlive => absurd hlive.1 Bool.false_ne_true).2.1 hl

/-- **A call of a handle that succeeds leaves a value that is on the heap**, and nothing dangles behind
it, if its method is none that gives back what it writes, or if the listeners to this leave the slots.
Methods, allocators and all other listeners may do anything; inside of them, listeners to what is
written leave the slots too.  What `print` and `write` leave is the value that was copied from the slots
before they wrote it, whatever has become of its object since. -/
theorem results_held (depth : Nat) {r : Running (World (Host η))} (ha : a ∈ active)
    (hw : Steady active (world a r)) (hl : (world a r).LiveAt vm a) (hwhole : r.machine.Whole)
    (hspare : ∀ k < depth, ∀ active, a ∈ active →
      Sparing vm a active (s.code.engines s.importDepth k active).delegates) :
    let d := (s.code.engines s.importDepth depth active).delegates
    ∀ handle t, Machine.callHandle (callbacks d a) handle r = (.value .success, t) →
      (((r.machine.calledTarget handle).echoes = true → Sparing vm a active d) →
        t.machine.heap.Holds (t.machine.slot 0) ∧ t.machine.Whole) ∧
      ∃ signature arity v u, r.machine.handles.find? handle = some (.method signature arity) ∧
        Machine.invoke (callbacks d a) signature (r.machine.slots.take (arity + 1)) r.called =
          (.value v, u) ∧
        t.machine = u.machine.setSlot 0 v ∧
        ((r.machine.calledTarget handle).echoes = true →
          v = (r.machine.slots.take (arity + 1))[1]?.getD .null) := by
  have hserves : (Regime.whole vm a).Serves (s.code.engines s.importDepth depth) :=
    serves_whole hspare
  have c := careful_callbacks (l := .free) trivial (hserves.behaved active) ha
  have hready : Ready vm a active r := ⟨hw, hl, hwhole⟩
  intro d handle t hrun
  refine ⟨fun hechoes => ?_, ?_⟩
  · have hsafe : Machine.Safe (Ready vm a active) (Passes active a) (Leaves vm a active State.Whole)
        (Machine.callHandle (callbacks d a) handle)
        (Machine.callHandle ((callbacks d a).guarded .exhausted) handle) r :=
      Machine.safe_callHandle c handle hready fun h => leavesSlots_write (hechoes h)
    have hend := (hsafe.value _ _ hrun).2.1.whole
    exact ⟨hend.slot 0, hend⟩
  · obtain ⟨signature, arity, v, u, hfind, hinvoke, rfl⟩ := Machine.callHandle_success hrun
    refine ⟨signature, arity, v, u, hfind, hinvoke, rfl, fun hechoes => ?_⟩
    rw [Machine.calledTarget_of_method hfind] at hechoes
    exact Machine.value_of_echoes (r := r.called) hechoes hinvoke

/-- A host whose method makes a list and collects garbage behind it. -/
def hoarding : Setting Unit :=
  { silent with
    code := { silent.code with
      bindMethod := fun _ _ _ => .done (some 1)
      method := fun _ vm =>
        .ask (.access (.setNewList ⟨vm, 0⟩)) fun _ =>
        .ask (.collectGarbage vm) fun _ => .done (.ok ()) } }

/-- A host that has a class with a method in its slot, and a handle of the method. -/
def hoard : Program Unit Vm :=
  .ask .newService fun service =>
  .ask (.registerMethod service ⟨1, none⟩) fun _ =>
  .ask (.create service ⟨none, none, none, none⟩) fun vm =>
  .ask (.listen vm.id fun l => { l with bindMethod? := some 1 }) fun _ =>
  .ask (.interpret vm.id "main" "class A \x7bforeign static f()\x7d") fun _ =>
  .ask (.access (.ensureSlots vm.id 1)) fun _ =>
  .ask (.access (.getVariable vm.id "main" "A" ⟨vm.id, 0⟩)) fun _ =>
  .ask (.makeCallHandle vm.id "f()") fun _ => .done vm

/-- The world of the machine. -/
def hoarded : World (Host Unit) := (hoarding.run hoard).2

theorem hoarded_eq :
    ((hoarding.run hoard).1.isFinal, (hoarded.vm 1).isAlive, (hoarded.vm 1).address,
      (hoarded.machine 2).slots, (hoarded.machine 2).handles.keys) =
      (false, true, 2, [.object 3], [3]) := by
  cbv

theorem callHandle_hoarded :
    let run := Machine.callHandle (callbacks (hoarding.code.engines 1 1 [2]).delegates 2) 3
      ⟨hoarded.machine 2, hoarded⟩
    (run.1, run.2.machine.slot 0) = (.value .success, .object 4) := by
  cbv

/-- The list that the method makes is still there behind the call, and garbage has been collected. -/
theorem results_held_hoarded :
    let d := (hoarding.code.engines 1 1 [2]).delegates
    let r : Running (World (Host Unit)) := ⟨hoarded.machine 2, hoarded⟩
    Steady [2] (world 2 r) ∧ (world 2 r).LiveAt 1 2 ∧ r.machine.Whole ∧
      ∃ t, Machine.callHandle (callbacks d 2) 3 r = (.value .success, t) ∧
        t.machine.slot 0 = .object 4 ∧ t.machine.heap.Holds (t.machine.slot 0) := by
  intro d r
  have hend : (hoarding.run hoard).1.isFinal = false := congrArg (·.1) hoarded_eq
  have hl : hoarded.LiveAt 1 2 := ⟨congrArg (·.2.1) hoarded_eq, congrArg (·.2.2.1) hoarded_eq⟩
  have hsteady : Steady [] hoarded := hoarding.steady_run hoard hend
  have hidle : ∀ k active, Sparing 1 2 active (hoarding.code.engines 1 k active).delegates :=
    fun k _ => sparing_of_idle (fun _ _ _ => rfl) k
  have hwhole : r.machine.Whole := hoarding.whole_sparing (fun k _ active _ => hidle k active) hend hl
  have hlive : (world 2 r).LiveAt 1 2 := by
    rw [world_machine]
    exact hl
  have hw : Steady [2] (world 2 r) := by
    rw [world_machine]
    exact hsteady.cons (hsteady.sound.roster.mem_natives hl)
  have hcall : Machine.callHandle (callbacks d 2) 3 r =
      (.value .success, (Machine.callHandle (callbacks d 2) 3 r).2) :=
    Prod.ext (congrArg (·.1) callHandle_hoarded) rfl
  obtain ⟨hheld, -⟩ := hoarding.results_held 1 List.mem_cons_self hw hlive hwhole
    (fun k _ active _ => hidle k active) 3 _ hcall
  exact ⟨hw, hlive, hwhole, _, hcall, congrArg (·.2) callHandle_hoarded,
    (hheld fun _ => hidle 1 [2]).1⟩

/-- A host that takes away what a machine writes, and collects garbage. -/
def snatching : Setting Unit :=
  { silent with
    code := { silent.code with
      write := fun _ vm _ =>
        .ask (.access (.setNull ⟨vm, 1⟩)) fun _ =>
        .ask (.collectGarbage vm) fun _ => .done () } }

/-- A host that prints a list by a handle. -/
def snatch : Program Unit InterpretResult :=
  .ask .newService fun service =>
  .ask (.create service ⟨none, none, none, none⟩) fun vm =>
  .ask (.listen vm.id fun l => { l with write? := some 1 }) fun _ =>
  .ask (.access (.ensureSlots vm.id 2)) fun _ =>
  .ask (.access (.getVariable vm.id "core" "System" ⟨vm.id, 0⟩)) fun _ =>
  .ask (.access (.setNewList ⟨vm.id, 1⟩)) fun _ =>
  .ask (.makeCallHandle vm.id "print(_)") fun handle =>
  .ask (.call vm.id handle) fun result => .done result

-- a listener that does not leave the slots: the list has gone, and the first slot refers to it
example :
    ((snatching.run snatch).1, ((snatching.run snatch).2.machine 2).slots,
      ((snatching.run snatch).2.machine 2).heap.objects.keys) =
      (.value .success, [.object 3, .null], [1, 2]) := by
  cbv

end Setting

end ScriptHost.Bridge
