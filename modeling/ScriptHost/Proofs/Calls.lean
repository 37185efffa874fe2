import ScriptHost.Proofs.Programs

/-!
# Calls into machines

The world keeps a trace of all calls into machines.  `isOpen` and `holds` read off a trace which
machines had been made and not yet freed at its end, and which handles they had given out and not yet
taken back.  A trace is lawful if no call of it passes anything else, and if no machine is freed while
a handle of it is out.  Addresses may come back in a lawful trace, since they are only compared with
what is open at that moment.

Every step extends a lawful trace to a lawful one (`Step.trace`): what is open in the trace is what
the table of machines names, and what is held is what the machines themselves hold.  On top of that,
operations whose operands are stale end before anything is passed on at all.
-/

namespace ScriptHost.Bridge

open Machine (State)

variable {η : Type}

/-! ## Traces -/

/-- Whether a machine is made and not freed behind a trace, the last call first. -/
def isOpen : List NativeCall → Address → Bool
  | [], _ => false
  | .create b :: before, a => b == a || isOpen before a
  | .free b :: before, a => b != a && isOpen before a
  | _ :: before, a => isOpen before a

/-- Whether a machine has given out a handle and not taken it back behind a trace. -/
def holds : List NativeCall → Address → Address → Bool
  | [], _, _ => false
  | .create b :: before, a, x => b != a && holds before a x
  | .free b :: before, a, x => b != a && holds before a x
  | .makeHandle b y :: before, a, x => (b == a && y == x) || holds before a x
  | .releaseHandle b y :: before, a, x => !(b == a && y == x) && holds before a x
  | _ :: before, a, x => holds before a x

section

attribute [local simp] isOpen holds

variable {before : List NativeCall} {a b x y : Address}

theorem isOpen_create :
    isOpen (.create b :: before) a = true ↔ a = b ∨ isOpen before a = true := by
  simp only [isOpen, Bool.or_eq_true, beq_iff_eq, @eq_comm _ b]

theorem isOpen_free :
    isOpen (.free b :: before) a = true ↔ a ≠ b ∧ isOpen before a = true := by
  simp only [isOpen, Bool.and_eq_true, bne_iff_ne, @ne_comm _ b]

theorem holds_enter : holds (.enter b :: before) a x = holds before a x := rfl

theorem holds_useHandle : holds (.useHandle b y :: before) a x = holds before a x := rfl

theorem holds_create_self : holds (.create a :: before) a x = false := by
  simp [holds]

theorem holds_create_ne (h : a ≠ b) : holds (.create b :: before) a x = holds before a x := by
  simp [holds, Ne.symm h]

theorem holds_free_ne (h : a ≠ b) : holds (.free b :: before) a x = holds before a x := by
  simp [holds, Ne.symm h]

theorem holds_makeHandle_self :
    holds (.makeHandle a y :: before) a x = true ↔ x = y ∨ holds before a x = true := by
  simp only [holds, Bool.or_eq_true, Bool.and_eq_true, beq_iff_eq, true_and, @eq_comm _ y]

theorem holds_makeHandle_ne (h : a ≠ b) :
    holds (.makeHandle b y :: before) a x = holds before a x := by
  simp [holds, Ne.symm h]

theorem holds_releaseHandle_self :
    holds (.releaseHandle a y :: before) a x = true ↔ x ≠ y ∧ holds before a x = true := by
  simp only [holds, Bool.and_eq_true, Bool.not_eq_true', Bool.and_eq_false_iff, beq_eq_false_iff_ne,
    ne_eq, not_true_eq_false, false_or, @eq_comm _ y]

theorem holds_releaseHandle_ne (h : a ≠ b) :
    holds (.releaseHandle b y :: before) a x = holds before a x := by
  simp [holds, Ne.symm h]

end

/-- Whether a call may follow a trace. -/
def Allowed (before : List NativeCall) : NativeCall → Prop
  | .create a => isOpen before a = false
  | .free a => isOpen before a = true ∧ ∀ x, holds before a x = false
  | .enter a => isOpen before a = true
  | .makeHandle a x => isOpen before a = true ∧ holds before a x = false
  | .useHandle a x => isOpen before a = true ∧ holds before a x = true
  | .releaseHandle a x => isOpen before a = true ∧ holds before a x = true

/-- Whether every call of a trace was allowed when it was made. -/
def Lawful : List NativeCall → Prop
  | [] => True
  | c :: before => Allowed before c ∧ Lawful before

/-- What was lawful before a later call was lawful. -/
theorem Lawful.of_append {later before : List NativeCall} (h : Lawful (later ++ before)) :
    Lawful before := by
  induction later with
  | nil => exact h
  | cons c later ih => exact ih h.2

/-! ## The trace of a world -/

/-- The trace tells which machines are registered, and which handles they hold. -/
structure Trace (w : World (Host η)) : Prop where
  lawful : Lawful w.calls
  opened : ∀ a, isOpen w.calls a = true ↔ a ∈ w.registered.keys
  held : ∀ a ∈ w.registered.keys, ∀ x,
    holds w.calls a x = true ↔ x ∈ (w.machine a).handles.keys

namespace Trace

variable {w w' : World (Host η)} {vm : VmId} {a x : Address}

theorem start (typeNames : TypeNames) (placement : Placement) (own : η) :
    Trace (World.start typeNames placement own) := by
  refine ⟨trivial, fun a => ?_, fun a ha => ?_⟩
  · simp [World.start, World.empty, isOpen, Table.keys, Table.empty]
  · exact absurd ha (by simp [World.start, World.empty, Table.keys, Table.empty])

theorem congr (t : Trace w) (hcalls : w'.calls = w.calls)
    (hregistered : w'.registered = w.registered)
    (hmachine : ∀ a ∈ w.registered.keys, (w'.machine a).handles = (w.machine a).handles) :
    Trace w' := by
  refine ⟨hcalls ▸ t.lawful, fun a => ?_, fun a ha x => ?_⟩
  · rw [hcalls, hregistered]
    exact t.opened a
  · rw [hregistered] at ha
    rw [hcalls, hmachine a ha]
    exact t.held a ha x

/-- A machine changes, but not its handles. -/
theorem putMachine (t : Trace w) {m : State} (hm : m.handles = (w.machine a).handles) :
    Trace (w.putMachine a m) := by
  refine t.congr rfl rfl fun b _ => ?_
  rcases w.machine_putMachine a b m with ⟨hb, rfl⟩ | hb
  · rw [hb, hm]
  · rw [hb]

theorem open_of_live (t : Trace w) (s : Sound w) (hl : w.LiveAt vm a) :
    isOpen w.calls a = true :=
  (t.opened a).2 (s.roster.mem_registered hl)

/-- A machine holds the valid handles of the host. -/
theorem holds_of_valid (t : Trace w) (s : Sound w) {h : CallHandle} (hm : h ∈ w.host.handles)
    (hv : w.isValid h = true) (hl : w.LiveAt h.vm a) : holds w.calls a h.address = true :=
  (t.held a (s.roster.mem_registered hl) _).2
    ((s.books.native h.vm a hl h.address).2 ⟨h, hm, rfl, rfl, hv⟩)

/-- An address at which nothing lies is no handle of a machine. -/
theorem not_holds_of_fresh (t : Trace w) (s : Sound w) (hl : w.LiveAt vm a) (hx : x ∉ w.taken) :
    holds w.calls a x = false := by
  refine Bool.eq_false_iff.2 fun hin => hx ?_
  have hkey := (t.held a (s.roster.mem_registered hl) x).1 hin
  exact World.mem_taken_of_machine (s.roster.mem_natives hl) (Or.inl hkey)

theorem enter (t : Trace w) (s : Sound w) (hl : w.LiveAt vm a) : Trace (w.note (.enter a)) :=
  ⟨⟨t.open_of_live s hl, t.lawful⟩, t.opened, t.held⟩

theorem use (t : Trace w) (s : Sound w) {h : CallHandle} (hm : h ∈ w.host.handles)
    (hv : w.isValid h = true) (hl : w.LiveAt h.vm a) :
    Trace (w.note (.useHandle a h.address)) :=
  ⟨⟨⟨t.open_of_live s hl, t.holds_of_valid s hm hv hl⟩, t.lawful⟩, t.opened, t.held⟩

theorem withVm (t : Trace w) (s : Sound w) {service : ServiceId} (policy : LeakPolicy)
    (ha : a ∉ w.natives.keys) : Trace (w.withVm a service policy) := by
  have hclosed : isOpen w.calls a = false := by
    refine Bool.eq_false_iff.2 fun hin => ha ?_
    exact s.roster.native a ((t.opened a).1 hin)
  refine ⟨⟨hclosed, t.lawful⟩, fun b => ?_, fun b hb x => ?_⟩
  · have hkeys : b ∈ (w.withVm a service policy).registered.keys ↔
        b = a ∨ b ∈ w.registered.keys := Table.mem_keys_insert
    rw [hkeys, ← t.opened b]
    exact isOpen_create
  · rw [World.machine_withVm ha]
    by_cases hba : b = a
    · rw [hba, World.machine_of_not_mem ha]
      refine iff_of_false ?_ List.not_mem_nil
      rw [World.withVm, holds_create_self]
      simp
    · have hold : b ∈ w.registered.keys := (Table.mem_keys_insert.1 hb).resolve_left hba
      rw [← t.held b hold x, World.withVm, holds_create_ne hba]

theorem withHandle (t : Trace w) (s : Sound w) (hl : w.LiveAt vm a) (hx : x ∉ w.taken)
    (target : Machine.HandleTarget) : Trace (w.withHandle vm a x target) := by
  refine ⟨⟨⟨t.open_of_live s hl, t.not_holds_of_fresh s hl hx⟩, t.lawful⟩, t.opened,
    fun b hb y => ?_⟩
  have hmachine : (w.withHandle vm a x target).machine b =
      (w.putMachine a ((w.machine a).storeHandle x target)).machine b := rfl
  have hold := t.held b hb y
  rw [hmachine]
  by_cases hba : b = a
  · subst hba
    rw [World.machine_putMachine_self (s.roster.mem_natives hl), State.storeHandle,
      Table.mem_keys_insert, ← hold]
    exact holds_makeHandle_self
  · rw [World.machine_putMachine_ne _ hba, ← hold, World.withHandle, holds_makeHandle_ne hba]

theorem withoutHandle (t : Trace w) (s : Sound w) {h : CallHandle} (hm : h ∈ w.host.handles)
    (hv : w.isValid h = true) (hl : w.LiveAt h.vm a) : Trace (w.withoutHandle h a) := by
  refine ⟨⟨⟨t.open_of_live s hl, t.holds_of_valid s hm hv hl⟩, t.lawful⟩, t.opened,
    fun b hb y => ?_⟩
  have hmachine : (w.withoutHandle h a).machine b =
      (w.putMachine a ((w.machine a).releaseHandle h.address)).machine b := rfl
  have hold := t.held b hb y
  rw [hmachine]
  by_cases hba : b = a
  · subst hba
    rw [World.machine_putMachine_self (s.roster.mem_natives hl), State.releaseHandle,
      Table.mem_keys_erase, ← hold]
    exact holds_releaseHandle_self
  · rw [World.machine_putMachine_ne _ hba, ← hold, World.withoutHandle, holds_releaseHandle_ne hba]

/-- A machine is given up when none of its handles is out. -/
theorem retired (t : Trace w) (s : Sound w) (hl : w.LiveAt vm a)
    (hout : (w.vm vm).outstanding = []) : Trace (w.retired vm a) := by
  have hreg := s.roster.mem_registered hl
  have hsize := handles_of_outstanding s hl hout
  have hnone : ∀ x, holds w.calls a x = false := by
    intro x
    refine Bool.eq_false_iff.2 fun hin => ?_
    have hkey := (t.held a hreg x).1 hin
    rw [Table.keys, List.length_eq_zero_iff.1 hsize] at hkey
    exact absurd hkey List.not_mem_nil
  refine ⟨⟨⟨t.open_of_live s hl, hnone⟩, t.lawful⟩, fun b => ?_, fun b hb x => ?_⟩
  · have hkeys : b ∈ (w.retired vm a).registered.keys ↔ b ≠ a ∧ b ∈ w.registered.keys :=
      Table.mem_keys_erase
    rw [hkeys, ← t.opened b]
    exact isOpen_free
  · obtain ⟨hne, hold⟩ := Table.mem_keys_erase.1 hb
    have hsame : (w.retired vm a).machine b = w.machine b := rfl
    rw [hsame, ← t.held b hold x, World.retired, holds_free_ne hne]

end Trace

/-- **Every step extends a lawful trace to a lawful one.** -/
theorem Step.trace {w w' : World (Host η)} (hs : Step w w') (s : Sound w) (t : Trace w) :
    Trace w' := by
  cases hs with
  | idle | watch | misreport | serve | found | listen => exact t.congr rfl rfl fun _ _ => rfl
  | enter hl => exact t.enter s hl
  | use hm hv hl => exact t.use s hm hv hl
  | work _ hframe => exact t.putMachine hframe.handles
  | create policy ha => exact t.withVm s policy ha
  | adopt target hl hx => exact t.withHandle s hl hx target
  | release hm hv hl => exact t.withoutHandle s hm hv hl
  | bear hd => exact (t.putMachine hd.birth.handles).congr rfl rfl fun _ _ => rfl
  | retire hl hout => exact t.retired s hl hout
  | sweep | bury => exact t.putMachine rfl
  | @drain a _ hfree =>
    refine t.congr rfl rfl fun b hb => ?_
    have hne : b ≠ a := by
      rintro rfl
      exact hfree hb
    rw [World.machine_putMachine_ne _ hne]
  | @finalize a d =>
    have hput : Trace (w.putMachine a ((w.machine a).beginFinalizer d)) := t.putMachine rfl
    obtain ⟨services, hfinalized⟩ := w.finalized_eq a d
    rw [hfinalized]
    exact hput.congr rfl rfl fun _ _ => rfl
  | @discard a report? hfree =>
    refine t.congr rfl rfl fun b hb => ?_
    have hne : b ≠ a := by
      rintro rfl
      exact hfree hb
    exact congrArg State.handles (machine_discarded_ne hne report?)

/-- **Every run has a lawful trace.** -/
theorem Steps.trace {w w' : World (Host η)} (hs : Steps w w') (s : Sound w) (t : Trace w) :
    Trace w' :=
  (Steps.preserve (P := fun w => Sound w ∧ Trace w)
    (fun hstep h => ⟨hstep.sound h.1, hstep.trace h.1 h.2⟩) hs ⟨s, t⟩).2

/-! ## Stale operands -/

section

variable [Observer η] {β : Type} {engines : List Address → Engine (Host η)}
  {active : List Address} {w : World (Host η)}

namespace Operation

/-- The machines into which an operation calls. -/
def vms (op : Operation η β) : List VmId :=
  match op with
  | access x => x.vms
  | makeCallHandle vm _ | interpret vm _ _ | call vm _ | collectGarbage vm => [vm]
  | getHandle s | setHandle s _ | setForeignStruct s _ => [s.vm]
  | setNewForeignObject s cls _ | setNewForeignStruct s cls _ => [s.vm, cls.vm]
  | _ => []

end Operation

theorem refuses_newForeign {vm : VmId} {s cls : Slot} (h : vm ∈ [s.vm, cls.vm])
    (operation : String) (holding : Holding) :
    Refuses vm (Operation.recordingBlock s cls (do
      s.attach (← s.newForeign cls operation) holding) : Act (Host η) Address) := by
  rw [recordingBlock_eq]
  intro w hdead
  refine refuses_ensureSameVm (fun hcls => ?_) w hdead
  obtain rfl : vm = s.vm := by
    rcases List.mem_cons.1 h with h | h
    · exact h
    · exact (List.mem_singleton.1 h).trans hcls
  exact refuses_bind (refuses_checked s operation)

/-- **An operation whose operands are of a machine that is not alive gives an error, and leaves
everything as it is.** -/
theorem refuses_operation {vm : VmId} {op : Operation η β} (h : vm ∈ op.vms) :
    Refuses vm (op.run engines active) := by
  cases op with
  | access x => exact refuses_access x h
  | makeCallHandle =>
    obtain rfl := List.mem_singleton.1 h
    exact refuses_bind (refuses_bind (refuses_live _ _))
  | interpret | call | collectGarbage =>
    obtain rfl := List.mem_singleton.1 h
    intro w hdead
    exact refuses_bind (refuses_live _ _) w hdead
  | getHandle s =>
    obtain rfl := List.mem_singleton.1 h
    exact refuses_bind (refuses_bind (refuses_checked s _))
  | setHandle s =>
    obtain rfl := List.mem_singleton.1 h
    exact refuses_bind (refuses_checked s _)
  | setForeignStruct s =>
    obtain rfl := List.mem_singleton.1 h
    exact refuses_bind (refuses_getForeignPtr s)
  | setNewForeignObject s cls => exact refuses_newForeign h _ _
  | setNewForeignStruct s cls => exact refuses_newForeign h _ _
  | _ => exact absurd h List.not_mem_nil

omit [Observer η] in
theorem checked_of_stale {h : CallHandle} (hv : w.isValid h = false) (vm : VmId)
    (operation : String) :
    ∃ e, (h.checked vm operation : Act (Host η) Address) w = (.fault e, w) := by
  unfold CallHandle.checked
  split
  · exact ⟨.crossVmMisuse operation (w.addressOf vm) (w.addressOf h.vm), rfl⟩
  · refine ⟨.useAfterDispose "handle" h.address operation, ?_⟩
    change (if !w.isValid h then
      Run.fault (.useAfterDispose "handle" h.address operation) else pure h.address :
        Act (Host η) Address) w = _
    rw [hv]
    rfl

theorem call_of_stale {h : CallHandle} (hv : w.isValid h = false) (e : Engine (Host η))
    (vm : VmId) : ∃ fault, Vm.call e vm h w = (.fault fault, w) := by
  cases halive : (w.vm vm).isAlive with
  | false => exact ⟨_, Run.bind_of_fault (live_of_dead halive "call") _⟩
  | true =>
    obtain ⟨fault, hchecked⟩ := checked_of_stale hv vm "call"
    exact ⟨fault, (Run.bind_of_value (live_of_alive halive "call") _).trans
      (Run.bind_of_fault hchecked _)⟩

omit [Observer η] in
/-- A stale handle is refused once the slot has been checked, for which its machine is entered if it
is alive. -/
theorem setHandle_of_stale {h : CallHandle} (hv : w.isValid h = false) (s : Slot) :
    ∃ fault, (s.setHandle h : Act (Host η) Unit) w = (.fault fault, w) ∨
      (w.vm s.vm).isAlive = true ∧ (s.setHandle h : Act (Host η) Unit) w =
        (.fault fault, w.note (.enter (w.addressOf s.vm))) := by
  cases halive : (w.vm s.vm).isAlive with
  | false =>
    obtain ⟨fault, hlive⟩ := refuses_checked s "set_handle" w halive
    exact ⟨fault, Or.inl (Run.bind_of_fault hlive _)⟩
  | true =>
    let w₁ := w.note (.enter (w.addressOf s.vm))
    let count := Native.toldCount w₁ .negativeSlotCount (w₁.machine (w.addressOf s.vm)).slotCount
    have hrun : (s.checked "set_handle" : Act (Host η) Address) w =
        (if s.index < count then pure (w.addressOf s.vm)
          else Run.fault (.slotOutOfRange s.index count) : Act (Host η) Address) w₁ :=
      Run.bind_of_value (live_of_alive halive "set_handle") _
    by_cases hindex : s.index < count
    · rw [if_pos hindex] at hrun
      obtain ⟨fault, hchecked⟩ := checked_of_stale (w := w₁) hv s.vm "set_handle"
      exact ⟨fault, Or.inr ⟨rfl, (Run.bind_of_value hrun _).trans (Run.bind_of_fault hchecked _)⟩⟩
    · rw [if_neg hindex] at hrun
      exact ⟨_, Or.inr ⟨rfl, Run.bind_of_fault hrun _⟩⟩

/-- Operations with stale operands give an error, or do nothing. -/
structure Inert (engines : List Address → Engine (Host η)) (active : List Address)
    (w : World (Host η)) : Prop where
  /-- Views and slots of a machine that is not alive give errors. -/
  refused : ∀ {β : Type} (op : Operation η β), ∀ vm ∈ op.vms, (w.vm vm).isAlive = false →
    ∃ e, op.run engines active w = (.fault e, w)
  /-- A machine that is not alive is not freed again. -/
  freed : ∀ vm : Vm, vm.isRoot = true → (w.vm vm.id).isAlive = false →
    (Operation.dispose vm).run engines active w = (.value (), w) ∧
      (Operation.drop vm).run engines active w = (.value (), w)
  /-- A view frees nothing. -/
  viewed : ∀ vm : Vm, vm.isRoot = false →
    (∃ text, (Operation.dispose vm).run engines active w = (.value (), w.logged .warn text)) ∧
      (Operation.drop vm).run engines active w = (.value (), w)
  /-- A handle that is not valid is not released again, and cannot be used. -/
  released : ∀ h : CallHandle, w.isValid h = false →
    (Operation.release h).run engines active w = (.value (), w) ∧
      (∀ vm, ∃ e, (Operation.call vm h).run engines active w = (.fault e, w)) ∧
      ∀ s : Slot, ∃ e, (Operation.setHandle s h).run engines active w = (.fault e, w) ∨
        (w.vm s.vm).isAlive = true ∧ (Operation.setHandle s h).run engines active w =
          (.fault e, w.note (.enter (w.addressOf s.vm)))

theorem inert (engines : List Address → Engine (Host η)) (active : List Address)
    (w : World (Host η)) : Inert engines active w where
  refused op vm h hdead := refuses_operation h w hdead
  freed vm hroot hdead := by
    have hdispose : Vm.dispose (engines (w.addressOf vm.id :: active)) vm =
        (Vm.shutdown (engines (w.addressOf vm.id :: active)) vm.id : Act (Host η) Unit) := by
      rw [Vm.dispose, if_pos hroot]
    have hdrop : Vm.drop (engines (w.addressOf vm.id :: active)) vm =
        (Vm.shutdown (engines (w.addressOf vm.id :: active)) vm.id : Act (Host η) Unit) := by
      rw [Vm.drop, if_pos hroot]
    exact ⟨(congrFun hdispose w).trans (shutdown_of_dead hdead),
      (congrFun hdrop w).trans (shutdown_of_dead hdead)⟩
  viewed vm hview := by
    have hnot : ¬ vm.isRoot = true := by simp [hview]
    refine ⟨⟨"vm " ++ Text.Hex.address (w.addressOf vm.id) ++
      ": dispose called on a non-owning view", ?_⟩, ?_⟩
    · change Vm.dispose (engines (w.addressOf vm.id :: active)) vm w = _
      rw [Vm.dispose, if_neg hnot]
      rfl
    · change Vm.drop (engines (w.addressOf vm.id :: active)) vm w = _
      rw [Vm.drop, if_neg hnot]
      rfl
  released h hv :=
    ⟨release_of_invalid hv, fun vm => call_of_stale hv _ vm, fun s => setHandle_of_stale hv s⟩

end

/-! ## Hosts -/

/-- The trace behind any steps of a host tells what is open and what is held. -/
theorem Setting.trace_of_steps {s : Setting η} {w : World (Host η)} (h : Steps s.start w) :
    Trace w :=
  h.trace s.steady_start.sound (Trace.start _ _ _)

/-- **Machines are only ever passed themselves while they exist, and handles of their own that are
out**, by every program of every host, and by every sequence of steps in which programs of several
threads may follow each other.  Where an operand is stale, an operation gives an error or does
nothing. -/
theorem Setting.calls_lawful [Observer η] {α : Type} (s : Setting η) (p : Program η α) :
    Lawful (s.run p).2.calls ∧ (∀ w, Steps s.start w → Lawful w.calls) ∧
      ∀ active w, Inert s.engines active w :=
  ⟨(trace_of_steps (s.steps_run p)).lawful, fun _ h => (trace_of_steps h).lawful,
    fun active w => inert s.engines active w⟩

/-- An address that was released is handed out and passed on again. -/
theorem Setting.calls_lawful_exchanged :
    (exchanged .panic).calls =
        [.makeHandle 2 4, .releaseHandle 2 4, .makeHandle 2 4, .makeHandle 2 3, .create 2] ∧
      Steps silent.start (exchanged .panic) ∧ Lawful (exchanged .panic).calls ∧
        Inert silent.engines [] (exchanged .panic) := by
  have hsteps : Steps silent.start (exchanged .panic) := silent.steps_run (.exchange .panic)
  obtain ⟨-, hlawful, hinert⟩ := calls_lawful silent (.exchange .panic)
  exact ⟨calls_exchanged _, hsteps, hlawful _ hsteps, hinert [] _⟩

end ScriptHost.Bridge
