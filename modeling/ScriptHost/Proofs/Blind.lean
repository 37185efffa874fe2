import ScriptHost.Proofs.Accessors
import ScriptHost.Proofs.Joint
import ScriptHost.Proofs.Losses

/-!
# Operations that do not see what was lost

An operation on slots, lists, maps, handles and variables reads what two machines that match have in
common, and writes it.  So from two related worlds it ends alike, in related worlds: it is blind
(`Comparison.Blind`) to what one of them has lost.  A data block that is told for a slot is the same in
both worlds, and not a hidden one, which is why the payloads that are found by it are the same.
-/

namespace ScriptHost.Bridge

open Machine (State Frame ObjectId Block Value)
open Run (Joint joint_pure joint_fault joint_halt joint_bind joint_get joint_gets joint_read joint_modify
  joint_modifyGet joint_ofExcept joint_attempt)

variable {η σ φ α β γ : Type} [Observer η]

/-! ## Blind computations -/

namespace Comparison

/-- A computation that ends alike from related worlds, in related worlds, with a value of `V`. -/
def Blindly (C : Comparison η σ) (active : List Address) (V : α → Prop)
    (x : Run (World (Host η)) φ α) : Prop :=
  ∀ ⦃w w'⦄, C.Relates active w w' → Joint (C.Relates active) V x x w w'

/-- A computation that ends alike from related worlds, in related worlds. -/
abbrev Blind (C : Comparison η σ) (active : List Address) (x : Run (World (Host η)) φ α) : Prop :=
  C.Blindly active (fun _ => True) x

end Comparison

variable {C : Comparison η σ} {active : List Address} {V : α → Prop}

theorem blind_pure (v : α) : C.Blind active (pure v : Run (World (Host η)) φ α) :=
  fun _ _ r => joint_pure r trivial

theorem blind_fault (e : φ) : C.Blind active (Run.fault e : Run (World (Host η)) φ α) :=
  fun _ _ r => joint_fault r e

theorem blind_halt (h : Halt) : C.Blind active (Run.halt h : Run (World (Host η)) φ α) :=
  fun _ _ r => joint_halt r h

theorem Comparison.Blindly.bind {x : Run (World (Host η)) φ α} {f : α → Run (World (Host η)) φ β}
    {W : β → Prop} (hx : C.Blindly active V x) (hf : ∀ v, V v → C.Blindly active W (f v)) :
    C.Blindly active W (x >>= f) :=
  fun _ _ r => joint_bind (hx r) fun v _ _ ht hv => hf v hv ht

theorem blind_bind {x : Run (World (Host η)) φ α} {f : α → Run (World (Host η)) φ β} {W : β → Prop}
    (hx : C.Blind active x) (hf : ∀ v, C.Blindly active W (f v)) : C.Blindly active W (x >>= f) :=
  hx.bind fun v _ => hf v

/-- Reading what is the same in both worlds. -/
theorem blindly_gets {f : World (Host η) → α}
    (hf : ∀ {w w'}, C.Relates active w w' → f w' = f w ∧ V (f w)) :
    C.Blindly active V (Run.gets f : Run (World (Host η)) φ α) :=
  fun _ _ r => joint_read (hf r).1 r (hf r).2

theorem blind_gets {f : World (Host η) → α} (hf : ∀ {w w'}, C.Relates active w w' → f w' = f w) :
    C.Blind active (Run.gets f : Run (World (Host η)) φ α) :=
  blindly_gets fun r => ⟨hf r, trivial⟩

theorem blind_modify {f : World (Host η) → World (Host η)}
    (hf : ∀ {w w'}, C.Relates active w w' → C.Relates active (f w) (f w')) :
    C.Blind active (Run.modify f : Run (World (Host η)) φ Unit) :=
  fun _ _ r => joint_modify (hf r)

theorem blind_modifyGet {f : World (Host η) → α × World (Host η)}
    (hf : ∀ {w w'}, C.Relates active w w' → (f w').1 = (f w).1 ∧ C.Relates active (f w).2 (f w').2) :
    C.Blind active (Run.modifyGet f : Run (World (Host η)) φ α) :=
  fun _ _ r => joint_modifyGet (hf r).1 (hf r).2 trivial

theorem blind_ofExcept (result : Except φ α) :
    C.Blind active (Run.ofExcept result : Run (World (Host η)) φ α) :=
  fun _ _ r => joint_ofExcept r result

theorem blind_attempt {x : Run (World (Host η)) φ α} (hx : C.Blind active x) {ψ : Type} :
    C.Blind active (x.attempt : Run (World (Host η)) ψ (Except φ α)) :=
  fun _ _ r => (joint_attempt (hx r)).mono fun _ _ => trivial

theorem blind_widen {x : Effect (Host η) α} (hx : C.Blind active x) :
    C.Blind active (x.widen : Run (World (Host η)) φ α) :=
  fun _ _ r => Run.joint_widen (hx r)

/-! ## Entering machines -/

theorem blind_log (level : LogLevel) (text : String) :
    C.Blind active (log level text : Run (World (Host η)) φ Unit) :=
  blind_modify fun r => r.withHost (C.sight.log level text r.view) r.handles

theorem blind_fatal (e : HostError) : C.Blind active (fatal e : Run (World (Host η)) φ α) :=
  blind_bind (blind_log _ _) fun _ => blind_halt _

theorem blind_noteCall (c : NativeCall) :
    C.Blind active (noteCall c : Run (World (Host η)) φ Unit) :=
  blind_modify fun r => r.note c c

variable {a : Address}

/-- A machine is read as far as machines that match agree. -/
theorem blind_readNative {f : State → γ}
    (hf : ∀ {m m' : State}, m.Matches (C.kept a) m' → f m' = f m) :
    C.Blind active (readNative a f : Run (World (Host η)) φ γ) :=
  blind_bind (blind_noteCall _) fun _ => blind_gets fun r => r.read a hf

/-- A machine is changed so that machines that match do so again. -/
theorem blind_changeNative {f : State → State} (hframe : ∀ m, Frame m (f m))
    (hf : ∀ {m m' : State}, m.Matches (C.kept a) m' → (f m).Matches (C.kept a) (f m')) :
    C.Blind active (changeNative a f : Run (World (Host η)) φ Unit) :=
  blind_bind (blind_noteCall _) fun _ => blind_modify fun r => r.edit hframe hf

theorem blind_told (fault : NativeFault) (count : Nat) :
    C.Blind active (Run.gets fun w => Native.toldCount w fault count : Run (World (Host η)) φ Nat) :=
  blind_gets fun r => by rw [Native.toldCount, Native.toldCount, r.hasFault]

theorem blind_nativeSlotCount : C.Blind active (Native.slotCount a : Run (World (Host η)) φ Nat) :=
  blind_bind (blind_readNative fun h => congrArg List.length h.slots) fun _ => blind_told _ _

theorem blind_nativeSlotType (index : Nat) :
    C.Blind active (Native.slotType a index : Run (World (Host η)) φ SlotType) :=
  blind_bind (blind_readNative fun h => h.slotType index) fun _ =>
    blind_gets fun r => by rw [r.hasFault]

theorem blind_nativeListCount (index : Nat) :
    C.Blind active (Native.listCount a index : Run (World (Host η)) φ Nat) := by
  refine blind_bind (blind_readNative fun h => ?_) fun _ => blind_told _ _
  rw [State.listCount, State.listCount, h.slotList?]

theorem blind_nativeMapCount (index : Nat) :
    C.Blind active (Native.mapCount a index : Run (World (Host η)) φ Nat) := by
  refine blind_bind (blind_readNative fun h => ?_) fun _ => blind_told _ _
  rw [State.mapCount, State.mapCount, h.slotMap?]

/-! ## Checks -/

/-- What follows the check that a machine is alive may rely on it. -/
theorem joint_live {vm : VmId} {operation : String} {f : Address → Act (Host η) β} {W : β → Prop}
    {w w' : World (Host η)} (r : C.Relates active w w')
    (hf : ∀ a, w.LiveAt vm a → Joint (C.Relates active) W (f a) (f a) w w') :
    Joint (C.Relates active) W (live vm operation >>= f) (live vm operation >>= f) w w' := by
  unfold Joint
  cases halive : (w.vm vm).isAlive with
  | true =>
    have halive' : (w'.vm vm).isAlive = true := by rw [r.vm, halive]
    rw [Run.bind_of_value (live_of_alive halive operation),
      Run.bind_of_value (live_of_alive halive' operation), r.vm]
    exact hf _ ⟨halive, rfl⟩
  | false =>
    have halive' : (w'.vm vm).isAlive = false := by rw [r.vm, halive]
    rw [Run.bind_of_fault (live_of_dead halive operation),
      Run.bind_of_fault (live_of_dead halive' operation), r.vm]
    exact .same r fun _ ho => absurd ho (by simp)

theorem blind_live (vm : VmId) (operation : String) :
    C.Blind active (live vm operation : Act (Host η) Address) := by
  intro w w' r
  rw [← bind_pure (live vm operation)]
  exact joint_live r fun a _ => joint_pure r trivial

theorem blind_terminated (text : String) :
    C.Blind active (terminated text : Act (Host η) Unit) := by
  unfold terminated
  split
  · exact blind_fault _
  · exact blind_pure ()

theorem blind_checked (s : Slot) (operation : String) :
    C.Blind active (s.checked operation : Act (Host η) Address) := by
  refine blind_bind (blind_live _ _) fun a => blind_bind blind_nativeSlotCount fun count => ?_
  split
  · exact blind_pure a
  · exact blind_fault _

/-- The addresses of two machines are the same in both worlds. -/
theorem blind_mixed (operation : String) (vm vm' : VmId) :
    C.Blind active (do
      let w ← Run.get
      Run.fault (.crossVmMisuse operation (w.addressOf vm) (w.addressOf vm')) : Act (Host η) α) := by
  intro w w' r
  refine joint_get ?_
  rw [r.addressOf, r.addressOf]
  exact joint_fault r _

theorem blind_ensureSameVm (s : Slot) (vm : VmId) (operation : String) :
    C.Blind active (s.ensureSameVm vm operation : Act (Host η) Unit) := by
  unfold Slot.ensureSameVm
  split
  · exact blind_pure ()
  · exact blind_mixed _ _ _

theorem blind_expectType (s : Slot) (a : Address) (expected : SlotType) :
    C.Blind active (s.expectType a expected : Act (Host η) Unit) := by
  refine blind_bind (blind_nativeSlotType s.index) fun actual => ?_
  split
  · exact blind_pure ()
  · exact blind_fault _

theorem blind_holding (s : Slot) (expected : SlotType) (operation : String) :
    C.Blind active (s.holding expected operation : Act (Host η) Address) :=
  blind_bind (blind_checked _ _) fun a => blind_bind (blind_expectType _ _ _) fun _ => blind_pure a

theorem blind_checkListIndex (index : Int) (upper count : Nat) :
    C.Blind active (Slot.checkListIndex index upper count : Act (Host η) Unit) := by
  unfold Slot.checkListIndex
  split
  · exact blind_pure ()
  · exact blind_fault _

theorem blind_listPosition (s element : Slot) (index : Int) (upper : Nat → Nat)
    (operation : String) :
    C.Blind active (s.listPosition element index upper operation : Act (Host η) Address) := by
  unfold Slot.listPosition Slot.listOperands
  simp only [bind_assoc, pure_bind]
  refine blind_bind (blind_ensureSameVm _ _ _) fun _ => blind_bind (blind_checked _ _) fun a => ?_
  refine blind_bind (blind_checked _ _) fun _ => blind_bind (blind_expectType _ _ _) fun _ => ?_
  refine blind_bind (blind_nativeListCount s.index) fun count => ?_
  exact blind_bind (blind_checkListIndex _ _ _) fun _ => blind_pure a

theorem blind_mapKey (s key : Slot) (operation : String) :
    C.Blind active (s.mapKey key operation : Act (Host η) Address) := by
  refine blind_bind (blind_checked _ _) fun a => blind_bind (blind_checked _ _) fun _ => ?_
  refine blind_bind (blind_expectType _ _ _) fun _ => ?_
  refine blind_bind (blind_nativeSlotType key.index) fun actual => ?_
  split
  · exact blind_pure a
  · exact blind_fault _

theorem blind_mapOperands (s key : Slot) (other? : Option Slot) (operation : String) :
    C.Blind active (s.mapOperands key other? operation : Act (Host η) Address) := by
  cases other? with
  | none =>
    rw [mapOperands_none]
    exact blind_bind (blind_ensureSameVm _ _ _) fun _ => blind_mapKey s key operation
  | some other =>
    rw [mapOperands_some]
    refine blind_bind (blind_ensureSameVm _ _ _) fun _ => ?_
    refine blind_bind (blind_ensureSameVm _ _ _) fun _ => blind_bind (blind_checked _ _) fun _ => ?_
    exact blind_mapKey s key operation

theorem blind_passing {checks : Act (Host η) Address} (h : C.Blind active checks) :
    C.Blind active (passing checks : Act (Host η) (Except β Address)) := by
  unfold passing
  rw [map_eq_pure_bind]
  exact blind_bind h fun a => blind_pure _

theorem blind_holdingText (s : Slot) :
    C.Blind active (s.holdingText : Act (Host η) (Except (Option String) Address)) := by
  refine blind_bind (blind_checked _ _) fun a => ?_
  refine blind_bind (blind_nativeSlotType s.index) fun actual => ?_
  split
  · exact blind_pure _
  · exact blind_passing (blind_holding _ _ _)

theorem blind_holdingForeign (s : Slot) :
    C.Blind active (s.holdingForeign : Act (Host η) (Except Bool Address)) := by
  refine blind_bind (blind_checked _ _) fun a => ?_
  refine blind_bind (blind_nativeSlotType s.index) fun actual => ?_
  split
  · exact blind_pure _
  · exact blind_passing (blind_holding _ _ _)

theorem blind_checkedHandle (h : CallHandle) (vm : VmId) (operation : String) :
    C.Blind active (h.checked vm operation : Act (Host η) Address) := by
  unfold CallHandle.checked
  split
  · exact blind_mixed _ _ _
  · refine blind_bind (blind_gets fun r => r.isLiveHandle _ _) fun valid => ?_
    split
    · exact blind_fault _
    · exact blind_pure _

/-! ## Variables -/

theorem blind_hasModule (vm : VmId) (module : String) :
    C.Blind active (Vm.hasModule vm module : Act (Host η) Bool) := by
  refine blind_bind (blind_live _ _) fun a => blind_bind (blind_terminated _) fun _ => ?_
  exact blind_readNative fun h => h.hasModule module

theorem blind_hasVariable (vm : VmId) (module name : String) :
    C.Blind active (Vm.hasVariable vm module name : Act (Host η) Bool) := by
  refine blind_bind (blind_live _ _) fun a => blind_bind (blind_hasModule _ _) fun loaded => ?_
  split
  · exact blind_fault _
  · refine blind_bind (blind_terminated _) fun _ => blind_readNative fun h => ?_
    rw [State.hasVariable, State.hasVariable, h.global?]

theorem blind_getVariable (vm : VmId) (module name : String) (s : Slot) :
    C.Blind active (Vm.getVariable vm module name s : Act (Host η) Unit) := by
  refine blind_bind (blind_ensureSameVm _ _ _) fun _ => blind_bind (blind_checked _ _) fun a => ?_
  refine blind_bind (blind_hasVariable _ _ _) fun found => ?_
  split
  · exact blind_fault _
  · exact blind_changeNative (fun m => m.frame_getVariable module name _)
      fun h => h.getVariable module name _

theorem blind_abortFiber (vm : VmId) (s : Slot) :
    C.Blind active (Vm.abortFiber vm s : Act (Host η) Unit) := by
  refine blind_bind (blind_ensureSameVm _ _ _) fun _ => blind_bind (blind_checked _ _) fun a => ?_
  exact blind_changeNative (fun m => m.frame_requestAbort _) fun h => h.requestAbort _

theorem blind_ensureSlots (vm : VmId) (count : Nat) :
    C.Blind active (Vm.ensureSlots vm count : Act (Host η) Unit) := by
  refine blind_bind (blind_live _ _) fun a => ?_
  exact blind_changeNative (fun m => m.frame_ensureSlots _) fun h => h.ensureSlots _

/-! ## Slots -/

/-- What is known of the result of an entry point: a data block is not a hidden one. -/
def EntryPoint.Shows (C : Comparison η σ) : EntryPoint γ → γ → Prop
  | .slotForeign _, x => ¬ C.hidden x
  | _, _ => True

/-- An entry point that is not told an object. -/
def EntryPoint.Plain : EntryPoint γ → Prop
  | .setSlot _ v => v.object? = none
  | _ => True

/-- No data block lies at the null address. -/
theorem Comparison.Relates.not_hidden_zero {w w' : World (Host η)} (r : C.Relates active w w') :
    ¬ C.hidden 0 := by
  intro h
  obtain ⟨k, -, hk⟩ := r.hidden 0 h
  have hplace := r.placement.place k [] fun x hx => absurd hx List.not_mem_nil
  have hpos := w.placement.place_pos k []
  rw [hplace, hk] at hpos
  exact absurd hpos (Nat.lt_irrefl 0)

/-- A data block that a slot shows is not a hidden one. -/
theorem Comparison.Machines.not_hidden {serial : Nat} {m m' : State}
    (h : C.Machines serial a m m') {index : Int} {block : Block}
    (hb : m.slotBlock? index = some block) : ¬ C.hidden block.address := by
  obtain ⟨id, hobject, hblock⟩ := Option.bind_eq_some_iff.1 hb
  have hforeign : ∃ owner, m.heap.foreign? id = some (owner, block) := by
    cases hget : m.heap.get? id with
    | none => simp [Machine.Heap.block?, hget] at hblock
    | some object =>
      cases object with
      | foreign owner b =>
        rw [Machine.Heap.block?, hget] at hblock
        cases hblock
        exact ⟨owner, by rw [Machine.Heap.foreign?, hget]⟩
      | _ => simp [Machine.Heap.block?, hget] at hblock
  obtain ⟨owner, hforeign⟩ := hforeign
  exact fun hidden => (h.lies.block id owner block hforeign).2.1 hidden
    (h.alike.bounded.slot index id hobject)

theorem blindly_slotForeign (index : Nat) :
    C.Blindly active (fun x => ¬ C.hidden x)
      (Native.slotForeign a index : Run (World (Host η)) φ Address) := by
  have hread : C.Blindly active (fun block? : Option Block => ∀ b ∈ block?, ¬ C.hidden b.address)
      (readNative a fun m => m.slotBlock? index : Run (World (Host η)) φ (Option Block)) := by
    refine blind_bind (blind_noteCall _) fun _ => blindly_gets fun {w w'} r =>
      ⟨r.read a fun h => h.slotBlock? index, fun b hb => ?_⟩
    by_cases ha : a ∈ w.natives.keys
    · exact (r.machines a ha).not_hidden hb
    · rw [World.machine_of_not_mem ha] at hb
      exact absurd hb (by simp [State.slotBlock?, State.slot_create, Value.object?])
  refine hread.bind fun block? hblock => blindly_gets fun r => ⟨by rw [r.hasFault], ?_⟩
  split
  · exact r.not_hidden_zero
  · cases block? with
    | none => exact r.not_hidden_zero
    | some b => exact hblock b rfl

/-! ## Handles -/

/-- A machine puts a handle where the next address is. -/
theorem Comparison.Machines.storeHandle {serial : Nat} {m m' : State}
    (h : C.Machines serial a m m') {target : Machine.HandleTarget}
    (ht : ∀ v, target = .value v → v.Into (C.kept a)) :
    C.Machines (serial + 1) a (m.storeHandle (C.sequence serial) target)
      (m'.storeHandle (C.sequence serial) target) := by
  have hlies : ∀ {m : State}, C.Lies serial a m →
      C.Lies (serial + 1) a (m.storeHandle (C.sequence serial) target) := by
    refine fun l => ⟨fun x hx => ?_, (l.mono (Nat.le_succ _)).block⟩
    rcases Table.mem_keys_insert.1 hx with rfl | hx
    · exact Comparison.used_succ serial
    · exact (l.handle x hx).mono (Nat.le_succ _)
  exact ⟨h.alike.storeHandle _ ht, hlies h.lies, hlies h.lies'⟩

/-- Both machines give out a handle at the same address, or refuse it. -/
theorem blind_newHandle (target : State → Machine.HandleTarget)
    (ht : ∀ {m m' : State}, m.Matches (C.kept a) m' →
      target m' = target m ∧ ∀ v, target m = .value v → v.Into (C.kept a)) :
    C.Blind active (Native.newHandle a fun m x => m.storeHandle x (target m) :
      Run (World (Host η)) φ (Option Address)) := by
  intro w w' r
  have hsame := hasFault_of_roster r.roster (f := .sameHandle) rfl
  have hsame' := hasFault_of_roster r.roster' (f := .sameHandle) rfl
  unfold Joint
  rw [newHandle_eq hsame, newHandle_eq hsame', r.hasFault, r.place_eq.1, r.place_eq.2]
  split
  · exact .same r fun _ _ => trivial
  · let x := C.sequence w.serial
    have hidle := r.idle (Nat.le_succ w.serial) (.makeHandle a x :: w.calls)
      (.makeHandle a x :: w'.calls) w.lastVm? (some x) w.lastBlock? w.freeReport?
    have hstored : a ∈ w.natives.keys → C.Machines (w.serial + 1) a
        ((w.machine a).storeHandle x (target (w.machine a)))
        ((w'.machine a).storeHandle x (target (w'.machine a))) := by
      intro ha
      have hmachines := r.machines a ha
      obtain ⟨htarget, hinto⟩ := ht hmachines.alike
      rw [htarget]
      exact hmachines.storeHandle hinto
    have hput := hidle.putMachine hstored
    refine .same ?_ fun _ _ => trivial
    have hw' : ({ w' with
        serial := w'.serial + 1
        calls := .makeHandle a x :: w'.calls
        natives := (w'.putMachine a ((w'.machine a).storeHandle x (target (w'.machine a)))).natives
        lastHandle? := some x } : World (Host η)) =
        { w' with
          serial := w.serial + 1
          calls := .makeHandle a x :: w'.calls
          natives := (w'.putMachine a ((w'.machine a).storeHandle x (target (w'.machine a)))).natives
          lastVm? := w.lastVm?
          lastHandle? := some x
          lastBlock? := w.lastBlock?
          freeReport? := w.freeReport? } := by
      obtain ⟨_, _, _, _, rfl⟩ := r.same
      rfl
    rw [hw']
    exact hput

theorem blind_registerHandle (handle vm : Address) :
    C.Blind active (registerHandle handle vm : Act (Host η) Nat) := by
  refine blind_bind (blind_modifyGet fun {w w'} r => ?_) fun id => ?_
  · have htable := r.withTable w.handles (w.nextHandleId + 1)
    refine ⟨r.nextHandleId, ?_⟩
    change C.Relates active { w with nextHandleId := w.nextHandleId + 1 }
      { w' with nextHandleId := w'.nextHandleId + 1 }
    rw [r.nextHandleId]
    obtain ⟨_, _, _, _, rfl⟩ := r.same
    exact htable
  refine blind_bind (blind_modifyGet fun {w w'} r => ?_) fun added => ?_
  · have htable := r.withTable (w.handles.tryAdd handle ⟨id, vm⟩).2 w.nextHandleId
    refine ⟨congrArg (fun t => (t.tryAdd handle ⟨id, vm⟩).1) r.table, ?_⟩
    change C.Relates active { w with handles := (w.handles.tryAdd handle ⟨id, vm⟩).2 }
      { w' with handles := (w'.handles.tryAdd handle ⟨id, vm⟩).2 }
    rw [r.table]
    obtain ⟨_, _, _, _, rfl⟩ := r.same
    exact htable
  split
  · exact blind_pure id
  · exact blind_fault _

/-- A handle that was made is taken over. -/
theorem blind_adopt (vm : VmId) (made? : Option Address) (operation : String) :
    C.Blind active (CallHandle.adopt vm made? operation : Act (Host η) CallHandle) := by
  unfold CallHandle.adopt
  cases made? with
  | none => exact blind_fault _
  | some handle =>
    refine blind_bind (blind_gets fun r => r.addressOf vm) fun address => ?_
    refine blind_bind (blind_registerHandle _ _) fun id => ?_
    refine blind_bind (blind_modify fun r => r.modifyVm vm (fun _ => rfl) (fun _ => rfl)
      fun _ => rfl) fun _ => ?_
    exact blind_bind (blind_log _ _) fun _ => blind_pure _

theorem blind_recordingHandle {make : Act (Host η) CallHandle} (hmake : C.Blind active make) :
    C.Blind active (Operation.recordingHandle make) := by
  refine blind_bind hmake fun h => blind_bind (blind_modify fun r => ?_) fun _ => blind_pure h
  exact r.withHost r.view (congrArg (· ++ [h]) r.handles)

theorem blind_makeCallHandle (vm : VmId) (signature : String) :
    C.Blind active (Vm.makeCallHandle vm signature : Act (Host η) CallHandle) := by
  refine blind_bind (blind_live _ _) fun a => blind_bind (blind_terminated _) fun _ => ?_
  refine blind_bind ?_ fun made? => blind_adopt vm made? "make_call_handle"
  exact blind_newHandle (fun _ => .method signature (State.placeCount signature)) fun _ =>
    ⟨rfl, fun v hv => absurd hv (by simp)⟩

theorem blind_slotHandle (index : Nat) :
    C.Blind active (Native.slotHandle a index : Run (World (Host η)) φ (Option Address)) :=
  blind_newHandle (fun m => .value (m.slot index)) fun h =>
    ⟨by rw [h.slot], fun v hv => Machine.HandleTarget.value.inj hv ▸ h.bounded.slot index⟩

theorem blind_setHandle (s : Slot) (h : CallHandle) :
    C.Blind active (s.setHandle h : Act (Host η) Unit) := by
  refine blind_bind (blind_checked _ _) fun a => blind_bind (blind_checkedHandle _ _ _) fun x => ?_
  refine blind_bind (blind_noteCall _) fun _ => blind_modify fun r => ?_
  exact r.edit (f := fun m => m.setSlotHandle s.index x) (fun m => m.frame_setSlotHandle _ _)
    fun hm => hm.setSlotHandle _ x

theorem blind_forgetHandle (x : Address) (id : Nat) :
    C.Blind active (forgetHandle x id : Run (World (Host η)) φ Bool) := by
  refine blind_modifyGet fun {w w'} r => ?_
  have htable := r.withTable (w.handles.removeIf x fun record => record.id == id).2 w.nextHandleId
  refine ⟨congrArg (fun t => (t.removeIf x fun record => record.id == id).1.isSome) r.table, ?_⟩
  change C.Relates active
    { w with handles := (w.handles.removeIf x fun record => record.id == id).2 }
    { w' with handles := (w'.handles.removeIf x fun record => record.id == id).2 }
  rw [r.table]
  obtain ⟨_, _, _, _, rfl⟩ := r.same
  exact htable

theorem blind_nativeRelease (vm handle : Address) :
    C.Blind active (Native.releaseHandle vm handle : Run (World (Host η)) φ Unit) := by
  refine blind_bind (blind_modify fun r => ?_) fun _ => blind_bind (blind_noteCall _) fun _ => ?_
  · exact r.withHost (C.sight.released vm handle r.view) r.handles
  · refine blind_modify fun r => r.putMachine fun ha => ?_
    have h := r.machines vm ha
    have hlies : ∀ {m : State} {serial : Nat}, C.Lies serial vm m →
        C.Lies serial vm (m.releaseHandle handle) :=
      fun l => ⟨fun x hx => l.handle x (Table.mem_keys_erase.1 hx).2, l.block⟩
    exact ⟨h.alike.releaseHandle handle, hlies h.lies, hlies h.lies'⟩

theorem blind_release (h : CallHandle) :
    C.Blind active (h.release : Run (World (Host η)) φ Unit) := by
  refine blind_bind (blind_forgetHandle _ _) fun found => ?_
  split
  · refine blind_bind (blind_modify fun r => r.modifyVm h.vm (fun _ => rfl) (fun _ => rfl)
      fun _ => rfl) fun _ => ?_
    refine blind_bind (blind_gets fun r => r.vm h.vm) fun record => ?_
    split
    · exact blind_bind (blind_nativeRelease _ _) fun _ => blind_log _ _
    · exact blind_log _ _
  · exact blind_pure ()

end ScriptHost.Bridge
