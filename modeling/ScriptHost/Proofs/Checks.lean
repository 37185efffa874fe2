import ScriptHost.Proofs.Failures

/-!
# Checks

Before an operation does anything, it checks its operands.  Checking enters machines, to count slots
and to see what they hold, but it changes nothing (`Looks`), whether it is content or not.  The checks
of slots are content only with what they say: the machine is alive, the slot exists, and it holds a
value of the type (`slot_of_checked`, `type_of_expectType`).
-/

namespace ScriptHost.Bridge

open Machine (State)

variable {η α β : Type}

/-! ## Looking -/

/-- A world that differs at most in the calls into machines, and in the data block that the service was
given last. -/
def World.Intact (w w' : World η) : Prop :=
  ∃ calls lastBlock?, w' = { w with calls, lastBlock? }

namespace World

variable {w t u : World η}

theorem Intact.refl (w : World η) : w.Intact w := ⟨w.calls, w.lastBlock?, rfl⟩

theorem Intact.trans (h : w.Intact t) (h' : t.Intact u) : w.Intact u := by
  obtain ⟨_, _, rfl⟩ := h
  obtain ⟨calls, lastBlock?, rfl⟩ := h'
  exact ⟨calls, lastBlock?, rfl⟩

theorem Intact.note (w : World η) (c : NativeCall) : w.Intact (w.note c) :=
  ⟨c :: w.calls, w.lastBlock?, rfl⟩

theorem Intact.machine_eq (h : w.Intact t) (a : Address) : t.machine a = w.machine a := by
  obtain ⟨_, _, rfl⟩ := h
  rfl

theorem Intact.natives_eq (h : w.Intact t) : t.natives = w.natives := by
  obtain ⟨_, _, rfl⟩ := h
  rfl

theorem Intact.hasFault_eq (h : w.Intact t) (f : NativeFault) : t.hasFault f = w.hasFault f := by
  obtain ⟨_, _, rfl⟩ := h
  rfl

theorem Intact.vm_eq (h : w.Intact t) (vm : VmId) : t.vm vm = w.vm vm := by
  obtain ⟨_, _, rfl⟩ := h
  rfl

end World

/-- A computation that changes nothing, and ends with a value or an error. -/
def Looks (x : Act η α) : Prop :=
  ∀ w : World η, w.Intact (x w).2 ∧ ∀ h, (x w).1 ≠ .halt h

theorem looks_pure (v : α) : Looks (pure v : Act η α) := fun w => ⟨.refl w, by rintro _ ⟨⟩⟩

theorem looks_fault (e : HostError) : Looks (Run.fault e : Act η α) :=
  fun w => ⟨.refl w, by rintro _ ⟨⟩⟩

theorem looks_gets (f : World η → α) : Looks (Run.gets f : Act η α) :=
  fun w => ⟨.refl w, by rintro _ ⟨⟩⟩

theorem looks_ofExcept (r : Except HostError α) : Looks (Run.ofExcept r : Act η α) := by
  cases r with
  | ok v => exact looks_pure v
  | error e => exact looks_fault e

theorem Looks.intact {x : Act η α} (hx : Looks x) {w t : World η} {outcome : Outcome HostError α}
    (h : x w = (outcome, t)) : w.Intact t := by
  have hlook := (hx w).1
  rwa [h] at hlook

theorem looks_bind {x : Act η α} {f : α → Act η β} (hx : Looks x) (hf : ∀ v, Looks (f v)) :
    Looks (x >>= f) := by
  intro w
  rcases hxw : x w with ⟨v | e | h, t⟩
  · rw [Run.bind_of_value hxw]
    exact ⟨(hx.intact hxw).trans (hf v t).1, (hf v t).2⟩
  · rw [Run.bind_of_fault hxw]
    exact ⟨hx.intact hxw, by rintro _ ⟨⟩⟩
  · exact absurd (congrArg Prod.fst hxw) ((hx w).2 h)

theorem looks_map {x : Act η α} (hx : Looks x) (f : α → β) : Looks (f <$> x) := by
  rw [map_eq_pure_bind]
  exact looks_bind hx fun v => looks_pure (f v)

theorem looks_readNative (a : Address) (f : State → α) : Looks (readNative a f : Act η α) :=
  looks_bind (fun w => ⟨.note w (.enter a), by rintro _ ⟨⟩⟩) fun _ => looks_gets _

/-! ### The checks of operands -/

theorem looks_live (vm : VmId) (operation : String) : Looks (live vm operation : Act η Address) := by
  refine looks_bind (looks_gets _) fun record => ?_
  split
  · exact looks_pure _
  · exact looks_fault _

theorem looks_terminated (text : String) : Looks (terminated text : Act η Unit) := by
  unfold terminated
  split
  · exact looks_fault _
  · exact looks_pure ()

theorem looks_slotType (a : Address) (index : Nat) :
    Looks (Native.slotType a index : Act η SlotType) :=
  looks_bind (looks_readNative a _) fun _ => looks_gets _

theorem looks_listCount (a : Address) (index : Nat) :
    Looks (Native.listCount a index : Act η Nat) :=
  looks_bind (looks_readNative a _) fun _ => looks_gets _

theorem looks_checked (s : Slot) (operation : String) :
    Looks (s.checked operation : Act η Address) := by
  refine looks_bind (looks_live s.vm operation) fun a => ?_
  refine looks_bind (looks_bind (looks_readNative a _) fun _ => looks_gets _) fun count => ?_
  split
  · exact looks_pure a
  · exact looks_fault _

theorem looks_ensureSameVm (s : Slot) (vm : VmId) (operation : String) :
    Looks (s.ensureSameVm vm operation : Act η Unit) := by
  unfold Slot.ensureSameVm
  split
  · exact looks_pure ()
  · exact looks_bind (looks_gets id) fun w => looks_fault _

theorem looks_expectType (s : Slot) (a : Address) (expected : SlotType) :
    Looks (s.expectType a expected : Act η Unit) := by
  refine looks_bind (looks_slotType a s.index) fun actual => ?_
  split
  · exact looks_pure ()
  · exact looks_fault _

theorem looks_handle (h : CallHandle) (vm : VmId) (operation : String) :
    Looks (h.checked vm operation : Act η Address) := by
  unfold CallHandle.checked
  split
  · exact looks_bind (looks_gets id) fun w => looks_fault _
  · refine looks_bind (looks_gets _) fun valid => ?_
    split
    · exact looks_fault _
    · exact looks_pure _

theorem looks_listOperands (s element : Slot) (operation : String) :
    Looks (s.listOperands element operation : Act η (Address × Nat)) := by
  refine looks_bind (looks_ensureSameVm _ _ _) fun _ => looks_bind (looks_checked _ _) fun a => ?_
  refine looks_bind (looks_checked _ _) fun _ => looks_bind (looks_expectType _ _ _) fun _ => ?_
  exact looks_bind (looks_listCount a s.index) fun count => looks_pure (a, count)

theorem looks_checkListIndex (index : Int) (upper count : Nat) :
    Looks (Slot.checkListIndex index upper count : Act η Unit) := by
  unfold Slot.checkListIndex
  split
  · exact looks_pure ()
  · exact looks_fault _

/-- The checks of a map operation, once all slots are known to be of one machine. -/
def Slot.mapKey (s key : Slot) (operation : String) : Act η Address := do
  let a ← s.checked operation
  let _ ← key.checked operation
  s.expectType a .map
  let actual ← Native.slotType a key.index
  if Slot.isHashable actual then return a else Run.fault (.unhashableKey key.index actual)

theorem looks_mapKey (s key : Slot) (operation : String) :
    Looks (s.mapKey key operation : Act η Address) := by
  refine looks_bind (looks_checked _ _) fun a => looks_bind (looks_checked _ _) fun _ => ?_
  refine looks_bind (looks_expectType _ _ _) fun _ => looks_bind (looks_slotType _ _) fun actual => ?_
  split
  · exact looks_pure a
  · exact looks_fault _

theorem mapOperands_none (s key : Slot) (operation : String) :
    (s.mapOperands key none operation : Act η Address) = (do
      key.ensureSameVm s.vm operation
      s.mapKey key operation) := rfl

theorem mapOperands_some (s key other : Slot) (operation : String) :
    (s.mapOperands key (some other) operation : Act η Address) = (do
      key.ensureSameVm s.vm operation
      other.ensureSameVm s.vm operation
      let _ ← other.checked operation
      s.mapKey key operation) := rfl

theorem looks_mapOperands (s key : Slot) (other? : Option Slot) (operation : String) :
    Looks (s.mapOperands key other? operation : Act η Address) := by
  cases other? with
  | none =>
    rw [mapOperands_none]
    exact looks_bind (looks_ensureSameVm _ _ _) fun _ => looks_mapKey s key operation
  | some other =>
    rw [mapOperands_some]
    refine looks_bind (looks_ensureSameVm _ _ _) fun _ => ?_
    refine looks_bind (looks_ensureSameVm _ _ _) fun _ => looks_bind (looks_checked _ _) fun _ => ?_
    exact looks_mapKey s key operation

theorem looks_hasModule (vm : VmId) (module : String) :
    Looks (Vm.hasModule vm module : Act η Bool) :=
  looks_bind (looks_live _ _) fun a => looks_bind (looks_terminated _) fun _ => looks_readNative a _

theorem looks_hasVariable (vm : VmId) (module name : String) :
    Looks (Vm.hasVariable vm module name : Act η Bool) := by
  refine looks_bind (looks_live _ _) fun a => looks_bind (looks_hasModule _ _) fun loaded => ?_
  split
  · exact looks_fault _
  · exact looks_bind (looks_terminated _) fun _ => looks_readNative a _

theorem looks_getForeignPtr (s : Slot) : Looks (s.getForeignPtr : Act η Address) := by
  refine looks_bind (looks_checked _ _) fun a => looks_bind (looks_expectType _ _ _) fun _ => ?_
  exact looks_bind (looks_readNative a _) fun _ => looks_gets _

/-! ## What checks have seen -/

section

variable {w t : World η} {a : Address}

/-- A slot that has been checked is one of a machine that is alive, and exists.  A count that is
misreported is told too low. -/
theorem slot_of_checked {s : Slot} {operation : String}
    (h : s.checked operation w = (.value a, t)) :
    w.LiveAt s.vm a ∧ s.index < (w.machine a).slots.length ∧ w.Intact t := by
  obtain ⟨hl, -⟩ := live_of_checked h
  refine ⟨hl, Decidable.byContradiction fun hindex => ?_, (looks_checked s operation).intact h⟩
  let told := Native.toldCount w .negativeSlotCount (w.machine a).slots.length
  have htold : told ≤ (w.machine a).slots.length := by
    simp only [told, Native.toldCount]
    split <;> omega
  have hrefused : s.checked operation w =
      (.fault (.slotOutOfRange s.index told), w.note (.enter a)) := by
    have hlive : live s.vm operation w = (.value a, w) := by
      rw [live_of_alive hl.1, hl.2]
    have hslots : (Native.slotCount a : Act η Nat) w = (.value told, w.note (.enter a)) := rfl
    unfold Slot.checked
    rw [Run.bind_of_value hlive, Run.bind_of_value hslots,
      if_neg fun hlt => hindex (Nat.lt_of_lt_of_le hlt htold)]
    rfl
  exact absurd (congrArg Prod.fst (hrefused.symm.trans h)) (by simp)

/-- No slot exists as far as one is told, if the count is misreported. -/
theorem hasFault_of_checked {s : Slot} {operation : String}
    (h : s.checked operation w = (.value a, t)) : w.hasFault .negativeSlotCount = false := by
  obtain ⟨hl, -⟩ := live_of_checked h
  cases hcount : w.hasFault .negativeSlotCount with
  | false => rfl
  | true =>
    have hlive : live s.vm operation w = (.value a, w) := by
      rw [live_of_alive hl.1, hl.2]
    have hslots : (Native.slotCount a : Act η Nat) w = (.value 0, w.note (.enter a)) := by
      have htold : Native.toldCount w .negativeSlotCount (w.machine a).slots.length = 0 := by
        rw [Native.toldCount, hcount, if_pos rfl]
      exact Prod.ext (congrArg Outcome.value htold) rfl
    have hrefused : s.checked operation w = (.fault (.slotOutOfRange s.index 0), w.note (.enter a)) := by
      unfold Slot.checked
      rw [Run.bind_of_value hlive, Run.bind_of_value hslots, if_neg (Nat.not_lt_zero _)]
      rfl
    cases hrefused.symm.trans h

theorem slotType_eq (hunknown : w.hasFault .unknownType = false) (a : Address) (index : Nat) :
    (Native.slotType a index : Act η SlotType) w =
      (.value ((w.machine a).slotType index), w.note (.enter a)) := by
  have hcode : SlotType.ofCode (if w.hasFault .unknownType then Native.unknownCode
      else ((w.machine a).slotType index).code) = (w.machine a).slotType index := by
    rw [hunknown, if_neg Bool.false_ne_true]
    exact SlotType.ofCode_code _
  exact Prod.ext (congrArg Outcome.value hcode) rfl

/-- A slot that holds what is expected of it. -/
theorem type_of_expectType {s : Slot} {expected : SlotType}
    (hunknown : w.hasFault .unknownType = false)
    (h : s.expectType a expected w = (.value (), t)) :
    (w.machine a).slotType s.index = expected ∧ w.Intact t := by
  refine ⟨?_, (looks_expectType s a expected).intact h⟩
  obtain ⟨actual, u, htype, hcheck⟩ := Run.value_of_bind h
  cases (slotType_eq hunknown a s.index).symm.trans htype
  split at hcheck
  · assumption
  · exact absurd (congrArg Prod.fst hcheck) (by simp [Run.fault])

end

end ScriptHost.Bridge
