import ScriptHost.Proofs.Deeds

/-!
# Reading and writing one machine

Every operation on the slots and variables of a machine first finds the machine alive and then enters
it, any number of times, to read it or to write its slots, lists and maps.  So all of them are deeds
on this machine (`deed_access`).  On a machine that is not alive they give an error and do nothing at
all, whatever the world is (`refuses_access`).
-/

namespace ScriptHost.Bridge

open Machine (Edit State)
open Run (Within within_bind within_seq)

variable {η φ α β : Type}

/-! ## Checks -/

theorem live_of_alive {w : World η} {vm : VmId} (h : (w.vm vm).isAlive = true)
    (operation : String) : live vm operation w = (.value (w.vm vm).address, w) := by
  change (if (w.vm vm).isAlive then (pure (w.vm vm).address : Act η Address)
    else Run.fault (.useAfterDispose "vm" (w.vm vm).address operation)) w = _
  rw [if_pos h]
  rfl

theorem live_of_dead {w : World η} {vm : VmId} (h : (w.vm vm).isAlive = false)
    (operation : String) :
    live vm operation w = (.fault (.useAfterDispose "vm" (w.vm vm).address operation), w) := by
  change (if (w.vm vm).isAlive then (pure (w.vm vm).address : Act η Address)
    else Run.fault (.useAfterDispose "vm" (w.vm vm).address operation)) w = _
  rw [if_neg (by simp [h])]
  rfl

/-- What follows the check that a machine is alive may rely on it. -/
theorem within_live {R S : World η → World η → Prop} (hsp : Span R S) {vm : VmId}
    {operation : String} {f : Address → Act η β} {w : World η}
    (hf : ∀ a, w.LiveAt vm a → Within R S (f a) w) :
    Within R S (live vm operation >>= f) w := by
  cases h : (w.vm vm).isAlive with
  | true =>
    rw [Within, Run.bind_of_value (live_of_alive h operation)]
    exact hf _ ⟨h, rfl⟩
  | false =>
    rw [Within, Run.bind_of_fault (live_of_dead h operation)]
    exact Run.within_fault hsp _ w

/-- What follows the check of a slot may rely on the machine being alive. -/
theorem within_checked {R S : World η → World η → Prop} (hsp : Span R S) {s : Slot}
    {operation : String} {f : Address → Act η β} {w : World η}
    (henter : ∀ a, w.LiveAt s.vm a → R w (w.note (.enter a)))
    (hf : ∀ a, w.LiveAt s.vm a → Within R S (f a) (w.note (.enter a))) :
    Within R S (s.checked operation >>= f) w := by
  unfold Slot.checked
  simp only [bind_assoc]
  refine within_live hsp fun a hl => ?_
  refine within_bind hsp (Within.of_rel hsp (henter a hl)) fun count t ht => ?_
  obtain rfl : w.note (.enter a) = t := congrArg Prod.snd ht
  split
  · rw [pure_bind]
    exact hf a hl
  · exact Run.within_fault hsp (HostError.slotOutOfRange s.index count) _

/-- What follows the check that two operands are of one machine may rely on it. -/
theorem within_ensureSameVm {R S : World η → World η → Prop} (hsp : Span R S) {s : Slot}
    {vm : VmId} {operation : String} {f : Unit → Act η β} {w : World η}
    (hf : s.vm = vm → Within R S (f ()) w) :
    Within R S (s.ensureSameVm vm operation >>= f) w := by
  unfold Slot.ensureSameVm
  split
  · rename_i h
    rw [pure_bind]
    exact hf h
  · exact Run.within_fault hsp
      (HostError.crossVmMisuse operation (w.addressOf vm) (w.addressOf s.vm)) w

/-! ## Building deeds -/

section

variable [Observer η] {P : VmId → Prop} {S : Powers}

theorem deed_pure (b : β) : IsDeed P S (pure b : Run (World (Host η)) φ β) :=
  Run.within_pure span_deeds b

theorem deed_fault (e : φ) : IsDeed P S (Run.fault e : Run (World (Host η)) φ β) :=
  Run.within_fault span_deeds e

theorem deed_gets (f : World (Host η) → β) : IsDeed P S (Run.gets f : Run (World (Host η)) φ β) :=
  Run.within_gets span_deeds f

theorem deed_ofExcept (r : Except φ β) :
    IsDeed P S (Run.ofExcept r : Run (World (Host η)) φ β) :=
  Run.within_ofExcept span_deeds r

theorem deed_bind {x : Run (World (Host η)) φ α} {f : α → Run (World (Host η)) φ β}
    (hx : IsDeed P S x) (hf : ∀ v, IsDeed P S (f v)) : IsDeed P S (x >>= f) :=
  fun w => within_seq span_deeds (hx w) hf

section

variable {vm : VmId} {a : Address}

theorem deedAt_bind {x : Run (World (Host η)) φ α} {f : α → Run (World (Host η)) φ β}
    (hx : IsDeedAt P S vm a x) (hf : ∀ v, IsDeedAt P S vm a (f v)) : IsDeedAt P S vm a (x >>= f) :=
  fun w => within_seq (span_deedsAt vm a) (hx w) hf

theorem deedAt_pure (b : β) : IsDeedAt P S vm a (pure b : Run (World (Host η)) φ β) :=
  deedAt_of_deed vm a (deed_pure b)

theorem deedAt_fault (e : φ) : IsDeedAt P S vm a (Run.fault e : Run (World (Host η)) φ β) :=
  deedAt_of_deed vm a (deed_fault e)

theorem deedAt_gets (f : World (Host η) → β) :
    IsDeedAt P S vm a (Run.gets f : Run (World (Host η)) φ β) :=
  deedAt_of_deed vm a (deed_gets f)

/-! ## Entry points -/

theorem deedAt_enter : IsDeedAt P S vm a (noteCall (.enter a) : Run (World (Host η)) φ Unit) := by
  intro w
  exact Run.within_modify (span_deedsAt vm a) fun hP hl => (Deed.enter hP hl).deeds

theorem deedAt_readNative (f : State → β) :
    IsDeedAt P S vm a (readNative a f : Run (World (Host η)) φ β) :=
  deedAt_bind deedAt_enter fun _ => deedAt_gets _

theorem deedAt_changeNative {f : State → State} (hf : ∀ m, Edit (S.rights vm) m (f m)) :
    IsDeedAt P S vm a (changeNative a f : Run (World (Host η)) φ Unit) := by
  refine deedAt_bind deedAt_enter fun _ w => ?_
  exact Run.within_modify (span_deedsAt vm a) fun hP hl => (Deed.edit hP hl (hf _)).deeds

theorem deedAt_slotCount : IsDeedAt P S vm a (Native.slotCount a : Run (World (Host η)) φ Nat) :=
  deedAt_bind (deedAt_readNative _) fun _ => deedAt_gets _

theorem deedAt_slotType (index : Nat) :
    IsDeedAt P S vm a (Native.slotType a index : Run (World (Host η)) φ SlotType) :=
  deedAt_bind (deedAt_readNative _) fun _ => deedAt_gets _

theorem deedAt_slotBytes (index : Nat) :
    IsDeedAt P S vm a (Native.slotBytes a index : Run (World (Host η)) φ (List UInt8)) :=
  deedAt_bind (deedAt_readNative _) fun _ => deedAt_gets _

theorem deedAt_listCount (index : Nat) :
    IsDeedAt P S vm a (Native.listCount a index : Run (World (Host η)) φ Nat) :=
  deedAt_bind (deedAt_readNative _) fun _ => deedAt_gets _

theorem deedAt_mapCount (index : Nat) :
    IsDeedAt P S vm a (Native.mapCount a index : Run (World (Host η)) φ Nat) :=
  deedAt_bind (deedAt_readNative _) fun _ => deedAt_gets _

theorem deedAt_slotForeign (index : Nat) :
    IsDeedAt P S vm a (Native.slotForeign a index : Run (World (Host η)) φ Address) :=
  deedAt_bind (deedAt_readNative _) fun _ => deedAt_gets _

theorem deedAt_expectType (s : Slot) (expected : SlotType) :
    IsDeedAt P S vm a (s.expectType a expected : Act (Host η) Unit) := by
  refine deedAt_bind (deedAt_slotType _) fun actual => ?_
  split
  · exact deedAt_pure ()
  · exact deedAt_fault _

end

/-! ## Deeds behind checks -/

theorem deed_live {vm : VmId} (hP : P vm) {operation : String}
    {f : Address → Act (Host η) β} (hf : ∀ a, IsDeedAt P S vm a (f a)) :
    IsDeed P S (live vm operation >>= f) :=
  fun _ => within_live span_deeds fun a hl => deed_of_deedAt (hf a) hP hl

theorem deed_checked {s : Slot} (hP : P s.vm) {operation : String}
    {f : Address → Act (Host η) β} (hf : ∀ a, IsDeedAt P S s.vm a (f a)) :
    IsDeed P S (s.checked operation >>= f) := by
  unfold Slot.checked
  simp only [bind_assoc]
  refine deed_live hP fun a => deedAt_bind deedAt_slotCount fun count => ?_
  split
  · rw [pure_bind]
    exact hf a
  · exact deedAt_fault (HostError.slotOutOfRange s.index count)

theorem deed_checked' (s : Slot) (hP : P s.vm) (operation : String) :
    IsDeed P S (s.checked operation : Act (Host η) Address) := by
  rw [← bind_pure (s.checked operation)]
  exact deed_checked hP fun a => deedAt_pure a

theorem deed_ensureSameVm {s : Slot} {vm : VmId} {operation : String}
    {f : Unit → Act (Host η) β} (hf : s.vm = vm → IsDeed P S (f ())) :
    IsDeed P S (s.ensureSameVm vm operation >>= f) :=
  fun w => within_ensureSameVm span_deeds fun h => hf h w

theorem deed_terminated (text : String) : IsDeed P S (terminated text : Act (Host η) Unit) := by
  unfold terminated
  split
  · exact deed_fault _
  · exact deed_pure ()

theorem deed_checkListIndex (index : Int) (upper count : Nat) :
    IsDeed P S (Slot.checkListIndex index upper count : Act (Host η) Unit) := by
  unfold Slot.checkListIndex
  split
  · exact deed_pure ()
  · exact deed_fault _

/-! ## Operations on machines -/

theorem deed_ensureSlots {vm : VmId} (hP : P vm) (count : Nat) :
    IsDeed P S (Vm.ensureSlots vm count : Act (Host η) Unit) :=
  deed_live hP fun _ => deedAt_changeNative fun _ => .ensureSlots _

theorem deed_slotCount {vm : VmId} (hP : P vm) : IsDeed P S (Vm.slotCount vm : Act (Host η) Nat) :=
  deed_live hP fun _ => deedAt_slotCount

theorem deed_hasModule {vm : VmId} (hP : P vm) (module : String) :
    IsDeed P S (Vm.hasModule vm module : Act (Host η) Bool) := by
  refine deed_live hP fun a => ?_
  refine deedAt_bind (deedAt_of_deed vm a (deed_terminated module)) fun _ => ?_
  exact deedAt_readNative _

theorem deed_hasVariable {vm : VmId} (hP : P vm) (module name : String) :
    IsDeed P S (Vm.hasVariable vm module name : Act (Host η) Bool) := by
  refine deed_live hP fun a => ?_
  refine deedAt_bind (deedAt_of_deed vm a (deed_hasModule hP module)) fun loaded => ?_
  split
  · exact deedAt_fault _
  · refine deedAt_bind (deedAt_of_deed vm a (deed_terminated name)) fun _ => ?_
    exact deedAt_readNative _

theorem deed_getVariable {vm : VmId} (hP : P vm) (module name : String) (s : Slot)
    (hq : (S.rights s.vm).writes s.index) :
    IsDeed P S (Vm.getVariable vm module name s : Act (Host η) Unit) := by
  refine deed_ensureSameVm fun hvm => deed_checked (hvm.symm ▸ hP) fun a => ?_
  refine deedAt_bind (deedAt_of_deed s.vm a (deed_hasVariable hP module name)) fun found => ?_
  split
  · exact deedAt_fault _
  · exact deedAt_changeNative fun _ => .getVariable module name _ hq

theorem deed_abortFiber {vm : VmId} (hP : P vm) (hr : (S.rights vm).requests) (s : Slot) :
    IsDeed P S (Vm.abortFiber vm s : Act (Host η) Unit) := by
  refine deed_ensureSameVm fun hvm => deed_checked (hvm.symm ▸ hP) fun a => ?_
  exact deedAt_changeNative fun _ => .requestAbort (hvm.symm ▸ hr) _

/-! ## Operations on slots -/

theorem deed_setSlot (s : Slot) (hP : P s.vm) (operation : String) {v : Machine.Value}
    (hv : v.object? = none) (hq : (S.rights s.vm).writes s.index) :
    IsDeed P S (do
      let a ← s.checked operation
      changeNative a fun m => m.setSlot s.index v : Act (Host η) Unit) :=
  deed_checked hP fun _ => deedAt_changeNative fun _ => .setSlot _ hq hv

theorem deed_slotType (s : Slot) (hP : P s.vm) : IsDeed P S (s.slotType : Act (Host η) SlotType) :=
  deed_checked hP fun _ => deedAt_slotType _

theorem deed_getBool (s : Slot) (hP : P s.vm) : IsDeed P S (s.getBool : Act (Host η) Bool) :=
  deed_checked hP fun _ => deedAt_bind (deedAt_expectType s _) fun _ => deedAt_readNative _

theorem deed_getDouble (s : Slot) (hP : P s.vm) :
    IsDeed P S (s.getDouble : Act (Host η) Number.Double) :=
  deed_checked hP fun _ => deedAt_bind (deedAt_expectType s _) fun _ => deedAt_readNative _

theorem deed_getString (s : Slot) (hP : P s.vm) :
    IsDeed P S (s.getString : Act (Host η) String) := by
  refine deed_checked hP fun a => deedAt_bind (deedAt_expectType s _) fun _ => ?_
  refine deedAt_bind (deedAt_slotBytes _) fun bytes => ?_
  split
  · exact deedAt_pure _
  · exact deedAt_fault _

theorem deed_getOptionalString (s : Slot) (hP : P s.vm) :
    IsDeed P S (s.getOptionalString : Act (Host η) (Option String)) := by
  refine deed_checked hP fun a => deedAt_bind (deedAt_slotType _) fun actual => ?_
  split
  · exact deedAt_pure _
  · refine deedAt_bind (deedAt_of_deed s.vm a (deed_getString s hP)) fun text => ?_
    exact deedAt_pure _

theorem deed_getBytes (s : Slot) (hP : P s.vm) :
    IsDeed P S (s.getBytes : Act (Host η) (List UInt8)) :=
  deed_checked hP fun _ => deedAt_bind (deedAt_expectType s _) fun _ => deedAt_slotBytes _

theorem deed_listCount (s : Slot) (hP : P s.vm) : IsDeed P S (s.listCount : Act (Host η) Nat) :=
  deed_checked hP fun _ => deedAt_bind (deedAt_expectType s _) fun _ => deedAt_listCount _

theorem deed_mapCount (s : Slot) (hP : P s.vm) : IsDeed P S (s.mapCount : Act (Host η) Nat) :=
  deed_checked hP fun _ => deedAt_bind (deedAt_expectType s _) fun _ => deedAt_mapCount _

/-- A list operation checks its operands and then writes. -/
theorem deed_listOperands {s element : Slot} (hP : P s.vm) {operation : String}
    {f : Address × Nat → Act (Host η) β}
    (hf : element.vm = s.vm → ∀ a count, IsDeedAt P S s.vm a (f (a, count))) :
    IsDeed P S (s.listOperands element operation >>= f) := by
  unfold Slot.listOperands
  simp only [bind_assoc, pure_bind]
  refine deed_ensureSameVm fun hvm => deed_checked hP fun a => ?_
  have helement : IsDeed P S (element.checked operation : Act (Host η) Address) :=
    deed_checked' element (hvm.symm ▸ hP) operation
  refine deedAt_bind (deedAt_of_deed s.vm a helement) fun _ => ?_
  refine deedAt_bind (deedAt_expectType s _) fun _ => ?_
  exact deedAt_bind (deedAt_listCount _) fun count => hf hvm a count

theorem deed_onList (s element : Slot) (hP : P s.vm) (operation : String) (index : Int)
    (upper : Nat → Nat) {f : State → State}
    (hf : element.vm = s.vm → ∀ m, Edit (S.rights s.vm) m (f m)) :
    IsDeed P S (do
      let (a, count) ← s.listOperands element operation
      Slot.checkListIndex index (upper count) count
      changeNative a f : Act (Host η) Unit) := by
  refine deed_listOperands hP fun hvm a count => ?_
  refine deedAt_bind (deedAt_of_deed s.vm a (deed_checkListIndex index _ count)) fun _ => ?_
  exact deedAt_changeNative (hf hvm)

/-- A map operation checks its operands and then reads or writes. -/
theorem deed_mapOperands {s key : Slot} (hP : P s.vm) {other? : Option Slot} {operation : String}
    {f : Address → Act (Host η) β}
    (hf : (∀ other, other? = some other → other.vm = s.vm) → ∀ a, IsDeedAt P S s.vm a (f a)) :
    IsDeed P S (s.mapOperands key other? operation >>= f) := by
  have hrest : key.vm = s.vm → (∀ other, other? = some other → other.vm = s.vm) → IsDeed P S ((do
      let a ← s.checked operation
      let _ ← key.checked operation
      s.expectType a .map
      let actual ← Native.slotType a key.index
      if Slot.isHashable actual then return a
      else Run.fault (.unhashableKey key.index actual)) >>= f) := by
    intro hkey hothers
    simp only [bind_assoc]
    refine deed_checked hP fun a => ?_
    have hchecked : IsDeed P S (key.checked operation : Act (Host η) Address) :=
      deed_checked' key (hkey.symm ▸ hP) operation
    refine deedAt_bind (deedAt_of_deed s.vm a hchecked) fun _ => ?_
    refine deedAt_bind (deedAt_expectType s _) fun _ => ?_
    refine deedAt_bind (deedAt_slotType _) fun actual => ?_
    split
    · rw [pure_bind]
      exact hf hothers a
    · exact deedAt_fault (HostError.unhashableKey key.index actual)
  unfold Slot.mapOperands
  rw [bind_assoc]
  refine deed_ensureSameVm fun hkey => ?_
  cases other? with
  | none => exact hrest hkey fun _ h => by cases h
  | some other =>
    simp only [bind_assoc] at hrest ⊢
    refine deed_ensureSameVm fun hother => ?_
    refine deed_bind (deed_checked' other (hother.symm ▸ hP) operation) fun _ => hrest hkey fun _ h => ?_
    cases h
    exact hother

theorem deed_getForeignPtr (s : Slot) (hP : P s.vm) :
    IsDeed P S (s.getForeignPtr : Act (Host η) Address) :=
  deed_checked hP fun _ => deedAt_bind (deedAt_expectType s _) fun _ => deedAt_slotForeign _

theorem deed_payloads (s : Slot) : IsDeed P S (s.payloads : Act (Host η) Payloads) := deed_gets _

theorem deed_getForeignObject (s : Slot) (hP : P s.vm) (t : PayloadType) :
    IsDeed P S (s.getForeignObject t : Act (Host η) t.Carrier) := by
  refine deed_bind (deed_getForeignPtr s hP) fun block => ?_
  refine deed_bind (deed_gets _) fun names => ?_
  refine deed_bind (deed_payloads s) fun payloads => ?_
  exact deed_bind (deed_ofExcept _) fun found => deed_pure _

theorem deed_getForeignStruct (s : Slot) (hP : P s.vm) (t : PayloadType) :
    IsDeed P S (s.getForeignStruct t : Act (Host η) t.Carrier) := by
  refine deed_bind (deed_getForeignPtr s hP) fun block => ?_
  refine deed_bind (deed_gets _) fun names => ?_
  exact deed_bind (deed_payloads s) fun payloads => deed_ofExcept _

theorem deed_isForeign (s : Slot) (hP : P s.vm) (t : PayloadType) :
    IsDeed P S (s.isForeign t : Act (Host η) Bool) := by
  refine deed_checked hP fun a => deedAt_bind (deedAt_slotType _) fun actual => ?_
  split
  · exact deedAt_pure _
  · refine deedAt_of_deed s.vm a ?_
    refine deed_bind (deed_getForeignPtr s hP) fun block => ?_
    exact deed_bind (deed_payloads s) fun payloads => deed_pure _

/-- The machine that an operation asks to abort. -/
def Access.request? : Access β → Option VmId
  | .abortFiber vm _ | .abortFiberWithMessage vm _ => some vm
  | _ => none

/-- The slot that an operation writes. -/
def Access.destination? : Access β → Option Slot
  | .getVariable _ _ _ s | .setBool s _ | .setDouble s _ | .setInt s _ | .setFloat s _ | .setNull s
  | .setBytes s _ | .setString s _ | .setNewList s | .setNewMap s => some s
  | .abortFiberWithMessage vm _ => some ⟨vm, 0⟩
  | .getListElement _ _ element => some element
  | .getMapValue _ _ value => some value
  | .removeMapValue _ _ removed => some removed
  | _ => none

/-- **Every operation on the slots and variables of a machine is deeds on it**, which write no slot but
the one that it names. -/
theorem deed_access (x : Access β) (hP : P x.vm)
    (hr : ∀ vm, x.request? = some vm → (S.rights vm).requests)
    (hd : ∀ s, x.destination? = some s → (S.rights s.vm).writes s.index) :
    IsDeed P S (x.run : Act (Host η) β) := by
  cases x with
  | ensureSlots vm count => exact deed_ensureSlots hP count
  | slotCount vm => exact deed_slotCount hP
  | hasModule vm module => exact deed_hasModule hP module
  | hasVariable vm module name => exact deed_hasVariable hP module name
  | getVariable vm module name s => exact deed_getVariable hP module name s (hd s rfl)
  | abortFiber vm s => exact deed_abortFiber hP (hr vm rfl) s
  | abortFiberWithMessage vm message =>
    refine deed_bind (deed_ensureSlots hP 1) fun _ => ?_
    refine deed_bind (deed_setSlot _ hP _ rfl (hd _ rfl)) fun _ => ?_
    exact deed_abortFiber hP (hr vm rfl) _
  | slotType s => exact deed_slotType s hP
  | isNull s => exact deed_bind (deed_slotType s hP) fun _ => deed_pure _
  | getBool s => exact deed_getBool s hP
  | setBool s | setDouble s | setInt s | setFloat s | setNull s | setBytes s | setString s =>
    exact deed_setSlot s hP _ rfl (hd s rfl)
  | getDouble s => exact deed_getDouble s hP
  | getInt s => exact deed_bind (deed_getDouble s hP) fun _ => deed_pure _
  | getFloat s => exact deed_bind (deed_getDouble s hP) fun _ => deed_pure _
  | getString s => exact deed_getString s hP
  | getOptionalString s => exact deed_getOptionalString s hP
  | getBytes s => exact deed_getBytes s hP
  | setNewList s =>
    exact deed_checked hP fun _ => deedAt_changeNative fun _ => .newList _ (hd s rfl)
  | listCount s => exact deed_listCount s hP
  | getListElement s index element =>
    exact deed_onList s element hP _ index (fun n => n) fun hvm _ =>
      .getElement _ _ _ (hvm ▸ hd element rfl)
  | setListElement s index element =>
    exact deed_onList s element hP _ index (fun n => n) fun _ _ => .setElement _ _ _
  | insertInList s index element =>
    exact deed_onList s element hP _ index (fun n => n + 1) fun _ _ => .insertElement _ _ _
  | setNewMap s =>
    exact deed_checked hP fun _ => deedAt_changeNative fun _ => .newMap _ (hd s rfl)
  | mapCount s => exact deed_mapCount s hP
  | mapContainsKey s key => exact deed_mapOperands hP fun _ _ => deedAt_readNative _
  | getMapValue s key value =>
    refine deed_mapOperands hP fun hothers _ => deedAt_changeNative fun _ => .getEntry _ _ _ ?_
    exact hothers value rfl ▸ hd value rfl
  | setMapValue s key value =>
    exact deed_mapOperands hP fun _ _ => deedAt_changeNative fun _ => .setEntry _ _ _
  | removeMapValue s key removed =>
    refine deed_mapOperands hP fun hothers _ => deedAt_changeNative fun _ => .dropEntry _ _ _ ?_
    exact hothers removed rfl ▸ hd removed rfl
  | getForeignPtr s => exact deed_getForeignPtr s hP
  | getForeignObject s t => exact deed_getForeignObject s hP t
  | getForeignStruct s t => exact deed_getForeignStruct s hP t
  | isForeign s t => exact deed_isForeign s hP t

end

/-! ## Machines that are not alive -/

/-- On a machine that is not alive, a computation gives an error and does nothing. -/
def Refuses (vm : VmId) (x : Act η β) : Prop :=
  ∀ w, (w.vm vm).isAlive = false → ∃ e, x w = (.fault e, w)

theorem refuses_live (vm : VmId) (operation : String) :
    Refuses vm (live vm operation : Act η Address) :=
  fun _ h => ⟨_, live_of_dead h operation⟩

theorem refuses_bind {vm : VmId} {x : Act η α} {f : α → Act η β} (hx : Refuses vm x) :
    Refuses vm (x >>= f) := by
  intro w h
  obtain ⟨e, he⟩ := hx w h
  exact ⟨e, Run.bind_of_fault he f⟩

theorem refuses_checked (s : Slot) (operation : String) :
    Refuses s.vm (s.checked operation : Act η Address) :=
  refuses_bind (refuses_live s.vm operation)

theorem refuses_ensureSameVm {s : Slot} {vm vm' : VmId} {operation : String}
    {f : Unit → Act η β} (hf : s.vm = vm → Refuses vm' (f ())) :
    Refuses vm' (s.ensureSameVm vm operation >>= f) := by
  intro w h
  unfold Slot.ensureSameVm
  split
  · rename_i heq
    rw [pure_bind]
    exact hf heq w h
  · exact ⟨.crossVmMisuse operation (w.addressOf vm) (w.addressOf s.vm), rfl⟩

theorem refuses_listOperands {vm : VmId} {s element : Slot} (h : vm = s.vm ∨ vm = element.vm)
    (operation : String) : Refuses vm (s.listOperands element operation : Act η (Address × Nat)) := by
  refine refuses_ensureSameVm fun hvm => ?_
  obtain rfl : vm = s.vm := h.elim id fun h => h.trans hvm
  exact refuses_bind (refuses_checked s operation)

theorem refuses_mapOperands {vm : VmId} {s key : Slot} {other? : Option Slot}
    (h : vm = s.vm ∨ vm = key.vm ∨ ∃ other, other? = some other ∧ vm = other.vm)
    (operation : String) :
    Refuses vm (s.mapOperands key other? operation : Act η Address) := by
  refine refuses_ensureSameVm fun hkey => ?_
  have hrest : vm = s.vm ∨ ∃ other, other? = some other ∧ vm = other.vm := by
    rcases h with h | h | h
    · exact Or.inl h
    · exact Or.inl (h.trans hkey)
    · exact Or.inr h
  cases other? with
  | none =>
    obtain rfl : vm = s.vm := hrest.elim id fun ⟨_, hother, _⟩ => absurd hother (by simp)
    exact refuses_bind (refuses_checked s operation)
  | some other =>
    refine refuses_ensureSameVm fun hother => ?_
    have hvm : vm = other.vm := by
      rcases hrest with rfl | ⟨_, heq, hvm⟩
      · exact hother.symm
      · cases heq
        exact hvm
    subst hvm
    exact refuses_bind (refuses_checked other operation)

theorem refuses_getForeignPtr (s : Slot) : Refuses s.vm (s.getForeignPtr : Act η Address) :=
  refuses_bind (refuses_checked s _)

namespace Access

/-- The machines of all operands. -/
def vms (x : Access β) : List VmId :=
  match x with
  | getVariable vm _ _ s | abortFiber vm s => [vm, s.vm]
  | getListElement s _ element | setListElement s _ element | insertInList s _ element =>
    [s.vm, element.vm]
  | mapContainsKey s key => [s.vm, key.vm]
  | getMapValue s key value | setMapValue s key value | removeMapValue s key value =>
    [s.vm, key.vm, value.vm]
  | x => [x.vm]

end Access

/-- **An operation on slots and variables gives an error, and leaves everything as it is, if the
machine of any of its operands is not alive.** -/
theorem refuses_access (x : Access β) {vm : VmId} (h : vm ∈ x.vms) :
    Refuses vm (x.run : Act η β) := by
  cases x with
  | ensureSlots | slotCount | hasModule | hasVariable =>
    obtain rfl := List.mem_singleton.1 h
    exact refuses_bind (refuses_live _ _)
  | getVariable vm' module name s =>
    refine refuses_ensureSameVm fun hvm => ?_
    obtain rfl : vm = s.vm := by
      rcases List.mem_cons.1 h with rfl | h
      · exact hvm.symm
      · exact List.mem_singleton.1 h
    exact refuses_bind (refuses_checked s _)
  | abortFiber vm' s =>
    refine refuses_ensureSameVm fun hvm => ?_
    obtain rfl : vm = s.vm := by
      rcases List.mem_cons.1 h with rfl | h
      · exact hvm.symm
      · exact List.mem_singleton.1 h
    exact refuses_bind (refuses_checked s _)
  | abortFiberWithMessage vm' message =>
    obtain rfl := List.mem_singleton.1 h
    exact refuses_bind (refuses_bind (refuses_live _ _))
  | isNull | getInt | getFloat =>
    obtain rfl := List.mem_singleton.1 h
    exact refuses_bind (refuses_bind (refuses_checked _ _))
  | getListElement | setListElement | insertInList =>
    refine refuses_bind (refuses_listOperands ?_ _)
    simpa [Access.vms] using h
  | mapContainsKey s key =>
    refine refuses_bind (refuses_mapOperands ?_ _)
    rcases List.mem_cons.1 h with h | h
    · exact Or.inl h
    · exact Or.inr (Or.inl (List.mem_singleton.1 h))
  | getMapValue | setMapValue | removeMapValue =>
    refine refuses_bind (refuses_mapOperands ?_ _)
    rcases List.mem_cons.1 h with h | h
    · exact Or.inl h
    · rcases List.mem_cons.1 h with h | h
      · exact Or.inr (Or.inl h)
      · exact Or.inr (Or.inr ⟨_, rfl, List.mem_singleton.1 h⟩)
  | getForeignPtr s =>
    obtain rfl := List.mem_singleton.1 h
    exact refuses_getForeignPtr s
  | getForeignObject s t =>
    obtain rfl := List.mem_singleton.1 h
    exact refuses_bind (refuses_getForeignPtr s)
  | getForeignStruct s t =>
    obtain rfl := List.mem_singleton.1 h
    exact refuses_bind (refuses_getForeignPtr s)
  | slotType | getBool | setBool | getDouble | setDouble | setInt | setFloat | setNull | getString
  | getOptionalString | getBytes | setBytes | setString | setNewList | listCount | setNewMap
  | mapCount | isForeign =>
    obtain rfl := List.mem_singleton.1 h
    exact refuses_bind (refuses_checked _ _)

end ScriptHost.Bridge
