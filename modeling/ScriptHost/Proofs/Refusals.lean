import ScriptHost.Proofs.Accessors

/-!
# Operations that fail do nothing

An operation that ends with an error has changed nothing but the record of calls: its checks come
before whatever it does, and what comes behind them gives no error (`Setting.refusals_intact`).  The
only error behind a change is that of a foreign object whose address is tracked already.
-/

namespace ScriptHost.Bridge

open Machine (State)

variable {η α β γ : Type}

/-! ## Computations without errors -/

/-- A computation that gives no error. -/
def Faultless (x : Act η α) : Prop := ∀ w e t, x w ≠ (.fault e, t)

theorem faultless_pure (v : α) : Faultless (pure v : Act η α) := by
  intro w e t h
  exact absurd (congrArg Prod.fst h) (by simp [Pure.pure, Run.pure])

theorem faultless_halt (s : Halt) : Faultless (Run.halt s : Act η α) := by
  intro w e t h
  exact absurd (congrArg Prod.fst h) (by simp [Run.halt])

theorem faultless_gets (f : World η → α) : Faultless (Run.gets f : Act η α) := by
  intro w e t h
  exact absurd (congrArg Prod.fst h) (by simp [Run.gets])

theorem faultless_modifyGet (f : World η → α × World η) :
    Faultless (Run.modifyGet f : Act η α) := by
  intro w e t h
  exact absurd (congrArg Prod.fst h) (by simp [Run.modifyGet])

theorem faultless_modify (f : World η → World η) : Faultless (Run.modify f : Act η Unit) := by
  intro w e t h
  exact absurd (congrArg Prod.fst h) (by simp [Run.modify])

theorem faultless_bind {x : Act η α} {f : α → Act η β} (hx : Faultless x)
    (hf : ∀ v, Faultless (f v)) : Faultless (x >>= f) := by
  intro w e t h
  rcases hxw : x w with ⟨v | e' | s, u⟩
  · rw [Run.bind_of_value hxw] at h
    exact hf v u e t h
  · exact hx w e' u hxw
  · rw [Run.bind_of_halt hxw] at h
    exact absurd (congrArg Prod.fst h) (by simp)

theorem faultless_noteCall (c : NativeCall) : Faultless (noteCall c : Act η Unit) :=
  faultless_modify _

theorem faultless_readNative (a : Address) (f : State → α) :
    Faultless (readNative a f : Act η α) :=
  faultless_bind (faultless_noteCall _) fun _ => faultless_gets _

theorem faultless_changeNative (a : Address) (f : State → State) :
    Faultless (changeNative a f : Act η Unit) :=
  faultless_bind (faultless_noteCall _) fun _ => faultless_modify _

theorem faultless_newHandle (a : Address) (store : State → Address → State) :
    Faultless (Native.newHandle a store : Act η (Option Address)) := by
  refine faultless_bind (faultless_gets id) fun w => ?_
  split
  · exact faultless_pure _
  · split
    · exact faultless_pure _
    · refine faultless_bind ?_ fun h => faultless_bind (faultless_modify _) fun _ => faultless_pure _
      refine faultless_bind (faultless_modifyGet _) fun h => ?_
      exact faultless_bind (faultless_noteCall _) fun _ =>
        faultless_bind (faultless_modify _) fun _ => faultless_pure _

theorem faultless_call (e : EntryPoint γ) (a : Address) : Faultless (e.call a : Act η γ) := by
  cases e with
  | slotBool | slotDouble | containsKey =>
    unfold EntryPoint.call
    exact faultless_readNative a _
  | slotBytes | listCount | mapCount | slotForeign =>
    exact faultless_bind (faultless_readNative a _) fun _ => faultless_gets _
  | slotHandle => exact faultless_newHandle a _
  | setSlot | newList | getElement | setElement | insertElement | newMap | getEntry | setEntry
  | dropEntry =>
    unfold EntryPoint.call
    exact faultless_changeNative a _

section

variable [Observer η]

theorem faultless_log (level : LogLevel) (text : String) :
    Faultless (log level text : Act η Unit) :=
  faultless_modify _

theorem faultless_fatal (e : HostError) : Faultless (fatal e : Act η α) :=
  faultless_bind (faultless_log _ _) fun _ => faultless_halt _

theorem faultless_onMachine (d : Delegates η) (a : Address)
    (x : Machine.Callbacks (World η) → Machine.Call (World η) α) :
    Faultless (onMachine d a x : Act η α) := by
  intro w e t h
  unfold onMachine at h
  split at h <;> exact absurd (congrArg Prod.fst h) (by simp)

theorem faultless_releaseHandle (a x : Address) : Faultless (Native.releaseHandle a x : Act η Unit) :=
  faultless_bind (faultless_modify _) fun _ => faultless_bind (faultless_noteCall _) fun _ =>
    faultless_modify _

omit [Observer η] in
theorem faultless_forgetHandle (x : Address) (id : Nat) :
    Faultless (forgetHandle x id : Act η Bool) :=
  faultless_modifyGet _

theorem faultless_release (h : CallHandle) : Faultless (h.release : Act η Unit) := by
  refine faultless_bind (faultless_forgetHandle _ _) fun forgotten => ?_
  split
  · refine faultless_bind (faultless_modify _) fun _ => faultless_bind (faultless_gets _) fun r => ?_
    split
    · exact faultless_bind (faultless_releaseHandle _ _) fun _ => faultless_log _ _
    · exact faultless_log _ _
  · exact faultless_pure ()

theorem faultless_forceRelease (a : Address) (l : List (Address × Nat)) :
    Faultless (Vm.forceRelease a l : Act η Unit) := by
  induction l with
  | nil => exact faultless_pure ()
  | cons entry rest ih =>
    refine faultless_bind (faultless_forgetHandle _ _) fun forgotten => ?_
    split
    · exact faultless_bind (faultless_releaseHandle _ _) fun _ =>
        faultless_bind (faultless_log _ _) fun _ => ih
    · exact ih

theorem faultless_settleLeaks (vm : VmId) : Faultless (Vm.settleLeaks vm : Act η Unit) := by
  refine faultless_bind (faultless_gets _) fun record => ?_
  split
  · exact faultless_pure ()
  · dsimp only
    split
    · exact faultless_bind (faultless_log _ _) fun _ => faultless_halt _
    · exact faultless_bind (faultless_log _ _) fun _ =>
        faultless_bind (faultless_modify _) fun _ => faultless_forceRelease _ _

theorem faultless_shutdown (e : Engine η) (vm : VmId) :
    Faultless (Vm.shutdown e vm : Act η Unit) := by
  refine faultless_bind (faultless_gets _) fun record => ?_
  split
  · exact faultless_pure ()
  · refine faultless_bind (faultless_settleLeaks vm) fun _ => ?_
    refine faultless_bind (faultless_modify _) fun _ => faultless_bind (faultless_modify _) fun _ => ?_
    refine faultless_bind ?_ fun _ => faultless_log _ _
    refine faultless_bind (faultless_noteCall _) fun _ => ?_
    refine faultless_bind (faultless_onMachine _ _ _) fun leaked => ?_
    refine faultless_bind (faultless_modify _) fun _ => faultless_bind (faultless_gets id) fun w => ?_
    split
    · exact faultless_log _ _
    · exact faultless_pure ()

theorem faultless_dispose (e : Engine η) (vm : Vm) : Faultless (Vm.dispose e vm : Act η Unit) := by
  unfold Vm.dispose
  split
  · exact faultless_shutdown e vm.id
  · exact faultless_bind (faultless_gets _) fun _ => faultless_log _ _

theorem faultless_drop (e : Engine η) (vm : Vm) : Faultless (Vm.drop e vm : Act η Unit) := by
  unfold Vm.drop
  split
  · exact faultless_shutdown e vm.id
  · exact faultless_pure ()

end

/-! ## Computations that do nothing if they fail -/

/-- From a world, a computation that ends with an error has changed nothing, unless the error is that of
a foreign object whose address is tracked already. -/
def Clean (x : Act η α) (w : World η) : Prop :=
  ∀ e t, x w = (.fault e, t) →
    (∃ block, e = .registrationConflict "foreign object" block) ∨ w.Intact t

theorem Faultless.clean {x : Act η α} (h : Faultless x) (w : World η) : Clean x w :=
  fun e t hx => absurd hx (h w e t)

theorem Looks.clean {x : Act η α} (h : Looks x) (w : World η) : Clean x w :=
  fun _ _ hx => Or.inr (h.intact hx)

/-- What follows checks may fail as long as it has done nothing. -/
theorem clean_bind {x : Act η α} {f : α → Act η β} {w : World η} (hx : Looks x)
    (hf : ∀ v t, x w = (.value v, t) → Clean (f v) t) : Clean (x >>= f) w := by
  intro e t h
  rcases hxw : x w with ⟨v | e' | s, u⟩
  · rw [Run.bind_of_value hxw] at h
    exact (hf v u hxw e t h).imp_right (hx.intact hxw).trans
  · rw [Run.bind_of_fault hxw] at h
    cases h
    exact Or.inr (hx.intact hxw)
  · rw [Run.bind_of_halt hxw] at h
    exact absurd (congrArg Prod.fst h) (by simp)

/-- What follows checks and gives no error. -/
theorem clean_checks {x : Act η α} {f : α → Act η β} (hx : Looks x) (hf : ∀ v, Faultless (f v))
    (w : World η) : Clean (x >>= f) w :=
  clean_bind hx fun v t _ => (hf v).clean t

/-! ### Reading -/

theorem looks_slotBytes (a : Address) (index : Nat) :
    Looks (Native.slotBytes a index : Act η (List UInt8)) :=
  looks_bind (looks_readNative a _) fun _ => looks_gets _

theorem looks_getString (s : Slot) : Looks (s.getString : Act η String) := by
  refine looks_bind (looks_checked _ _) fun a => looks_bind (looks_expectType _ _ _) fun _ => ?_
  refine looks_bind (looks_slotBytes a _) fun bytes => ?_
  split
  · exact looks_pure _
  · exact looks_fault _

theorem looks_payloads (s : Slot) : Looks (s.payloads : Act η Payloads) := looks_gets _

/-- Whether an operation only reads. -/
def Access.reads : Access β → Bool
  | .slotCount _ | .hasModule _ _ | .hasVariable _ _ _ | .slotType _ | .isNull _ | .getBool _
  | .getDouble _ | .getInt _ | .getFloat _ | .getString _ | .getOptionalString _ | .getBytes _
  | .listCount _ | .mapCount _ | .mapContainsKey _ _ | .getForeignPtr _ | .getForeignObject _ _
  | .getForeignStruct _ _ | .isForeign _ _ => true
  | _ => false

/-- **Reading changes nothing.** -/
theorem looks_access {x : Access β} (h : x.reads = true) : Looks (x.run : Act η β) := by
  cases x with
  | slotCount vm =>
    refine looks_bind (looks_live _ _) fun a => ?_
    exact looks_bind (looks_readNative a _) fun _ => looks_gets _
  | hasModule vm module => exact looks_hasModule vm module
  | hasVariable vm module name => exact looks_hasVariable vm module name
  | slotType s => exact looks_bind (looks_checked _ _) fun a => looks_slotType a _
  | isNull s =>
    refine looks_bind (looks_bind (looks_checked _ _) fun a => ?_) fun _ => looks_pure _
    exact looks_slotType a _
  | getBool s | getDouble s =>
    refine looks_bind (looks_checked _ _) fun a => looks_bind (looks_expectType _ _ _) fun _ => ?_
    exact looks_readNative a _
  | getInt s | getFloat s =>
    refine looks_bind (looks_bind (looks_checked _ _) fun a => ?_) fun _ => looks_pure _
    exact looks_bind (looks_expectType _ _ _) fun _ => looks_readNative a _
  | getString s => exact looks_getString s
  | getOptionalString s =>
    refine looks_bind (looks_checked _ _) fun a => looks_bind (looks_slotType _ _) fun actual => ?_
    split
    · exact looks_pure _
    · exact looks_bind (looks_getString s) fun _ => looks_pure _
  | getBytes s =>
    refine looks_bind (looks_checked _ _) fun a => looks_bind (looks_expectType _ _ _) fun _ => ?_
    exact looks_slotBytes a _
  | listCount s =>
    refine looks_bind (looks_checked _ _) fun a => looks_bind (looks_expectType _ _ _) fun _ => ?_
    exact looks_listCount a _
  | mapCount s =>
    refine looks_bind (looks_checked _ _) fun a => looks_bind (looks_expectType _ _ _) fun _ => ?_
    exact looks_bind (looks_readNative a _) fun _ => looks_gets _
  | mapContainsKey s key => exact looks_bind (looks_mapOperands _ _ _ _) fun a => looks_readNative a _
  | getForeignPtr s => exact looks_getForeignPtr s
  | getForeignObject s t =>
    refine looks_bind (looks_getForeignPtr s) fun block => looks_bind (looks_gets _) fun names => ?_
    refine looks_bind (looks_payloads s) fun payloads => ?_
    exact looks_bind (looks_ofExcept _) fun _ => looks_pure _
  | getForeignStruct s t =>
    refine looks_bind (looks_getForeignPtr s) fun block => looks_bind (looks_gets _) fun names => ?_
    exact looks_bind (looks_payloads s) fun payloads => looks_ofExcept _
  | isForeign s t =>
    refine looks_bind (looks_checked _ _) fun a => looks_bind (looks_slotType _ _) fun actual => ?_
    split
    · exact looks_pure _
    · refine looks_bind (looks_getForeignPtr s) fun block => ?_
      exact looks_bind (looks_payloads s) fun _ => looks_pure _
  | _ => cases h

/-! ### Writing -/

section

variable [Observer η] {w t : World (Host η)} {e : HostError}

/-- An accessor that makes nothing of the result fails in its checks only. -/
theorem clean_accessor {x : Access β} {acc : Accessor (Host η) β} (h : x.accessor? = some acc)
    (hfinish : ∀ v, Faultless (acc.finish v)) (w : World (Host η)) :
    Clean (x.run : Act (Host η) β) w := by
  have hoperation : (Operation.access x : Operation η β).accessor? = some acc := h
  rw [Access.run_eq h]
  refine clean_bind (Operation.looks_checks hoperation) fun found t _ => ?_
  cases found with
  | error answer => exact (faultless_pure answer).clean t
  | ok a => exact (faultless_bind (faultless_call _ a) hfinish).clean t

/-- The slots and variables of a machine stay as they are if an operation on them fails. -/
theorem clean_access (hs : Sound w) (hcount : w.hasFault .negativeSlotCount = false)
    (x : Access β) : Clean (x.run : Act (Host η) β) w := by
  cases hreads : x.reads with
  | true => exact (looks_access hreads).clean w
  | false =>
    cases x with
    | ensureSlots vm count =>
      exact clean_checks (looks_live _ _) (fun a => faultless_changeNative a _) w
    | getVariable vm module name s =>
      refine clean_bind (looks_ensureSameVm _ _ _) fun _ _ _ => ?_
      refine clean_bind (looks_checked _ _) fun a _ _ => ?_
      refine clean_bind (looks_hasVariable _ _ _) fun found t _ => ?_
      split
      · exact (looks_fault _).clean t
      · exact (faultless_changeNative a _).clean t
    | abortFiber vm s =>
      refine clean_bind (looks_ensureSameVm _ _ _) fun _ t _ => ?_
      exact clean_checks (looks_checked _ _) (fun a => faultless_changeNative a _) t
    | abortFiberWithMessage vm message =>
      intro e t hfailed
      cases halive : (w.vm vm).isAlive with
      | true =>
        -- a machine that is alive can always be asked to abort
        have hl : w.LiveAt vm (w.vm vm).address := ⟨halive, rfl⟩
        obtain ⟨w', hrun, -⟩ := abortFiberWithMessage_eq hl (hs.roster.mem_natives hl) hcount message
        exact absurd (congrArg Prod.fst (hrun.symm.trans hfailed)) (by simp)
      | false =>
        have hrefused : Vm.abortFiberWithMessage vm message w = (.fault _, w) :=
          Run.bind_of_fault (Run.bind_of_fault (live_of_dead halive "ensure_slots") _) _
        cases hrefused.symm.trans hfailed
        exact Or.inr (.refl w)
    | setBool | setDouble | setInt | setFloat | setNull | setBytes | setString | setNewList
    | setNewMap | getListElement | setListElement | insertInList | getMapValue | setMapValue
    | removeMapValue => exact clean_accessor rfl (fun _ => faultless_pure _) w
    | _ => cases hreads

/-! ### Handles -/

/-- A machine refuses to make a handle and nothing has happened, or it makes one, which is adopted. -/
theorem clean_makeHandle (hs : Sound w) (vm : VmId) (operation : String) (a : Address)
    (store : State → Address → State) :
    Clean (do
      let made? ← Native.newHandle a store
      let h ← CallHandle.adopt vm made? operation
      Run.modify fun w => w.recordHandle h
      return h : Act (Host η) CallHandle) w := by
  intro e t hfailed
  have hsame := hasFault_of_roster hs.roster (f := .sameHandle) rfl
  have hnew := newHandle_eq (φ := HostError) hsame a store
  split at hnew
  · rw [Run.bind_of_value hnew] at hfailed
    cases hfailed
    exact Or.inr (.refl w)
  · let x := w.placement.place w.serial w.taken
    have hfree : x ∉ w.handles.keys :=
      hs.books.not_mem_of_fresh hs.roster (w.placement.place_fresh _ _)
    let w₁ : World (Host η) :=
      { w with
        serial := w.serial + 1
        calls := .makeHandle a x :: w.calls
        natives := (w.putMachine a (store (w.machine a) x)).natives
        lastHandle? := some x }
    have hadopt := adopt_eq (w := w₁) hfree vm operation
    have hmade : (do
        let made? ← Native.newHandle a store
        let h ← CallHandle.adopt vm made? operation
        Run.modify fun w => w.recordHandle h
        return h : Act (Host η) CallHandle) w = _ :=
      (Run.bind_of_value hnew _).trans (Run.bind_of_value hadopt _)
    have hrecord : Faultless (do
        Run.modify fun w => w.recordHandle ⟨x, w₁.nextHandleId, vm⟩
        return ⟨x, w₁.nextHandleId, vm⟩ : Act (Host η) CallHandle) :=
      faultless_bind (faultless_modify _) fun _ => faultless_pure _
    exact absurd (hmade.symm.trans hfailed) (hrecord _ e t)

omit [Observer η] in
/-- Checks leave a sound world sound. -/
theorem Sound.of_intact (hs : Sound w) (h : w.Intact t) : Sound t := by
  obtain ⟨calls, lastBlock?, rfl⟩ := h
  exact ⟨hs.roster.congr rfl rfl rfl rfl rfl rfl,
    hs.books.congr rfl rfl rfl rfl rfl (fun _ _ => Iff.rfl) (fun _ => rfl) fun _ _ _ => rfl⟩

theorem clean_makeCallHandle (hs : Sound w) (vm : VmId) (signature : String) :
    Clean (Operation.recordingHandle (Vm.makeCallHandle vm signature) :
      Act (Host η) CallHandle) w := by
  unfold Operation.recordingHandle Vm.makeCallHandle
  simp only [bind_assoc]
  refine clean_bind (looks_live _ _) fun a t ht => ?_
  have hst := hs.of_intact ((looks_live _ _).intact ht)
  refine clean_bind (looks_terminated _) fun _ u hu => ?_
  exact clean_makeHandle (hst.of_intact ((looks_terminated _).intact hu)) vm _ a _

theorem clean_getHandle (hs : Sound w) (s : Slot) :
    Clean (Operation.recordingHandle s.getHandle : Act (Host η) CallHandle) w := by
  unfold Operation.recordingHandle Slot.getHandle
  simp only [bind_assoc]
  refine clean_bind (looks_checked _ _) fun a t ht => ?_
  exact clean_makeHandle (hs.of_intact ((looks_checked _ _).intact ht)) s.vm _ a _

/-! ### Foreign objects -/

/-- A payload is refused for one reason only. -/
theorem attach_fault {s : Slot} {block : Address} {holding : Holding}
    (h : s.attach block holding w = (.fault e, t)) :
    e = .registrationConflict "foreign object" block := by
  by_cases htracked : block ∈ w.tracked (w.vm s.vm).service
  · cases (attach_of_tracked holding htracked).symm.trans h
    rfl
  · obtain ⟨own, -, hattach⟩ := attach_of_free holding htracked
    exact absurd (congrArg Prod.fst (hattach.symm.trans h)) (by simp)

/-- What a foreign object that was refused leaves: nothing, unless its address was tracked. -/
theorem deliver_fault (hs : Sound w) {s cls : Slot} {a : Address} {holding : Holding}
    (h : s.deliver cls a holding w = (.fault e, t)) :
    (∃ block, e = .registrationConflict "foreign object" block) ∨
      e = .foreignAllocationFailed s.index ∧ w.Intact t := by
  have hsame := hasFault_of_roster hs.roster (f := .sameForeign) rfl
  have hnew := newForeign_eq (φ := HostError) hsame a s.index cls.index
  have hrefused : ∀ u, (Native.newForeign a s.index cls.index : Act (Host η) _) w =
      (.value none, u) → e = .foreignAllocationFailed s.index ∧ u = t := by
    intro u hu
    have hdeliver : s.deliver cls a holding w = (.fault (.foreignAllocationFailed s.index), u) :=
      (Run.bind_of_value hu _).trans rfl
    cases hdeliver.symm.trans h
    exact ⟨rfl, rfl⟩
  split at hnew
  · obtain ⟨he, rfl⟩ := hrefused w hnew
    exact Or.inr ⟨he, .refl w⟩
  · split at hnew
    · obtain ⟨he, rfl⟩ := hrefused _ hnew
      exact Or.inr ⟨he, .enter a :: w.calls, none, rfl⟩
    · rw [Slot.deliver, Run.bind_of_value hnew] at h
      obtain ⟨u, hattach⟩ : ∃ u, s.attach (w.placement.place w.serial w.taken) holding u =
        (.fault e, t) := ⟨_, h⟩
      exact Or.inl ⟨_, attach_fault hattach⟩

/-- **A foreign object is refused before anything happens**, unless its address is tracked already. -/
theorem clean_newForeign (hs : Sound w) (s cls : Slot) (operation : String) (holding : Holding) :
    Clean (Operation.recordingBlock s cls (do
      s.attach (← s.newForeign cls operation) holding) : Act (Host η) Address) w := by
  rw [recordingBlock_eq]
  refine clean_bind (looks_gets id) fun w₀ w₁ hget => ?_
  obtain rfl : w = w₁ := congrArg Prod.snd hget
  refine clean_bind (looks_ensureSameVm _ _ _) fun _ w₂ h₂ => ?_
  refine clean_bind (looks_checked _ _) fun a w₃ h₃ => ?_
  refine clean_bind (looks_checked _ _) fun _ w₄ h₄ => ?_
  have hs₂ := hs.of_intact ((looks_ensureSameVm _ _ _).intact h₂)
  have hs₃ := hs₂.of_intact ((looks_checked _ _).intact h₃)
  have hs₄ := hs₃.of_intact ((looks_checked _ _).intact h₄)
  intro e t h
  rcases hdeliver : s.deliver cls a holding w₄ with ⟨x | e' | stop, u⟩
  · rw [Run.bind_of_value (Run.attempt_of_value hdeliver)] at h
    exact absurd h (faultless_bind (faultless_modify _) (fun _ => faultless_pure x) u e t)
  · rw [Run.bind_of_value (Run.attempt_of_fault hdeliver)] at h
    rcases deliver_fault hs₄ hdeliver with ⟨block, rfl⟩ | ⟨rfl, hu⟩
    · cases h
      exact Or.inl ⟨block, rfl⟩
    · rw [recordResult_error (by simp)] at h
      cases h
      exact Or.inr hu
  · have hstop : ((s.deliver cls a holding).attempt : Act (Host η) (Except HostError Address)) w₄ =
        (.halt stop, u) := by
      rw [Run.attempt, hdeliver]
    rw [Run.bind_of_halt hstop] at h
    exact absurd (congrArg Prod.fst h) (by simp)

/-! ### Machines -/

theorem clean_create (service : ServiceId) (config : VmConfig) :
    Clean (Vm.create service config : Act (Host η) Vm) w := by
  intro e t h
  have hregister : ∀ {a u}, (Native.newVm : Act (Host η) (Option Address)) w = (.value (some a), u) →
      Vm.create service config w ≠ (.fault e, t) := by
    intro a u hnew hrun
    refine absurd ((Run.bind_of_value hnew _).symm.trans hrun) ?_
    refine faultless_bind (faultless_modifyGet _) (fun id? => ?_) _ _ _
    cases id? with
    | none => exact faultless_fatal _
    | some id =>
      exact faultless_bind (faultless_modify _) fun _ =>
        faultless_bind (faultless_log _ _) fun _ => faultless_pure _
  -- only where no machine is given does the creation fail
  have hrefused : (Native.newVm : Act (Host η) (Option Address)) w = (.value none, w) →
      w.Intact t := by
    intro hnew
    have hrun : Vm.create service config w = (.fault .failedToCreateVm, w) :=
      (Run.bind_of_value hnew _).trans rfl
    cases hrun.symm.trans h
    exact .refl w
  have hnew := newVm_eq (φ := HostError) w
  split at hnew
  · exact Or.inr (hrefused hnew)
  · split at hnew
    · cases hlast : w.lastVm? with
      | none =>
        rw [hlast] at hnew
        exact Or.inr (hrefused hnew)
      | some a =>
        rw [hlast] at hnew
        exact absurd h (hregister hnew)
    · exact absurd h (hregister hnew)

/-- What runs a machine fails in its checks only. -/
theorem faultless_told {d : Delegates (Host η)} {a : Address} (c : NativeCall)
    (x : Machine.Callbacks (World (Host η)) →
      Machine.Call (World (Host η)) InterpretResult) :
    Faultless (do
      noteCall c
      Vm.told (← onMachine d a x) : Act (Host η) InterpretResult) :=
  faultless_bind (faultless_noteCall c) fun _ =>
    faultless_bind (faultless_onMachine d a x) fun _ => faultless_gets _

/-! ## All operations -/

/-- **An operation that fails has done nothing**, in any sound world in which machines that are alive
tell how many slots they have. -/
theorem clean_operation (hs : Sound w) (hcount : w.hasFault .negativeSlotCount = false)
    (engines : List Address → Engine (Host η)) (active : List Address) (op : Operation η β) :
    Clean (op.run engines active) w := by
  cases op with
  | look f => exact (faultless_gets f).clean w
  | keep f => exact (faultless_modify _).clean w
  | misreport faults => exact (faultless_modify _).clean w
  | newService =>
    exact (faultless_bind (faultless_modifyGet _) fun _ =>
      faultless_bind (faultless_modify _) fun _ => faultless_pure _).clean w
  | registerClass | registerMethod =>
    refine (faultless_bind (faultless_modifyGet _) fun found => ?_).clean w
    dsimp only
    split
    · exact faultless_bind (faultless_log _ _) fun _ => faultless_pure _
    · exact faultless_pure _
  | registerFinalizer => exact (faultless_modify _).clean w
  | create service config => exact clean_create service config
  | lookupVm => exact (faultless_gets _).clean w
  | listen => exact (faultless_modify _).clean w
  | access x => exact clean_access hs hcount x
  | makeCallHandle vm signature => exact clean_makeCallHandle hs vm signature
  | getHandle s => exact clean_getHandle hs s
  | setHandle s h =>
    refine clean_bind (looks_checked _ _) fun a t _ => ?_
    exact clean_checks (looks_handle _ _ _) (fun x => faultless_bind (faultless_noteCall _) fun _ =>
      faultless_modify _) t
  | release h => exact (faultless_release h).clean w
  | setNewForeignObject s cls | setNewForeignStruct s cls => exact clean_newForeign hs s cls _ _
  | setForeignStruct s p =>
    refine clean_bind (looks_getForeignPtr s) fun block t _ => ?_
    refine clean_bind (looks_gets id) fun w₀ u _ => ?_
    exact clean_checks (looks_ofExcept _) (fun _ => faultless_modify _) u
  | interpret vm module source =>
    refine clean_bind (looks_gets _) fun _ t _ => ?_
    refine clean_bind (looks_live _ _) fun a t₁ _ => clean_bind (looks_terminated _) fun _ t₂ _ => ?_
    exact clean_checks (looks_terminated _) (fun _ => faultless_told _ _) t₂
  | call vm h =>
    refine clean_bind (looks_gets _) fun _ t _ => clean_bind (looks_live _ _) fun a t₁ _ => ?_
    exact clean_checks (looks_handle _ _ _) (fun _ => faultless_told _ _) t₁
  | collectGarbage vm =>
    refine clean_bind (looks_gets _) fun _ t _ => ?_
    exact clean_checks (looks_live _ _) (fun a => faultless_bind (faultless_noteCall _) fun _ =>
      faultless_onMachine _ a _) t
  | dispose vm =>
    exact clean_checks (looks_gets _) (fun _ => faultless_dispose _ vm) w
  | drop vm => exact clean_checks (looks_gets _) (fun _ => faultless_drop _ vm) w

namespace Setting

/-- **An operation that ends with an error leaves everything as it was**, whatever its operands are and
whichever machines run, but for the record of calls; the only error of which this does not hold is that
of a foreign object whose address is tracked already. -/
theorem refusals_intact (s : Setting η) (hsteps : Steps s.start w)
    (hcount : w.hasFault .negativeSlotCount = false) (engines : List Address → Engine (Host η))
    (active : List Address) (op : Operation η β) (h : op.run engines active w = (.fault e, t)) :
    (∃ block, e = .registrationConflict "foreign object" block) ∨
      t.natives = w.natives ∧ t.registered = w.registered ∧ t.handles = w.handles ∧
        t.nextHandleId = w.nextHandleId ∧ t.vms = w.vms ∧ t.services = w.services ∧
        t.host = w.host := by
  refine (clean_operation (hsteps.sound s.steady_start.sound) hcount engines active op e t h).imp_right
    fun hintact => ?_
  obtain ⟨_, _, rfl⟩ := hintact
  exact ⟨rfl, rfl, rfl, rfl, rfl, rfl, rfl⟩

end Setting

end

namespace Setting

/-- The second handle of an exchange was released, and is refused. -/
theorem refused_exchanged (policy : LeakPolicy) :
    (Operation.call 1 ⟨4, 2, 1⟩).run silent.engines [] (exchanged policy) =
      (.fault (.useAfterDispose "handle" 4 "call"), exchanged policy) := by
  cbv

theorem refusals_intact_exchanged :
    ∃ e t, (Operation.call 1 ⟨4, 2, 1⟩).run silent.engines [] (exchanged .panic) = (.fault e, t) ∧
      t.natives = (exchanged .panic).natives ∧ t.handles = (exchanged .panic).handles ∧
        t.vms = (exchanged .panic).vms := by
  have hsteps : Steps silent.start (exchanged .panic) := silent.steps_run (.exchange .panic)
  have hcount : (exchanged .panic).hasFault .negativeSlotCount = false := by
    cbv
  have hrun := refused_exchanged .panic
  refine ⟨_, _, hrun, ?_⟩
  rcases silent.refusals_intact hsteps hcount silent.engines [] _ hrun with ⟨block, hblock⟩ | h
  · exact absurd hblock (by simp)
  · exact ⟨h.1, h.2.2.1, h.2.2.2.2.1⟩

end Setting

end ScriptHost.Bridge
