import ScriptHost.Proofs.Access

/-!
# Operations that run no program

Services, listeners, handles and foreign objects: each operation that runs no program is a few deeds,
but for the creation of a machine, which is described by the world that it leaves (`create_eq`).  So
are the operations on handles (`newHandle_eq`, `adopt_eq`, `release_of_valid`), each of which is one
deed, up to logs.
-/

namespace ScriptHost.Bridge

open Machine (Frame State ObjectId)
open Run (Within within_bind within_seq)

variable {η φ α β : Type}

variable [Observer η] {P : VmId → Prop} {S : Powers}

/-! ## Deeds by the world that they leave -/

/-- Only a sound world need be considered. -/
theorem within_of_sound {x : Run (World (Host η)) φ α} {w : World (Host η)}
    (h : Sound w → Within (Deeds P S) (Deeds P S) x w) : Within (Deeds P S) (Deeds P S) x w :=
  ⟨fun hw => (h hw).1 hw, fun hend hw => (h hw).2 hend hw⟩

/-- A computation by the world behind it, which deeds lead to. -/
theorem within_of_deeds {x : Run (World (Host η)) φ α} {w w' : World (Host η)}
    {outcome : Outcome φ α} (hx : x w = (outcome, w')) (h : Deeds P S w w') :
    Within (Deeds P S) (Deeds P S) x w := by
  refine Within.of_rel span_deeds ?_
  rw [hx]
  exact h

/-- What only logs, reports and later choices of addresses depend on. -/
theorem deeds_idle {w w' : World (Host η)} (serial : Nat)
    (lastVm? lastHandle? lastBlock? : Option Address) (freeReport? : Option FreeReport) {own : η}
    (hown : Heard w.host.own own)
    (h : w' = { w with serial, lastVm?, lastHandle?, lastBlock?, freeReport?,
                       host := { w.host with own } }) : Deeds P S w w' := by
  subst h
  exact (Deed.idle w serial lastVm? lastHandle? lastBlock? freeReport? hown).deeds

omit [Observer η] in
theorem hasFault_of_roster {w : World (Host η)} (h : Roster w) {f : NativeFault}
    (hf : f.isHonest = false) : w.hasFault f = false := by
  refine Bool.eq_false_iff.2 fun hin => ?_
  have hall := List.all_eq_true.1 h.honest f (List.contains_iff_mem.1 hin)
  rw [hf] at hall
  exact absurd hall (by simp)

/-! ## Services and listeners -/

omit [Observer η] in
theorem calm_keep (f : η → η) (w : World (Host η)) : Calm w (w.keep f) := by
  refine (Step.idle w w.serial w.lastVm? w.lastHandle? w.lastBlock? w.freeReport?
    (f w.host.own)).calm ?_
  exact Gentle.of_eq rfl rfl fun _ _ => Iff.rfl

theorem deed_newService : IsDeed P S (newService : Run (World (Host η)) φ ServiceId) := by
  intro w
  let id := w.placement.place w.serial w.taken
  let w₁ : World (Host η) := { w with serial := w.serial + 1 }
  have hidle : Deeds P S w w₁ :=
    deeds_idle (w.serial + 1) w.lastVm? w.lastHandle? w.lastBlock? w.freeReport? .nothing rfl
  have hfresh : id ∉ w₁.services.keys := fun hin =>
    w.placement.place_fresh _ _ (World.mem_taken_of_service hin)
  exact within_of_deeds rfl (hidle.trans (Deed.found hfresh).deeds)

theorem deed_registerFinalizer (hS : S.serves) (service : ServiceId) (t : PayloadType)
    (finalizer : Delegate) :
    IsDeed P S (registerFinalizer service t finalizer : Run (World (Host η)) φ Unit) :=
  fun _ => within_of_deeds rfl (Deed.enrol hS rfl (.refl _)).deeds

theorem deed_modifyListeners {vm : VmId} (hP : P vm) (f : Listeners → Listeners) :
    IsDeed P S (Vm.modifyListeners vm f : Run (World (Host η)) φ Unit) :=
  fun w => within_of_deeds rfl (Deed.listen w hP f).deeds

theorem deed_lookupVm (service : ServiceId) (a : Address) :
    IsDeed P S (lookupVm service a : Run (World (Host η)) φ (Option Vm)) :=
  deed_gets _

theorem deed_log (level : LogLevel) (text : String) :
    IsDeed P S (log level text : Run (World (Host η)) φ Unit) :=
  fun w => within_of_deeds rfl (deeds_idle w.serial w.lastVm? w.lastHandle? w.lastBlock?
    w.freeReport? (.log level text .nothing) rfl)

theorem deed_fatal (e : HostError) : IsDeed P S (fatal e : Run (World (Host η)) φ α) :=
  deed_bind (deed_log _ _) fun _ w => Run.within_halt span_deeds _ w

theorem deed_registerClass (hS : S.serves) (service : ServiceId) (binding : ClassBinding) :
    IsDeed P S (registerClass service binding : Run (World (Host η)) φ Machine.Key) := by
  have henrol : ∀ w : World (Host η), Deed P S w (w.modifyService service fun s =>
      { s with bindings :=
        (Compartment.classes.register binding (w.service service).bindings).2 }) := fun w =>
    .enrol hS rfl (.register _ (.ofClass binding))
  refine deed_bind (fun w => within_of_deeds rfl (henrol w).deeds) ?_
  rintro ⟨key, isNew⟩
  dsimp only
  split
  · exact deed_bind (deed_log _ _) fun _ => deed_pure key
  · exact deed_pure key

theorem deed_registerMethod (hS : S.serves) (service : ServiceId) (binding : MethodBinding) :
    IsDeed P S (registerMethod service binding : Run (World (Host η)) φ Machine.Key) := by
  have henrol : ∀ w : World (Host η), Deed P S w (w.modifyService service fun s =>
      { s with bindings :=
        (Compartment.methods.register binding (w.service service).bindings).2 }) := fun w =>
    .enrol hS rfl (.register _ (.ofMethod binding))
  refine deed_bind (fun w => within_of_deeds rfl (henrol w).deeds) ?_
  rintro ⟨key, isNew⟩
  dsimp only
  split
  · exact deed_bind (deed_log _ _) fun _ => deed_pure key
  · exact deed_pure key

/-! ## Making handles -/

omit [Observer η] in
/-- A machine that is asked for a handle refuses it, or puts a new one at a new address. -/
theorem newHandle_eq {w : World η} (hsame : w.hasFault .sameHandle = false) (a : Address)
    (store : State → Address → State) :
    (Native.newHandle a store : Run (World η) φ (Option Address)) w =
      if w.hasFault .nullHandle then (.value none, w)
      else
        let x := w.placement.place w.serial w.taken
        (.value (some x),
          { w with
            serial := w.serial + 1
            calls := .makeHandle a x :: w.calls
            natives := (w.putMachine a (store (w.machine a) x)).natives
            lastHandle? := some x }) := by
  unfold Native.newHandle
  change (if w.hasFault .nullHandle = true then (pure none : Run (World η) φ (Option Address))
    else _) w = _
  split
  · rfl
  · rw [hsame]
    rfl

omit [Observer η] in
theorem registerHandle_eq {w : World η} {x : Address} (hx : x ∉ w.handles.keys) (a : Address) :
    registerHandle x a w =
      (.value w.nextHandleId,
        { w with
          handles := w.handles.insert x ⟨w.nextHandleId, a⟩
          nextHandleId := w.nextHandleId + 1 }) := by
  have hadd := Table.tryAdd_of_not_mem (t := w.handles) ⟨w.nextHandleId, a⟩ hx
  simp only [registerHandle, bind, Run.bind, Run.modifyGet, hadd]
  rfl

/-- A handle at an address without a record is taken over. -/
theorem adopt_eq {w : World η} {x : Address} (hx : x ∉ w.handles.keys) (vm : VmId)
    (operation : String) :
    CallHandle.adopt vm (some x) operation w =
      (.value ⟨x, w.nextHandleId, vm⟩,
        { w with
          handles := w.handles.insert x ⟨w.nextHandleId, w.addressOf vm⟩
          nextHandleId := w.nextHandleId + 1
          vms := w.vms.modify vm fun r =>
            { r with outstanding := r.outstanding ++ [(x, w.nextHandleId)] }
          host := Observer.log .debug ("vm " ++ Text.Hex.address (w.addressOf vm) ++ ": " ++
            operation ++ " created handle " ++ Text.Hex.address x) w.host }) := by
  change (registerHandle x (w.addressOf vm) >>= _) w = _
  rw [Run.bind_of_value (registerHandle_eq hx _)]
  rfl

/-- A handle that is made is recorded in the table, at the machine, and by the host. -/
theorem deed_makeHandle {w : World (Host η)} {vm : VmId} {a : Address} (hP : P vm)
    (hl : w.LiveAt vm a) (operation : String) (target : State → Machine.HandleTarget)
    (ht : ∀ m, Names m (target m)) :
    Within (Deeds P S) (Deeds P S) (do
      let made? ← Native.newHandle a fun m x => m.storeHandle x (target m)
      let h ← CallHandle.adopt vm made? operation
      Run.modify fun w => w.recordHandle h
      return h : Act (Host η) CallHandle) w := by
  refine within_of_sound fun hs => ?_
  have hsame := hasFault_of_roster hs.roster (f := .sameHandle) rfl
  have hnew := newHandle_eq (φ := HostError) hsame a fun m x => m.storeHandle x (target m)
  cases hnull : w.hasFault .nullHandle with
  | true =>
    rw [hnull, if_pos rfl] at hnew
    rw [Within, Run.bind_of_value hnew]
    exact Run.within_fault span_deeds _ w
  | false =>
    let x := w.placement.place w.serial w.taken
    rw [hnull, if_neg (by simp)] at hnew
    have hx : x ∉ w.taken := w.placement.place_fresh _ _
    have hfree : x ∉ w.handles.keys := hs.books.not_mem_of_fresh hs.roster hx
    have hdeed : Deeds P S w (w.withHandle vm a x (target (w.machine a))) :=
      (Deed.adopt hP hl hx (ht _)).deeds
    obtain rfl : w.addressOf vm = a := hl.2
    let w₁ : World (Host η) :=
      { w with
        serial := w.serial + 1
        calls := .makeHandle (w.addressOf vm) x :: w.calls
        natives := (w.putMachine (w.addressOf vm) ((w.machine (w.addressOf vm)).storeHandle x
          (target (w.machine (w.addressOf vm))))).natives
        lastHandle? := some x }
    have hadopt := adopt_eq (w := w₁) hfree vm operation
    refine within_of_deeds ((Run.bind_of_value hnew _).trans
      ((Run.bind_of_value hadopt _).trans rfl)) (hdeed.trans ?_)
    exact deeds_idle (w.serial + 1) w.lastVm? (some x) w.lastBlock? w.freeReport?
      (.log _ _ .nothing) rfl

theorem deeds_enter {w : World (Host η)} {vm : VmId} {a : Address} (hP : P vm)
    (hl : w.LiveAt vm a) : Deeds P S w (w.note (.enter a)) :=
  (Deed.enter hP hl).deeds

theorem deed_makeCallHandle {vm : VmId} (hP : P vm) (signature : String) :
    IsDeed P S (Operation.recordingHandle (Vm.makeCallHandle vm signature) :
      Act (Host η) CallHandle) := by
  intro w
  unfold Operation.recordingHandle Vm.makeCallHandle
  simp only [bind_assoc]
  refine within_live span_deeds fun a hl => ?_
  unfold terminated
  split
  · exact Run.within_fault span_deeds (HostError.stringConversion _) w
  · rw [pure_bind]
    exact deed_makeHandle hP hl _ (fun _ => .method signature (State.placeCount signature))
      fun _ => trivial

theorem deed_getHandle {s : Slot} (hP : P s.vm) :
    IsDeed P S (Operation.recordingHandle s.getHandle : Act (Host η) CallHandle) := by
  intro w
  unfold Operation.recordingHandle Slot.getHandle
  simp only [bind_assoc]
  refine within_checked span_deeds (fun a hl => deeds_enter hP hl) fun a hl => ?_
  exact deed_makeHandle (w := w.note (.enter a)) hP hl _ (fun m => .value (m.slot s.index))
    fun m => ⟨s.index, rfl⟩

/-! ## Using and releasing handles -/

omit [Observer η] in
/-- What follows the check of a handle may rely on its being valid and one of the machine. -/
theorem within_checkedHandle {R S : World η → World η → Prop} (hsp : Span R S) {h : CallHandle}
    {vm : VmId} {operation : String} {f : Address → Act η β} {w : World η}
    (hf : h.vm = vm → w.isValid h = true → Within R S (f h.address) w) :
    Within R S (h.checked vm operation >>= f) w := by
  unfold CallHandle.checked
  split
  · exact Run.within_fault hsp
      (HostError.crossVmMisuse operation (w.addressOf vm) (w.addressOf h.vm)) w
  · rename_i hbelongs
    have hvm : h.vm = vm := by simpa [CallHandle.belongsTo] using hbelongs
    rw [bind_assoc]
    change Within R S ((if !w.isValid h then
      Run.fault (.useAfterDispose "handle" h.address operation) else pure h.address) >>= f) w
    split
    · exact Run.within_fault hsp (HostError.useAfterDispose "handle" h.address operation) w
    · rename_i hvalid
      rw [pure_bind]
      exact hf hvm (by simpa using hvalid)

theorem deed_setHandle {w : World (Host η)} {s : Slot} (hP : P s.vm)
    (hq : (S.rights s.vm).writes s.index) {h : CallHandle} (hmade : h ∈ w.host.handles) :
    Within (Deeds P S) (Deeds P S) (s.setHandle h : Act (Host η) Unit) w := by
  refine within_checked span_deeds (fun a hl => deeds_enter hP hl) fun a hl => ?_
  refine within_checkedHandle span_deeds fun hvm hvalid => ?_
  have hPh : P h.vm := hvm.symm ▸ hP
  have hlive : w.LiveAt h.vm a := by
    rw [hvm]
    exact hl
  let w₁ := (w.note (.enter a)).note (.useHandle a h.address)
  have huse : Deeds P S (w.note (.enter a)) w₁ :=
    (Deed.use (w := w.note (.enter a)) hPh hmade hvalid hlive).deeds
  have hedit : Deeds P S w₁ (w₁.putMachine a ((w₁.machine a).setSlotHandle s.index h.address)) :=
    (Deed.edit (w := w₁) hP hl (.setSlotHandle s.index h.address hq)).deeds
  exact within_of_deeds rfl (huse.trans hedit)

omit [Observer η] in
theorem forgetHandle_eq (w : World η) (x : Address) (id : Nat) :
    (forgetHandle x id : Run (World η) φ Bool) w =
      if w.isLiveHandle x id then (.value true, { w with handles := w.handles.erase x })
      else (.value false, w) := by
  unfold forgetHandle World.isLiveHandle Table.removeIf Run.modifyGet
  cases hx : w.handles.find? x with
  | none => simp [hx]
  | some r =>
    cases hid : r.id == id with
    | true => simp [hx, hid]
    | false => simp [hx, hid]

/-- **Releasing a handle that is not valid does nothing.** -/
theorem release_of_invalid {w : World η} {h : CallHandle} (hv : w.isValid h = false) :
    (h.release : Run (World η) φ Unit) w = (.value (), w) := by
  have hforget := forgetHandle_eq (φ := φ) w h.address h.id
  rw [if_neg (by rw [← World.isValid, hv]; simp)] at hforget
  exact Run.bind_of_value hforget _

/-- A valid handle of a machine that is alive is released once, natively as well. -/
theorem release_of_valid {w : World η} {h : CallHandle} {a : Address} (hv : w.isValid h = true)
    (hl : w.LiveAt h.vm a) :
    (h.release : Run (World η) φ Unit) w =
      (.value (), { w.withoutHandle h a with
        host := Observer.log .debug ("vm " ++ Text.Hex.address a ++ ": released handle " ++
          Text.Hex.address h.address) (Observer.released a h.address w.host) }) := by
  have hforget := forgetHandle_eq (φ := φ) w h.address h.id
  rw [if_pos (by rw [← World.isValid, hv])] at hforget
  let f : VmRecord → VmRecord := fun r =>
    { r with outstanding := r.outstanding.filter fun e => e ≠ (h.address, h.id) }
  let w₁ : World η := { w with handles := w.handles.erase h.address }
  have halive : ((w₁.modifyVm h.vm f).vm h.vm).isAlive = true :=
    (World.field_modifyVm w₁ h.vm (f := f) VmRecord.isAlive (fun _ => rfl) h.vm).trans hl.1
  have haddress : ((w₁.modifyVm h.vm f).vm h.vm).address = a :=
    (World.field_modifyVm w₁ h.vm (f := f) VmRecord.address (fun _ => rfl) h.vm).trans hl.2
  refine (Run.bind_of_value hforget _).trans ?_
  rw [if_pos rfl]
  change (if ((w₁.modifyVm h.vm f).vm h.vm).isAlive = true
    then (do
      Native.releaseHandle ((w₁.modifyVm h.vm f).vm h.vm).address h.address
      log .debug ("vm " ++ Text.Hex.address ((w₁.modifyVm h.vm f).vm h.vm).address ++
        ": released handle " ++ Text.Hex.address h.address) : Run (World η) φ Unit)
    else _) (w₁.modifyVm h.vm f) = _
  rw [halive, haddress]
  rfl

theorem deed_release {w : World (Host η)} {h : CallHandle} (hP : P h.vm)
    (hmade : h ∈ w.host.handles) :
    Within (Deeds P S) (Deeds P S) (h.release : Run (World (Host η)) φ Unit) w := by
  refine within_of_sound fun hs => ?_
  cases hv : w.isValid h with
  | false => exact within_of_deeds (release_of_invalid hv) (span_deeds.refl w)
  | true =>
    obtain ⟨a, hl, -⟩ := hs.books.exists_liveAt hmade hv
    refine within_of_deeds (release_of_valid hv hl) ((Deed.release hP hmade hv hl).deeds.trans ?_)
    exact deeds_idle w.serial w.lastVm? w.lastHandle? w.lastBlock? w.freeReport?
      (.log _ _ (.released _ _ .nothing)) rfl

/-! ## Foreign objects -/

section WriteTag

variable {w : World η} {block : Address} {service : ServiceId}

/-- A tag is written into one machine. -/
def World.tagIn (block : Address) (service : ServiceId) (w : World η) (a : Address) : World η :=
  w.putMachine a ((w.machine a).tagBlock block service)

omit [Observer η] in
theorem foldl_tagIn_of_fresh {l : List Address}
    (h : ∀ a ∈ l, block ∉ (w.machine a).heap.blockAddresses) :
    l.foldl (World.tagIn block service) w = w := by
  induction l with
  | nil => rfl
  | cons a rest ih =>
    have ha := Machine.State.tagBlock_of_not_mem (h a List.mem_cons_self) service
    rw [List.foldl_cons, World.tagIn, ha, World.putMachine_machine]
    exact ih fun b hb => h b (List.mem_cons_of_mem _ hb)

omit [Observer η] in
/-- The tag of a new data block is written into the machine in which the block lies, and nowhere
else. -/
theorem foldl_tagIn {a : Address} : ∀ {l : List Address}, l.Nodup → a ∈ l →
    (∀ b ∈ l, b ≠ a → block ∉ (w.machine b).heap.blockAddresses) →
    l.foldl (World.tagIn block service) w = w.tagIn block service a := by
  intro l
  induction l with
  | nil => intro _ ha; exact absurd ha List.not_mem_nil
  | cons b rest ih =>
    intro hnd ha hfresh
    rw [List.nodup_cons] at hnd
    rw [List.foldl_cons]
    by_cases hb : b = a
    · subst hb
      refine foldl_tagIn_of_fresh fun c hc => ?_
      have hne : c ≠ b := by
        rintro rfl
        exact hnd.1 hc
      rw [World.tagIn, World.machine_putMachine_ne _ hne]
      exact hfresh c (List.mem_cons_of_mem _ hc) hne
    · have hkeep := Machine.State.tagBlock_of_not_mem (hfresh b List.mem_cons_self hb) service
      rw [World.tagIn, hkeep, World.putMachine_machine]
      have ha' : a ∈ rest := (List.mem_cons.1 ha).resolve_left (Ne.symm hb)
      exact ih hnd.2 ha' fun c hc => hfresh c (List.mem_cons_of_mem _ hc)

end WriteTag

omit [Observer η] in
theorem writeTag_eq {w : World η} {a block : Address} (service : ServiceId)
    (ha : a ∈ w.natives.keys)
    (hfresh : ∀ b ∈ w.natives.keys, b ≠ a → block ∉ (w.machine b).heap.blockAddresses) :
    (Native.writeTag block service : Run (World η) φ Unit) w =
      (.value (), w.putMachine a ((w.machine a).tagBlock block service)) := by
  have hfold : w.natives.keys.foldl (World.tagIn block service) w = w.tagIn block service a :=
    foldl_tagIn w.natives.nodup_keys ha hfresh
  exact congrArg (fun w => (Outcome.value (), w)) hfold

omit [Observer η] in
/-- A machine that is asked for a foreign object refuses it, has no such class, or makes one with a
data block at a new address. -/
theorem newForeign_eq {w : World η} (hsame : w.hasFault .sameForeign = false) (a : Address)
    (index classIndex : Nat) :
    (Native.newForeign a index classIndex : Run (World η) φ (Option Address)) w =
      if w.hasFault .nullForeign then (.value none, w)
      else
        match (w.machine a).foreignClass? classIndex with
        | none => (.value none, { w with calls := .enter a :: w.calls, lastBlock? := none })
        | some _ =>
          let x := w.placement.place w.serial w.taken
          (.value (some x),
            { w with
              serial := w.serial + 1
              calls := .enter a :: w.calls
              natives :=
                (w.putMachine a ((w.machine a).newForeign index classIndex x).2).natives
              lastBlock? := some x }) := by
  unfold Native.newForeign
  change (if w.hasFault .nullForeign = true then (pure none : Run (World η) φ (Option Address))
    else _) w = _
  split
  · rfl
  · rw [hsame]
    change ((Native.placeForeign a index classIndex : Run (World η) φ (Option Address)) >>= _) w =
      _
    unfold Native.placeForeign
    change (((match (w.machine a).foreignClass? classIndex with
      | none => pure none
      | some _ => _ : Run (World η) φ (Option Address)) >>= _) (w.note (.enter a))) = _
    cases (w.machine a).foreignClass? classIndex with
    | none => rfl
    | some owner => rfl

/-- No payload is attached to a data block at an address that is tracked already. -/
theorem attach_of_tracked {w : World (Host η)} {s : Slot} {block : Address} (holding : Holding)
    (h : block ∈ w.tracked (w.vm s.vm).service) :
    s.attach block holding w = (.fault (.registrationConflict "foreign object" block), w) := by
  let service := (w.vm s.vm).service
  let tag := w.typeNames.tag holding.payload.type
  have hadd : (w.service service).payloads.add block tag holding =
      (false, (w.service service).payloads) := by
    rw [Payloads.add, Table.tryAdd_of_mem _ h]
  have hget : (Run.get : Act (Host η) (World (Host η))) w = (.value w, w) := rfl
  unfold Slot.attach
  rw [Run.bind_of_value hget, hadd]
  rfl

/-- The world in which a payload has been attached to a data block. -/
def World.attached (w : World η) (service : ServiceId) (block : Address) (e : Entry) : World η :=
  w.modifyService service fun s =>
    { s with payloads := (w.service service).payloads.withEntry block e }

/-- A payload is attached to a data block at an address that is not tracked. -/
theorem attach_of_free {w : World (Host η)} {s : Slot} {block : Address} (holding : Holding)
    (h : block ∉ w.tracked (w.vm s.vm).service) :
    ∃ own, Heard w.host.own own ∧ s.attach block holding w = (.value block,
      { w.attached (w.vm s.vm).service block (holding.entry w.typeNames) with
        host := { w.host with own } }) := by
  let service := (w.vm s.vm).service
  let tag := w.typeNames.tag holding.payload.type
  have hadd : (w.service service).payloads.add block tag holding =
      (true, (w.service service).payloads.withEntry block ⟨tag, holding⟩) := by
    rw [Payloads.add, Table.tryAdd_of_not_mem _ h]
    rfl
  have hget : (Run.get : Act (Host η) (World (Host η))) w = (.value w, w) := rfl
  refine ⟨_, .log .trace ("tracking foreign " ++ Text.Hex.address block ++ " as " ++ tag.name)
    .nothing, ?_⟩
  unfold Slot.attach
  rw [Run.bind_of_value hget, hadd]
  rfl

omit [Observer η] in
theorem isSome_class?_of_foreignClass? {m : State} {index : Int} {owner : ObjectId}
    (h : m.foreignClass? index = some owner) : (m.heap.class? owner).isSome = true := by
  obtain ⟨-, hc⟩ := Option.filter_eq_some_iff.1 h
  cases hcls : m.heap.class? owner with
  | none => rw [hcls] at hc; exact absurd hc (by simp)
  | some c => rfl

/-- The world behind the creation of a foreign object with a payload. -/
theorem deeds_delivered {w : World (Host η)} {vm : VmId} {a x : Address} {service : ServiceId}
    {owner : ObjectId} {index : Int} {m : State} {f : Service → Service} (hP : P vm) (hS : S.serves)
    (hq : (S.rights vm).writes index)
    (hb : Bearing (w.note (.enter a)) vm a x service owner index m f) (serial : Nat)
    (lastBlock? : Option Address) {own : η} (hown : Heard w.host.own own) :
    Deeds P S w { w with
      serial
      calls := .enter a :: w.calls
      natives := (w.putMachine a m).natives
      services := w.services.modify service f
      lastBlock?
      host := { w.host.made service x ((w.machine a).heap.finalizer? owner) with own } } := by
  have hl : w.LiveAt vm a := hb.delivery.live
  refine (deeds_enter hP hl).trans ((Deed.bear hP hS hq hb).deeds.trans ?_)
  exact deeds_idle serial w.lastVm? w.lastHandle? lastBlock? w.freeReport? hown rfl

/-- The world in which a foreign object has been made, at the address `x` and for the first time. -/
def World.withBlock (w : World η) (a x : Address) (m : State) : World η :=
  { w with
    serial := w.serial + 1
    calls := .enter a :: w.calls
    natives := (w.putMachine a m).natives
    lastBlock? := some x }

omit [Observer η] in
/-- A new data block is tagged where it lies. -/
theorem writeTag_withBlock {w : World η} {a x : Address} (service : ServiceId) (m : State)
    (ha : a ∈ w.natives.keys)
    (hfresh : ∀ b ∈ w.natives.keys, x ∉ (w.machine b).heap.blockAddresses) :
    (Native.writeTag x service : Run (World η) φ Unit) (w.withBlock a x m) =
      (.value (), w.withBlock a x (m.tagBlock x service)) := by
  have hself : (w.withBlock a x m).machine a = m := World.machine_putMachine_self ha m
  have hother : ∀ b, b ≠ a → (w.withBlock a x m).machine b = w.machine b :=
    fun b hb => World.machine_putMachine_ne w hb m
  have hwrite := writeTag_eq (w := w.withBlock a x m) (φ := φ) service
    (World.mem_natives_putMachine.2 ha) fun b hb hne => by
      rw [hother b hne]
      exact hfresh b (World.mem_natives_putMachine.1 hb)
  have hput : ((w.withBlock a x m).putMachine a (m.tagBlock x service)).natives =
      (w.putMachine a (m.tagBlock x service)).natives := by
    simp [World.withBlock, World.putMachine, Table.modify_modify]
  rw [hwrite, hself]
  exact congrArg (fun natives => (Outcome.value (), { w.withBlock a x m with natives })) hput

omit [Observer η] in
/-- A new data block becomes a delivery with any payload that fits. -/
theorem bearing_of_class {w : World (Host η)} {vm : VmId} {a : Address} (hs : Sound w)
    (hl : w.LiveAt vm a) {index classIndex : Nat} {owner : ObjectId}
    (hcls : (w.machine a).foreignClass? classIndex = some owner) {f : Service → Service}
    {x : Address} {service : ServiceId}
    (hx : x = w.placement.place w.serial w.taken) (hservice : (w.vm vm).service = service)
    (hkeys : ∀ y, y ∈ (f (w.service service)).payloads.entries.keys ↔
      y = x ∨ y ∈ w.tracked service)
    (hgains : Gains (w.note (.enter a)) service x f) :
    Bearing (w.note (.enter a)) vm a x service owner index
      (((w.machine a).newForeign index classIndex x).2.tagBlock x service) f := by
  have hfresh : x ∉ w.taken := hx ▸ w.placement.place_fresh _ _
  have hblock := World.not_mem_blockAddresses (hs.roster.mem_natives hl) hfresh
  refine ⟨⟨hl, hservice, hx ▸ w.placement.place_pos _ _, hfresh, hkeys, ?_, ?_⟩,
    ⟨classIndex, hcls, rfl⟩, hgains⟩
  · exact isSome_class?_of_foreignClass? hcls
  · exact Machine.State.birth_newForeign hcls hblock service

/-- Tags the data block that a machine has made. -/
def Slot.tagNew (s : Slot) : Option Address → Act η Address
  | none => Run.fault (.foreignAllocationFailed s.index)
  | some block => do
    Native.writeTag block (← Run.gets fun w => (w.vm s.vm).service)
    return block

/-- Makes a foreign object with a payload, once all operands have been checked. -/
def Slot.deliver (s cls : Slot) (a : Address) (holding : Holding) : Act (Host η) Address := do
  let block ← s.tagNew (← Native.newForeign a s.index cls.index)
  s.attach block holding

/-- How the making of a foreign object with a payload ends: it is refused, or the object is made but
its address is that of a payload that outlived its own object, or the payload is tracked as well. -/
inductive Made (w : World (Host η)) (s cls : Slot) (a : Address) (holding : Holding) :
    Outcome HostError Address → World (Host η) → Prop where
  | refused {e : HostError} {w' : World (Host η)} (h : Deeds (· = s.vm) .none w w') :
    Made w s cls a holding (.fault e) w'
  | untracked {e : HostError} {w' : World (Host η)} (h : Deeds (· = s.vm) (.onSlot s) w w') :
    Made w s cls a holding (.fault e) w'
  | tracked {x : Address} {owner : ObjectId} {w' : World (Host η)}
      (h : Deeds (· = s.vm) (.onSlot s) w w') (hclass : (w.machine a).foreignClass? cls.index = some owner)
      (hbirth : Machine.Birth (w.machine a) (w'.machine a) owner ⟨x, some (w.vm s.vm).service⟩)
      (hservices : w'.services =
        (w.attached (w.vm s.vm).service x (holding.entry w.typeNames)).services) :
      Made w s cls a holding (.value x) w'

theorem Made.deeds {w w' : World (Host η)} {s cls : Slot} {a : Address} {holding : Holding}
    {outcome : Outcome HostError Address} (h : Made w s cls a holding outcome w') (hP : P s.vm)
    (hS : S.serves) (hq : (S.rights s.vm).writes s.index) : Deeds P S w w' := by
  have hvm : ∀ vm, vm = s.vm → P vm := by
    rintro vm rfl
    exact hP
  cases h with
  | refused h => exact h.mono hvm S.none_le
  | untracked h => exact h.mono hvm (Powers.onSlot_le hS hq)
  | tracked h => exact h.mono hvm (Powers.onSlot_le hS hq)

/-- **A foreign object is made and gets its payload**, whatever its class was bound to. -/
theorem made_deliver {w : World (Host η)} (hs : Sound w) {s cls : Slot} {a : Address}
    (hvm : cls.vm = s.vm) (hl : w.LiveAt s.vm a) (holding : Holding) :
    ∃ outcome w', ((s.deliver cls a holding).attempt >>=
        Operation.recordResult (w.vm s.vm).service (w.slotFinalizer? cls)) w = (outcome, w') ∧
      Made w s cls a holding outcome w' := by
  have hsame := hasFault_of_roster hs.roster (f := .sameForeign) rfl
  have hnew := newForeign_eq (φ := HostError) hsame a s.index cls.index
  have hrefused : ∀ t, (Native.newForeign a s.index cls.index : Act (Host η) _) w =
        (.value none, t) →
      s.deliver cls a holding w = (.fault (.foreignAllocationFailed s.index), t) := by
    intro t ht
    exact (Run.bind_of_value ht _).trans rfl
  cases hnull : w.hasFault .nullForeign with
  | true =>
    rw [hnull, if_pos rfl] at hnew
    exact ⟨_, _, Run.bind_of_value (Run.attempt_of_fault (hrefused w hnew)) _,
      .refused (Deeds.refl w)⟩
  | false =>
    rw [hnull, if_neg (by simp)] at hnew
    cases hcls : (w.machine a).foreignClass? cls.index with
    | none =>
      rw [hcls] at hnew
      refine ⟨_, _, Run.bind_of_value (Run.attempt_of_fault (hrefused _ hnew)) _, .refused ?_⟩
      exact (deeds_enter (P := (· = s.vm)) (S := .none) rfl hl).trans
        (deeds_idle w.serial w.lastVm? w.lastHandle? none w.freeReport? .nothing rfl)
    | some owner =>
      rw [hcls] at hnew
      let x := w.placement.place w.serial w.taken
      let service := (w.vm s.vm).service
      let m := ((w.machine a).newForeign s.index cls.index x).2
      let w₂ := w.withBlock a x (m.tagBlock x service)
      have ha : a ∈ w.natives.keys := hs.roster.mem_natives hl
      have htag : (Native.writeTag x service : Act (Host η) Unit) (w.withBlock a x m) =
          (.value (), w₂) := by
        refine writeTag_withBlock service m ha fun b hb => ?_
        exact World.not_mem_blockAddresses hb (w.placement.place_fresh _ _)
      have hblock : s.tagNew (some x) (w.withBlock a x m) = (.value x, w₂) :=
        Run.bind_of_value htag fun _ => (pure x : Act (Host η) Address)
      have hdeliver : s.deliver cls a holding w = s.attach x holding w₂ :=
        (Run.bind_of_value hnew _).trans (Run.bind_of_value hblock _)
      have hfinalizer : w.slotFinalizer? cls = (w.machine a).heap.finalizer? owner := by
        have haddr : w.addressOf cls.vm = a := by
          rw [hvm]
          exact hl.2
        rw [World.slotFinalizer?, haddr, hcls]
        rfl
      rw [hfinalizer]
      by_cases hin : x ∈ w.tracked service
      · -- the address is that of a payload that outlived its object
        have hattach := attach_of_tracked (w := w₂) (s := s) holding hin
        refine ⟨_, _, Run.bind_of_value (Run.attempt_of_fault (hdeliver.trans hattach)) _,
          .untracked ?_⟩
        have hb : Bearing (w.note (.enter a)) s.vm a x service owner s.index (m.tagBlock x service)
            (fun s => s) :=
          bearing_of_class hs hl hcls rfl rfl
            (fun y => ⟨Or.inr, fun h => h.elim (fun hy => hy ▸ hin) id⟩) (.conflict hin rfl)
        have hdeeds := deeds_delivered (P := (· = s.vm)) (S := .onSlot s) rfl trivial ⟨rfl, rfl⟩ hb
          (w.serial + 1) (some x) .nothing
        rw [Table.modify_of_fixed fun _ _ => rfl] at hdeeds
        exact hdeeds
      · obtain ⟨own, hown, hattach⟩ := attach_of_free (w := w₂) (s := s) holding hin
        refine ⟨_, _, Run.bind_of_value (Run.attempt_of_value (hdeliver.trans hattach)) _,
          .tracked ?_ hcls ?_ rfl⟩
        · have hb : Bearing (w.note (.enter a)) s.vm a x service owner s.index (m.tagBlock x service)
              (fun r => { r with payloads :=
                (w.service service).payloads.withEntry x (holding.entry w.typeNames) }) :=
            bearing_of_class hs hl hcls rfl rfl (fun _ => Table.mem_keys_insert)
              (.entry hin holding rfl)
          exact deeds_delivered (P := (· = s.vm)) (S := .onSlot s) rfl trivial ⟨rfl, rfl⟩ hb (w.serial + 1) (some x)
            hown
        · have hborn : w₂.machine a = m.tagBlock x service := World.machine_putMachine_self ha _
          have hblock := World.not_mem_blockAddresses ha (w.placement.place_fresh w.serial w.taken)
          change Machine.Birth (w.machine a) (w₂.machine a) owner ⟨x, some service⟩
          rw [hborn]
          exact Machine.State.birth_newForeign hcls hblock service

/-! ### Checks of operands -/

omit [Observer η] in
/-- A refused operand is given back by what records data blocks. -/
theorem recordResult_error {e : HostError} (he : ∀ what block, e ≠ .registrationConflict what block)
    (service : ServiceId) (finalizer? : Option Machine.Key) (w : World (Host η)) :
    Operation.recordResult service finalizer? (.error e) w = (.fault e, w) := by
  have hrecord : w.recordBlock service finalizer? (.error e) = w := by
    cases e with
    | registrationConflict what block => exact absurd rfl (he what block)
    | _ => rfl
  exact congrArg (fun w => (Outcome.fault e, w)) hrecord

omit [Observer η] in
theorem ensureSameVm_fault {s : Slot} {vm : VmId} {operation : String} {w t : World η}
    {e : HostError} (h : s.ensureSameVm vm operation w = (.fault e, t)) :
    ∀ what block, e ≠ .registrationConflict what block := by
  rintro what block rfl
  unfold Slot.ensureSameVm at h
  split at h
  · exact absurd (congrArg Prod.fst h) (by simp [Pure.pure, Run.pure])
  · exact absurd (Outcome.fault.inj (congrArg Prod.fst h)) (by simp)

omit [Observer η] in
theorem checked_fault {s : Slot} {operation : String} {w t : World η} {e : HostError}
    (h : s.checked operation w = (.fault e, t)) :
    ∀ what block, e ≠ .registrationConflict what block := by
  rintro what block rfl
  unfold Slot.checked at h
  cases halive : (w.vm s.vm).isAlive with
  | true =>
    rw [Run.bind_of_value (live_of_alive halive operation)] at h
    have hcount : ∃ count, (Native.slotCount (w.vm s.vm).address : Act η Nat) w =
      (.value count, w.note (.enter (w.vm s.vm).address)) := ⟨_, rfl⟩
    obtain ⟨count, hcount⟩ := hcount
    rw [Run.bind_of_value hcount] at h
    split at h
    · exact absurd (congrArg Prod.fst h) (by simp [Pure.pure, Run.pure])
    · exact absurd (Outcome.fault.inj (congrArg Prod.fst h)) (by simp)
  | false =>
    rw [Run.bind_of_fault (live_of_dead halive operation)] at h
    exact absurd (Outcome.fault.inj (congrArg Prod.fst h)) (by simp)

/-- A data block is recorded once the operands have been checked. -/
theorem recordingBlock_eq (s cls : Slot) (operation : String) (holding : Holding) :
    (Operation.recordingBlock s cls (do
      s.attach (← s.newForeign cls operation) holding) : Act (Host η) Address) = (do
      let w ← Run.get
      cls.ensureSameVm s.vm operation
      let a ← s.checked operation
      let _ ← cls.checked operation
      Operation.recordResult (w.vm s.vm).service (w.slotFinalizer? cls)
        (← (s.deliver cls a holding).attempt)) := by
  unfold Operation.recordingBlock Slot.newForeign
  simp only [bind_assoc]
  funext w
  refine congrFun (congrArg (Run.get >>= ·) (funext fun w => ?_)) w
  rw [Run.attempt_bind fun _ _ _ h => recordResult_error (ensureSameVm_fault h) _ _ _]
  refine congrArg _ (funext fun _ => ?_)
  rw [Run.attempt_bind fun _ _ _ h => recordResult_error (checked_fault h) _ _ _]
  refine congrArg _ (funext fun a => ?_)
  rw [Run.attempt_bind fun _ _ _ h => recordResult_error (checked_fault h) _ _ _]
  rfl

/-- **Making a foreign object with a payload is deeds**, whatever its class was bound to. -/
theorem deed_setNewForeign {s : Slot} (hP : P s.vm) (hS : S.serves)
    (hq : (S.rights s.vm).writes s.index) (cls : Slot) (operation : String) (holding : Holding) :
    IsDeed P S (Operation.recordingBlock s cls (do
      s.attach (← s.newForeign cls operation) holding) : Act (Host η) Address) := by
  intro w
  rw [recordingBlock_eq]
  refine Run.within_get_bind (within_ensureSameVm span_deeds fun hvm => ?_)
  refine within_checked span_deeds (fun a hl => deeds_enter hP hl) fun a hl => ?_
  have hPcls : P cls.vm := hvm.symm ▸ hP
  refine within_checked span_deeds (fun a hl => deeds_enter hPcls hl) fun a' _ => ?_
  refine within_of_sound fun hs => ?_
  obtain ⟨outcome, w', hrun, hmade⟩ :=
    made_deliver (w := (w.note (.enter a)).note (.enter a')) hs hvm hl holding
  exact within_of_deeds hrun (hmade.deeds hP hS hq)

omit [Observer η] in
/-- A slot that has been checked is one of a machine that is alive. -/
theorem live_of_checked {w t : World η} {s : Slot} {operation : String} {a : Address}
    (h : s.checked operation w = (.value a, t)) :
    w.LiveAt s.vm a ∧ t = w.note (.enter a) := by
  cases halive : (w.vm s.vm).isAlive with
  | false =>
    have hfault : s.checked operation w = _ :=
      Run.bind_of_fault (live_of_dead halive operation) _
    exact absurd (congrArg Prod.fst (hfault.symm.trans h)) (by simp)
  | true =>
    obtain ⟨_, _, hlive, hrest⟩ := Run.value_of_bind h
    rw [live_of_alive halive operation] at hlive
    cases hlive
    obtain ⟨count, t', hcount, hindex⟩ := Run.value_of_bind hrest
    obtain rfl : w.note (.enter (w.vm s.vm).address) = t' := congrArg Prod.snd hcount
    split at hindex
    · cases hindex
      exact ⟨⟨halive, rfl⟩, rfl⟩
    · exact absurd (congrArg Prod.fst hindex) (by simp [Run.fault])

omit [Observer η] in
/-- The address that a slot is told to have lies on the heap of its machine, or is null. -/
theorem tells_of_getForeignPtr {w t : World η} {s : Slot} {x : Address}
    (h : s.getForeignPtr w = (.value x, t)) :
    ∃ a, t.LiveAt s.vm a ∧ Tells (t.machine a) x ∧
      t = ((w.note (.enter a)).note (.enter a)).note (.enter a) := by
  obtain ⟨a, w₁, hchecked, hrest⟩ := Run.value_of_bind h
  obtain ⟨hl, rfl⟩ := live_of_checked hchecked
  obtain ⟨_, w₂, htype, hforeign⟩ := Run.value_of_bind hrest
  have hsame : w₂ = (w.note (.enter a)).note (.enter a) := by
    obtain ⟨actual, w₃, hactual, hcheck⟩ := Run.value_of_bind htype
    obtain rfl : (w.note (.enter a)).note (.enter a) = w₃ := congrArg Prod.snd hactual
    split at hcheck
    · exact (congrArg Prod.snd hcheck).symm
    · exact absurd (congrArg Prod.fst hcheck) (by simp [Run.fault])
  subst hsame
  obtain ⟨block?, w₃, hblock, htold⟩ := Run.value_of_bind hforeign
  have htells : Tells (w.machine a) (if w.hasFault .nullSlotForeign then 0
      else (((w.machine a).slotBlock? s.index).map Machine.Block.address).getD 0) := by
    split
    · exact Or.inl rfl
    · cases hb : (w.machine a).slotBlock? s.index with
      | none => exact Or.inl rfl
      | some block => exact Or.inr ⟨s.index, block, hb, rfl⟩
  cases hblock
  cases htold
  exact ⟨a, hl, htells, rfl⟩

omit [Observer η] in
theorem ensureSameVm_value {s : Slot} {vm : VmId} {operation : String} {w t : World η}
    (h : s.ensureSameVm vm operation w = (.value (), t)) : s.vm = vm ∧ w = t := by
  unfold Slot.ensureSameVm at h
  split at h
  · next hvm => exact ⟨hvm, congrArg Prod.snd h⟩
  · obtain ⟨_, _, -, hfault⟩ := Run.value_of_bind h
    exact absurd (congrArg Prod.fst hfault) (by simp [Run.fault])

/-- **A foreign object with a payload that was made is a new object**, and its payload is the one that
was to be attached. -/
theorem birth_of_setNewForeign {w w' : World (Host η)} (hs : Sound w) {s cls : Slot}
    {operation : String} {holding : Holding} {x : Address}
    (h : (Operation.recordingBlock s cls (do
      s.attach (← s.newForeign cls operation) holding) : Act (Host η) Address) w =
        (.value x, w')) :
    ∃ a owner, w.LiveAt s.vm a ∧ cls.vm = s.vm ∧
      (w.machine a).foreignClass? cls.index = some owner ∧
      Machine.Birth (w.machine a) (w'.machine a) owner ⟨x, some (w.vm s.vm).service⟩ ∧
      w'.services =
        (w.attached (w.vm s.vm).service x (holding.entry w.typeNames)).services := by
  rw [recordingBlock_eq] at h
  obtain ⟨u, t, hget, h⟩ := Run.value_of_bind h
  obtain rfl : w = u := Outcome.value.inj (congrArg Prod.fst hget)
  obtain rfl : w = t := congrArg Prod.snd hget
  obtain ⟨_, _, hsame, h⟩ := Run.value_of_bind h
  obtain ⟨hvm, rfl⟩ := ensureSameVm_value hsame
  obtain ⟨a, _, hchecked, h⟩ := Run.value_of_bind h
  obtain ⟨hl, rfl⟩ := live_of_checked hchecked
  obtain ⟨a', _, hchecked', h⟩ := Run.value_of_bind h
  obtain ⟨hl', rfl⟩ := live_of_checked hchecked'
  have hdeeds := (deeds_enter (P := fun _ => True) (S := .none) trivial hl).trans
    (deeds_enter trivial hl')
  obtain ⟨outcome, w'', hrun, hmade⟩ :=
    made_deliver ((hdeeds.calm hs).1.sound hs) hvm hl holding
  cases hrun.symm.trans h
  cases hmade with
  | tracked _ hclass hbirth hservices => exact ⟨a, _, hl, hvm, hclass, hbirth, hservices⟩

theorem deed_setForeignStruct {s : Slot} (hP : P s.vm) (hS : S.serves) (p : Payload) :
    IsDeed P S (s.setForeignStruct p : Act (Host η) Unit) := by
  intro w
  refine within_bind span_deeds (deed_getForeignPtr s hP w) fun block t hblock => ?_
  obtain ⟨a, hl, htells, -⟩ := tells_of_getForeignPtr hblock
  refine Run.within_get_bind ?_
  cases hset : (t.serviceOf s.vm).payloads.setValue t.typeNames block p with
  | error e => exact Run.within_fault span_deeds e t
  | ok payloads => exact within_of_deeds rfl (Deed.assign hP hS hl htells hset).deeds

/-! ## Creating machines -/

omit [Observer η] in
/-- A new machine has nothing to finalize, and no running machine lies at its address. -/
theorem moves_withVm {active : List Address} {w : World (Host η)} {a : Address}
    {service : ServiceId} (policy : LeakPolicy) (ha : a ∉ w.natives.keys)
    (hservice : service ∈ w.services.keys) : Moves active w (w.withVm a service policy) := by
  intro hw
  have hstep : Step w (w.withVm a service policy) := .create policy ha hservice
  have hmachine := World.machine_withVm ha service policy
  refine ⟨.single hstep, ⟨hstep.sound hw.sound, ?_, ?_, ?_⟩, ?_⟩
  · intro b hb
    exact Table.mem_keys_insert.2 (Or.inr (hw.native b hb))
  · intro b hb
    rcases Table.mem_keys_insert.1 hb with rfl | hb
    · exact Or.inl (Table.mem_keys_insert.2 (Or.inl rfl))
    · exact (hw.listed b hb).imp_left fun hreg => Table.mem_keys_insert.2 (Or.inr hreg)
  · intro b hb
    rw [hmachine]
    exact hw.quiet b hb
  · intro b hb
    have hne : b ≠ a := by
      rintro rfl
      exact ha (hw.native b hb)
    refine ⟨?_, ?_, ?_, fun _ => ?_⟩
    · exact Table.find?_insert_ne _ _ hne
    · rw [hmachine]
    · rw [hmachine]
    · rw [hmachine]

omit [Observer η] in
theorem newVm_eq (w : World η) : (Native.newVm : Run (World η) φ (Option Address)) w =
    if w.hasFault .nullVm then (.value none, w)
    else if w.hasFault .sameVm then (.value w.lastVm?, w)
    else
      let a := w.placement.place w.serial w.taken
      (.value (some a),
        { w with
          serial := w.serial + 1
          natives := w.natives.insert a ⟨.create 0, true⟩
          calls := .create a :: w.calls
          lastVm? := some a }) := by
  unfold Native.newVm
  change (if w.hasFault .nullVm = true then (pure none : Run (World η) φ (Option Address))
    else if w.hasFault .sameVm = true then _ else _) w = _
  split
  · rfl
  · split <;> rfl

theorem create_eq {w : World η} (service : ServiceId) (config : VmConfig) {a : Address}
    (ha : a = w.placement.place w.serial w.taken) (hsame : w.hasFault .sameVm = false)
    (hnull : w.hasFault .nullVm = false) (hfree : a ∉ w.registered.keys) :
    Vm.create service config w =
      (.value ⟨w.nextVmId, true⟩,
        { w.withVm a service config.policy with
          serial := w.serial + 1
          lastVm? := some a
          host := Observer.log .debug ("created vm " ++ Text.Hex.address a) w.host }) := by
  have hnew := newVm_eq (φ := HostError) w
  rw [hnull, hsame, if_neg (by simp), if_neg (by simp), ← ha] at hnew
  have hadd := Table.tryAdd_of_not_mem w.nextVmId hfree
  refine (Run.bind_of_value hnew _).trans ?_
  simp only [bind, Run.bind, Run.modifyGet, hadd]
  rfl

/-- The creation of a machine: none is made, or one that is alive is given out again, or one is made
where nothing lies. -/
inductive Creation (w : World (Host η)) (service : ServiceId) (config : VmConfig) :
    Outcome HostError Vm × World (Host η) → Prop where
  | refused : Creation w service config (.fault .failedToCreateVm, w)
  | clash {a : Address} (ha : a ∈ w.registered.keys) :
      Creation w service config (fatal (.registrationConflict "vm" a) w)
  | created {a : Address} (ha : a ∉ w.natives.keys) :
      Creation w service config (.value ⟨w.nextVmId, true⟩,
        { w.withVm a service config.policy with
          serial := w.serial + 1
          lastVm? := some a
          host := Observer.log .debug ("created vm " ++ Text.Hex.address a) w.host })

theorem creation_of_roster {w : World (Host η)} (hr : Roster w) (service : ServiceId)
    (config : VmConfig)
    (hlast : (!w.hasFault .sameVm || w.lastVm?.all w.registered.contains) = true) :
    Creation w service config (Vm.create service config w) := by
  have hnew := newVm_eq (φ := HostError) w
  have hrefused : (Native.newVm : Act (Host η) (Option Address)) w = (.value none, w) →
      Creation w service config (Vm.create service config w) := by
    intro hnone
    have hrun : Vm.create service config w = (.fault .failedToCreateVm, w) :=
      (Run.bind_of_value hnone _).trans rfl
    rw [hrun]
    exact .refused
  cases hnull : w.hasFault .nullVm with
  | true =>
    rw [hnull, if_pos rfl] at hnew
    exact hrefused hnew
  | false =>
    cases hsame : w.hasFault .sameVm with
    | false =>
      have ha : w.placement.place w.serial w.taken ∉ w.natives.keys := fun hin =>
        w.placement.place_fresh _ _ (World.mem_taken_of_native hin)
      rw [create_eq service config rfl hsame hnull fun hin => ha (hr.native _ hin)]
      exact .created ha
    | true =>
      rw [hnull, hsame, if_neg (by simp), if_pos rfl] at hnew
      rw [hsame] at hlast
      cases hvm : w.lastVm? with
      | none =>
        rw [hvm] at hnew
        exact hrefused hnew
      | some a =>
        rw [hvm] at hnew hlast
        have ha : a ∈ w.registered.keys := Table.contains_iff.1 hlast
        have hadd := Table.tryAdd_of_mem w.nextVmId ha
        have hclash : Vm.create service config w = fatal (.registrationConflict "vm" a) w := by
          refine (Run.bind_of_value hnew _).trans ?_
          simp only [bind, Run.bind, Run.modifyGet, hadd]
          rfl
        rw [hclash]
        exact .clash ha

end ScriptHost.Bridge

