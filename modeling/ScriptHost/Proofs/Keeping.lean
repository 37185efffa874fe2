import ScriptHost.Proofs.Calls
import ScriptHost.Proofs.Refusals
import ScriptHost.Proofs.Tracking

/-!
# What a handle stands for

A handle is made for a value or a method and stands for it until it is released or its machine is gone,
whatever happens to the slots, to the objects and to other handles (`Step.stands`).  So what a value
handle puts into a slot is the value that it was made for, and what can be reached from this value
outlives every collection (`Setting.values_kept`).
-/

namespace ScriptHost.Machine

variable {h : Heap} {id : ObjectId}

/-- An object can be reached from a value. -/
def Heap.Reaches (h : Heap) (v : Value) (id : ObjectId) : Prop :=
  ∃ root, v.object? = some root ∧
    Relation.ReflTransGen (fun x y => y ∈ h.references x) root id

/-- What can be reached from one of the roots is marked. -/
theorem Heap.Reaches.mem_reachable {v : Value} {roots : List ObjectId} (hr : h.Reaches v id)
    (hv : ∀ root, v.object? = some root → root ∈ roots) : id ∈ h.reachable roots := by
  obtain ⟨root, hroot, hpath⟩ := hr
  induction hpath with
  | refl => exact Heap.mem_reachable_of_root (hv root hroot)
  | tail _ hlast ih => exact Heap.closed_reachable ih hlast

namespace State

variable {m : State} {v : Value} {x : Nat}

/-- The value of a handle is one of the roots. -/
theorem mem_roots_of_handle (hx : m.handles.find? x = some (.value v)) {root : ObjectId}
    (hroot : v.object? = some root) : root ∈ m.roots := by
  refine List.mem_filterMap.2 ⟨v, ?_, hroot⟩
  refine List.mem_append_right _ (List.mem_filterMap.2 ⟨.value v, ?_, rfl⟩)
  exact Table.mem_values_of_find? hx

/-- **What can be reached from the value of a handle survives a collection**, and what the collection
leaves to be finalized does not include it. -/
theorem sweep_of_handle (t : m.Tidy) (hx : m.handles.find? x = some (.value v))
    (hr : m.heap.Reaches v id) :
    m.sweep.2.heap.get? id = m.heap.get? id ∧
      ∀ owner block, m.heap.get? id = some (.foreign owner block) →
        ∀ d ∈ m.sweep.2.swept, d.block.address ≠ block.address := by
  have hmarked : id ∈ m.heap.reachable m.roots :=
    hr.mem_reachable fun root hroot => mem_roots_of_handle hx hroot
  have hget : m.sweep.2.heap.get? id = m.heap.get? id := by
    refine (Heap.get?_collect m.heap m.roots id).trans ?_
    rw [if_pos hmarked]
  refine ⟨hget, fun owner block hforeign d hd => ?_⟩
  have ht : m.sweep.2.Tidy := t.loses (Heap.loses_collect m.heap m.roots) rfl
  have hremains : m.sweep.2.heap.remains? id =
      some ⟨block, m.sweep.2.heap.finalizer? owner⟩ := by
    rw [Heap.remains?, hget, hforeign]
  exact (ht.waiting id _ hremains d hd).symm

end State

end ScriptHost.Machine

namespace ScriptHost.Bridge

open Machine (State HandleTarget Value)

variable {η α β : Type}

/-- A handle that the host was given stands for something, as long as it is valid. -/
def Stands (h : CallHandle) (target : HandleTarget) (w : World (Host η)) : Prop :=
  h ∈ w.host.handles ∧ ∀ a, w.LiveAt h.vm a → w.isValid h = true →
    (w.machine a).handles.find? h.address = some target

section

variable {h : CallHandle} {target : HandleTarget} {w w' : World (Host η)}

theorem Stands.congr (st : Stands h target w) (hhost : h ∈ w'.host.handles)
    (hkeep : ∀ a, w'.LiveAt h.vm a → w'.isValid h = true →
      w.LiveAt h.vm a ∧ w.isValid h = true ∧
        (w'.machine a).handles.find? h.address = (w.machine a).handles.find? h.address) :
    Stands h target w' := by
  refine ⟨hhost, fun a hl hv => ?_⟩
  obtain ⟨hl, hv, hfind⟩ := hkeep a hl hv
  rw [hfind]
  exact st.2 a hl hv

/-- A change of a machine that keeps its handles. -/
theorem Stands.putMachine (st : Stands h target w) {a : Address} {m : State}
    (hm : m.handles = (w.machine a).handles) : Stands h target (w.putMachine a m) := by
  refine st.congr st.1 fun b hl hv => ⟨hl, hv, ?_⟩
  rcases w.machine_putMachine a b m with ⟨hb, rfl⟩ | hb
  · rw [hb, hm]
  · rw [hb]

/-- A change of a machine that is not the one of the handle. -/
theorem Stands.other (st : Stands h target w) {a : Address} (ha : ¬ w.LiveAt h.vm a) (m : State) :
    Stands h target (w.putMachine a m) := by
  refine st.congr st.1 fun b hl hv => ⟨hl, hv, ?_⟩
  have hne : b ≠ a := by
    rintro rfl
    exact ha hl
  rw [World.machine_putMachine_ne w hne]

/-- A new handle lies at another address, or is a newer one at the same address. -/
theorem Stands.withHandle (st : Stands h target w) (hs : Sound w) {vm : VmId} {a x : Address}
    (hl : w.LiveAt vm a) (hx : x ∉ w.taken) (new : HandleTarget) :
    Stands h target (w.withHandle vm a x new) := by
  have hfree : x ∉ w.handles.keys := hs.books.not_mem_of_fresh hs.roster hx
  refine st.congr (List.mem_append_left _ st.1) fun b hlb hv => ?_
  rw [Books.liveAt_withHandle] at hlb
  rw [Books.isValid_withHandle_old hfree (hs.books.fresh h st.1)] at hv
  refine ⟨hlb, hv, ?_⟩
  have hne : h.address ≠ x := by
    rintro rfl
    obtain ⟨r, hr, -⟩ := World.isValid_iff.1 hv
    exact hfree (Table.mem_keys_of_find? hr)
  have hmachine : (w.withHandle vm a x new).machine b =
      (w.putMachine a ((w.machine a).storeHandle x new)).machine b := rfl
  rw [hmachine]
  rcases w.machine_putMachine a b ((w.machine a).storeHandle x new) with ⟨hb, rfl⟩ | hb
  · rw [hb]
    exact Table.find?_insert_ne _ _ hne
  · rw [hb]

/-- Releasing another handle leaves a handle alone. -/
theorem Stands.withoutHandle (st : Stands h target w) (hs : Sound w) {h' : CallHandle} {a : Address}
    (hm : h' ∈ w.host.handles) (hv' : w.isValid h' = true) :
    Stands h target (w.withoutHandle h' a) := by
  refine st.congr st.1 fun b hlb hv => ?_
  rw [Books.liveAt_withoutHandle] at hlb
  obtain ⟨hne, hv⟩ := (Books.isValid_withoutHandle hs.books hm hv' st.1).1 hv
  refine ⟨hlb, hv, ?_⟩
  have haddress : h.address ≠ h'.address := fun heq =>
    hne (hs.books.eq_of_address st.1 hm hv hv' heq)
  have hmachine : (w.withoutHandle h' a).machine b =
      (w.putMachine a ((w.machine a).releaseHandle h'.address)).machine b := rfl
  rw [hmachine]
  rcases w.machine_putMachine a b ((w.machine a).releaseHandle h'.address) with ⟨hb, rfl⟩ | hb
  · rw [hb]
    exact Table.find?_erase_ne _ haddress
  · rw [hb]

/-- **A handle stays valid behind every step but its own release.** -/
theorem Step.isValid (hstep : Step w w') (hs : Sound w) (hm : h ∈ w.host.handles)
    (hv : w.isValid h = true) :
    w'.isValid h = true ∨ ∃ a, w.LiveAt h.vm a ∧ w' = w.withoutHandle h a := by
  cases hstep with
  | adopt new _ hx =>
    have hfree := hs.books.not_mem_of_fresh hs.roster hx
    exact Or.inl ((Books.isValid_withHandle_old hfree (hs.books.fresh h hm)).trans hv)
  | @release h' a hm' hv' hl =>
    by_cases hh : h = h'
    · subst hh
      exact Or.inr ⟨a, hl, rfl⟩
    · exact Or.inl ((Books.isValid_withoutHandle hs.books hm' hv' hm).2 ⟨hh, hv⟩)
  | @finalize a d =>
    obtain ⟨services, hfinalized⟩ := w.finalized_eq a d
    rw [hfinalized]
    exact Or.inl hv
  | _ => exact Or.inl hv

/-- **A handle stands for the same behind every step.** -/
theorem Step.stands (hstep : Step w w') (hs : Sound w) (st : Stands h target w) :
    Stands h target w' := by
  cases hstep with
  | idle | watch | misreport | enter | use | found | serve =>
    exact st.congr st.1 fun a hl hv => ⟨hl, hv, rfl⟩
  | work _ hframe => exact st.putMachine hframe.handles
  | listen vm f =>
    refine st.congr st.1 fun a hl hv => ⟨?_, hv, rfl⟩
    exact (World.liveAt_modifyVm w vm (f := fun r => { r with listeners := f r.listeners })
      (fun _ => rfl) (fun _ => rfl) h.vm a).1 hl
  | create policy ha =>
    refine st.congr st.1 fun a hl hv => ⟨?_, hv, ?_⟩
    · have hne : h.vm ≠ w.nextVmId := Nat.ne_of_lt (hs.books.known h st.1)
      exact ((World.liveAt_withVm _ _ _ _ _ _).1 hl).resolve_left (fun hnew => hne hnew.1) |>.2
    · rw [World.machine_withVm ha]
  | adopt new hl hx => exact st.withHandle hs hl hx new
  | release hm hv' _ => exact st.withoutHandle hs hm hv'
  | @bear vm a x service owner m f hd =>
    have hput : Stands h target (w.putMachine a m) := st.putMachine hd.birth.handles
    exact hput.congr hput.1 fun b hl hv => ⟨hl, hv, rfl⟩
  | @retire vm a hl hout =>
    refine st.congr st.1 fun b hlb hv => ⟨?_, hv, rfl⟩
    exact ((World.liveAt_retired (World.mem_vms_of_isAlive hl.1) a h.vm b).1 hlb).2
  | sweep => exact st.putMachine rfl
  | drain _ ha => exact st.other (fun hl => ha (hs.roster.mem_registered hl)) _
  | @finalize a d =>
    have hput : Stands h target (w.putMachine a ((w.machine a).beginFinalizer d)) :=
      st.putMachine rfl
    obtain ⟨services, hfinalized⟩ := w.finalized_eq a d
    rw [hfinalized]
    exact hput.congr hput.1 fun b hl hv => ⟨hl, hv, rfl⟩
  | bury => exact st.putMachine rfl
  | @discard a report? ha =>
    refine st.congr st.1 fun b hl hv => ⟨hl, hv, ?_⟩
    have hb : b ≠ a := by
      rintro rfl
      exact ha (hs.roster.mem_registered hl)
    simp [World.machine, Table.find?_erase_ne _ hb]

/-- **A handle stands for the same behind any number of steps.** -/
theorem Steps.stands (hsteps : Steps w w') (hs : Sound w) (st : Stands h target w) :
    Stands h target w' :=
  (hsteps.preserve (P := fun w => Sound w ∧ Stands h target w)
    (fun hstep hw => ⟨hstep.sound hw.1, hstep.stands hw.1 hw.2⟩) ⟨hs, st⟩).2

end

/-! ## Making and using a handle -/

section

variable [Observer η] {h : CallHandle} {target : HandleTarget} {w w₁ t : World (Host η)}
  {s : Slot} {v : Value} {a : Address}

omit [Observer η] in
/-- A handle that has just been made stands for what it was made for. -/
theorem stands_new (hs : Sound w) {vm : VmId} (hl : w.LiveAt vm a) (x : Address)
    (target : HandleTarget) :
    Stands ⟨x, w.nextHandleId, vm⟩ target (w.withHandle vm a x target) := by
  refine ⟨List.mem_append_right _ (List.mem_singleton_self _), fun b hlb _ => ?_⟩
  obtain rfl : b = a := ((Books.liveAt_withHandle _ _).1 hlb).2.symm.trans hl.2
  have hmachine : (w.withHandle vm b x target).machine b = (w.machine b).storeHandle x target :=
    World.machine_putMachine_self (hs.roster.mem_natives hl) _
  rw [hmachine]
  exact Table.find?_insert_self ..

/-- What a machine makes for the host and the bridge adopts stands for what was asked for. -/
theorem stands_makeHandle (hs : Sound w) {vm : VmId} (hl : w.LiveAt vm a) (operation : String)
    (target : State → HandleTarget)
    (hmade : (do
      let made? ← Native.newHandle a fun m x => m.storeHandle x (target m)
      let h ← CallHandle.adopt vm made? operation
      Run.modify fun w => w.recordHandle h
      return h : Act (Host η) CallHandle) w = (.value h, w₁)) :
    h.vm = vm ∧ Stands h (target (w.machine a)) w₁ := by
  have hsame := hasFault_of_roster hs.roster (f := .sameHandle) rfl
  have hnew := newHandle_eq (φ := HostError) hsame a fun m x => m.storeHandle x (target m)
  cases hnull : w.hasFault .nullHandle with
  | true =>
    rw [hnull, if_pos rfl] at hnew
    rw [Run.bind_of_value hnew] at hmade
    cases hmade
  | false =>
    rw [hnull, if_neg (by simp)] at hnew
    let x := w.placement.place w.serial w.taken
    have hx : x ∉ w.taken := w.placement.place_fresh _ _
    have hfree : x ∉ w.handles.keys := hs.books.not_mem_of_fresh hs.roster hx
    obtain rfl : w.addressOf vm = a := hl.2
    let w' : World (Host η) :=
      { w with
        serial := w.serial + 1
        calls := .makeHandle (w.addressOf vm) x :: w.calls
        natives := (w.putMachine (w.addressOf vm) ((w.machine (w.addressOf vm)).storeHandle x
          (target (w.machine (w.addressOf vm))))).natives
        lastHandle? := some x }
    have hadopt := adopt_eq (w := w') hfree vm operation
    have hadopted := (Run.bind_of_value hnew _).symm.trans hmade
    cases (Run.bind_of_value hadopt _).symm.trans hadopted
    have hstands := stands_new hs hl x (target (w.machine (w.addressOf vm)))
    exact ⟨rfl, hstands.congr hstands.1 fun b hlb hv => ⟨hlb, hv, rfl⟩⟩

/-- The slot for which a value handle was made exists. -/
theorem slot_of_getHandle
    (hmade : (Operation.recordingHandle s.getHandle : Act (Host η) CallHandle) w =
      (.value h, w₁)) :
    (w.machine (w.addressOf s.vm)).slots[s.index]? =
      some ((w.machine (w.addressOf s.vm)).slot s.index) := by
  unfold Operation.recordingHandle Slot.getHandle at hmade
  simp only [bind_assoc] at hmade
  obtain ⟨a, t, hchecked, -⟩ := Run.value_of_bind hmade
  obtain ⟨hl, hindex, -⟩ := slot_of_checked hchecked
  obtain rfl : w.addressOf s.vm = a := hl.2
  obtain ⟨v, hv, hslot⟩ := State.exists_slot hindex
  rw [hv, hslot]

/-- **A value handle stands for the value that was in the slot.** -/
theorem stands_getHandle (hs : Sound w)
    (hmade : (Operation.recordingHandle s.getHandle : Act (Host η) CallHandle) w =
      (.value h, w₁)) :
    h.vm = s.vm ∧ Stands h (.value ((w.machine (w.addressOf s.vm)).slot s.index)) w₁ := by
  unfold Operation.recordingHandle Slot.getHandle at hmade
  simp only [bind_assoc] at hmade
  obtain ⟨a, t, hchecked, hrest⟩ := Run.value_of_bind hmade
  obtain ⟨hl, rfl⟩ := live_of_checked hchecked
  obtain rfl : w.addressOf s.vm = a := hl.2
  exact stands_makeHandle (hs.of_intact (.note w _)) hl _ (fun m => .value (m.slot s.index)) hrest

omit [Observer η] in
/-- What a value handle puts into a slot. -/
theorem setHandle_eq (hl : w.LiveAt s.vm a) (hvm : h.vm = s.vm) (hvalid : w.isValid h = true)
    (hcount : w.hasFault .negativeSlotCount = false) (hindex : s.index < (w.machine a).slots.length)
    (hfind : (w.machine a).handles.find? h.address = some (.value v)) :
    (s.setHandle h : Act (Host η) Unit) w =
      (.value (), ((w.note (.enter a)).note (.useHandle a h.address)).putMachine a
        { w.machine a with slots := (w.machine a).slots.set s.index v }) := by
  have hchecked := checked_of_slot hl hcount hindex "set_handle"
  have hhandle : (h.checked s.vm "set_handle" : Act (Host η) Address) (w.note (.enter a)) =
      (.value h.address, w.note (.enter a)) := by
    have hbelongs : (!h.belongsTo s.vm) = false := by
      simp [CallHandle.belongsTo, hvm]
    have hlive : (w.note (.enter a)).isLiveHandle h.address h.id = true := hvalid
    unfold CallHandle.checked
    rw [hbelongs]
    simp only [Bool.false_eq_true, if_false, CallHandle.isValid, Run.gets, bind, Run.bind, hlive]
    rfl
  have hset : ((w.note (.enter a)).machine a).setSlotHandle s.index h.address =
      { w.machine a with slots := (w.machine a).slots.set s.index v } := by
    have hfind' : ((w.note (.enter a)).machine a).handles.find? h.address = some (.value v) := hfind
    rw [State.setSlotHandle, hfind']
    exact State.setSlot_natCast _ _ _
  unfold Slot.setHandle
  rw [Run.bind_of_value hchecked, Run.bind_of_value hhandle]
  refine Prod.ext rfl ?_
  rw [← hset]
  rfl

omit [Observer η] in
/-- A handle that a machine accepts is one of its own, and valid. -/
theorem valid_of_checkedHandle {vm : VmId} {operation : String}
    (hchecked : (h.checked vm operation : Act (Host η) Address) w = (.value a, t)) :
    h.vm = vm ∧ w.isValid h = true := by
  cases hvalid : w.isValid h with
  | false =>
    obtain ⟨e, hfault⟩ := checked_of_stale hvalid vm operation
    cases hfault.symm.trans hchecked
  | true =>
    refine ⟨?_, rfl⟩
    unfold CallHandle.checked at hchecked
    split at hchecked
    · cases hchecked
    · rename_i hbelongs
      simpa [CallHandle.belongsTo] using hbelongs

omit [Observer η] in
/-- A slot into which a value handle was put exists, and is one of the machine of the handle. -/
theorem slot_of_setHandle {w : World (Host η)}
    (hset : (s.setHandle h : Act (Host η) Unit) w = (.value (), t)) :
    h.vm = s.vm ∧ w.hasFault .negativeSlotCount = false ∧
      s.index < (w.machine (w.addressOf s.vm)).slots.length := by
  obtain ⟨a, u, hchecked, hrest⟩ := Run.value_of_bind hset
  obtain ⟨x, _, hhandle, _⟩ := Run.value_of_bind hrest
  obtain ⟨hl, hindex, -⟩ := slot_of_checked hchecked
  obtain rfl : w.addressOf s.vm = a := hl.2
  exact ⟨(valid_of_checkedHandle hhandle).1, hasFault_of_checked hchecked, hindex⟩

end

section

variable [Observer η]

/-- What it means that a handle of the machine at `a` stands for a value. -/
structure World.Keeps (engines : List Address → Engine (Host η)) (active : List Address) (h : CallHandle)
    (v : Value) (a : Address) (w : World (Host η)) : Prop where
  alive : w.LiveAt h.vm a
  /-- Nothing but its release ends a handle. -/
  lasts : ∀ w', Step w w' → w'.isValid h = true ∨ w' = w.withoutHandle h a
  /-- Every slot of its machine takes the handle. -/
  accepted : ∀ s : Slot, s.vm = h.vm → s.index < (w.machine a).slots.length →
    w.hasFault .negativeSlotCount = false →
      ((Operation.setHandle s h).run engines active w).1 = .value ()
  /-- What the handle puts into a slot is the value, and nothing else happens. -/
  stores : ∀ s t, (Operation.setHandle s h).run engines active w = (.value (), t) →
    s.vm = h.vm ∧ s.index < (w.machine a).slots.length ∧
      t = ((w.note (.enter a)).note (.useHandle a h.address)).putMachine a
        { w.machine a with slots := (w.machine a).slots.set s.index v }
  /-- A collection sweeps, and finalizes what it has swept. -/
  collects : ∀ e : Engine (Host η), Vm.collectGarbage e h.vm w =
    onMachine e.delegates a (fun cb _ => Machine.finalizeAll cb (w.machine a).sweep.1
      ⟨(w.machine a).sweep.2, w.note (.enter a)⟩) (w.note (.enter a))
  /-- The sweep leaves what can be reached from the value as it is, -/
  survives : ∀ id, (w.machine a).heap.Reaches v id →
    (w.machine a).sweep.2.heap.get? id = (w.machine a).heap.get? id
  /-- and nothing of it is among what is to be finalized. -/
  spared : ∀ id owner block, (w.machine a).heap.Reaches v id →
    (w.machine a).heap.get? id = some (.foreign owner block) →
      ∀ d ∈ (w.machine a).sweep.1, d.block.address ≠ block.address

namespace Setting

variable {w w₁ w₂ : World (Host η)} {slot : Slot} {h : CallHandle}

/-- **A value handle stands for the value that was in the slot until it is released**, whatever happens
in between. -/
theorem values_kept (s : Setting η) (hsteps : Steps s.start w)
    (engines : List Address → Engine (Host η)) (active : List Address)
    (hmade : (Operation.getHandle slot).run engines active w = (.value h, w₁))
    (hlater : Steps w₁ w₂) (hvalid : w₂.isValid h = true) :
    ∃ v a, (w.machine (w.addressOf slot.vm)).slots[slot.index]? = some v ∧ h.vm = slot.vm ∧
      w₂.Keeps engines active h v a := by
  have hs : Sound w := hsteps.sound s.steady_start.sound
  have hmade' : (Operation.recordingHandle slot.getHandle : Act (Host η) CallHandle) w =
      (.value h, w₁) := hmade
  obtain ⟨hvm, hstands₁⟩ := stands_getHandle hs hmade'
  -- the making of the handle is itself a run of steps
  have hmaking : Steps w w₁ := by
    have hdeeds := (deed_getHandle (P := fun _ => True) (S := .all) (s := slot) trivial w).1
    rw [hmade'] at hdeeds
    exact (hdeeds.calm hs).1
  have hs₁ : Sound w₁ := hmaking.sound hs
  have hs₂ : Sound w₂ := hlater.sound hs₁
  obtain ⟨hmember, hstands⟩ := hlater.stands hs₁ hstands₁
  obtain ⟨a, hl, -⟩ := hs₂.books.exists_liveAt hmember hvalid
  have hfind := hstands a hl hvalid
  have htidy : (w₂.machine a).Tidy :=
    (tracking_of_steps ((hsteps.trans hmaking).trans hlater)).tidy a
  refine ⟨_, a, slot_of_getHandle hmade', hvm, hl, fun w₃ hstep => ?_,
    fun into hinto hindex hcount => ?_, fun into t hset => ?_, fun e => ?_,
    fun id hreach => ?_, fun id owner block hreach hforeign d hd => ?_⟩
  · refine (hstep.isValid hs₂ hmember hvalid).imp_right fun ⟨b, hlb, heq⟩ => ?_
    rw [heq, ← hl.2, ← hlb.2]
  · exact congrArg Prod.fst (setHandle_eq (hinto ▸ hl) hinto.symm hvalid hcount hindex hfind)
  · have hset' : (into.setHandle h : Act (Host η) Unit) w₂ = (.value (), t) := hset
    obtain ⟨hinto, hcount, hindex⟩ := slot_of_setHandle hset'
    obtain rfl : w₂.addressOf into.vm = a := hinto ▸ hl.2
    have heq := setHandle_eq (hinto ▸ hl) hinto hvalid hcount hindex hfind
    exact ⟨hinto.symm, hindex, congrArg Prod.snd (hset'.symm.trans heq)⟩
  · have hlive : live h.vm "collect_garbage" w₂ = (.value a, w₂) := by
      rw [live_of_alive hl.1, hl.2]
    exact (Run.bind_of_value hlive _).trans rfl
  · exact (State.sweep_of_handle htidy hfind hreach).1
  · exact (State.sweep_of_handle htidy hfind hreach).2 owner block hforeign d
      (List.mem_append_left _ hd)

end Setting

end

namespace Setting

/-- Asks for a handle of the list. -/
def handling : Outcome HostError CallHandle × World (Host Unit) :=
  (Operation.getHandle ⟨1, 0⟩).run silent.engines [] listed

/-- The world in which the list has a handle, and is in no slot any more. -/
def unslotted : World (Host Unit) :=
  handling.2.putMachine 2 ((handling.2.machine 2).setSlot 0 .null)

theorem unslotted_eq :
    (handling.1, handling.2.registered.keys, unslotted.isValid ⟨3, 1, 1⟩, unslotted.addressOf 1,
      (unslotted.machine 2).slots) = (.value ⟨3, 1, 1⟩, [2], true, 2, [.null, .null]) := by
  cbv

/-- The list is kept by its handle. -/
theorem values_kept_unslotted :
    (unslotted.machine 2).slots = [.null, .null] ∧
      unslotted.Keeps silent.engines [] ⟨3, 1, 1⟩ (.object 3) 2 := by
  have hsteps : Steps silent.start listed := silent.steps_run .listing
  have hmade : (Operation.getHandle ⟨1, 0⟩).run silent.engines [] listed =
      (.value ⟨3, 1, 1⟩, handling.2) := Prod.ext (congrArg (·.1) unslotted_eq) rfl
  have hkeys : handling.2.registered.keys = [2] := congrArg (·.2.1) unslotted_eq
  have hregistered : 2 ∈ handling.2.registered.keys := by
    rw [hkeys]
    exact List.mem_singleton_self 2
  have hlater : Steps handling.2 unslotted :=
    .single (.work hregistered (State.frame_setSlot _ 0 .null))
  have hvalid : unslotted.isValid ⟨3, 1, 1⟩ = true := congrArg (·.2.2.1) unslotted_eq
  have haddress : unslotted.addressOf 1 = 2 := congrArg (·.2.2.2.1) unslotted_eq
  have hbefore : listed.addressOf 1 = 2 := congrArg (·.2.1) listed_eq
  have hslots : (listed.machine 2).slots = [.object 3, .null] := congrArg (·.2.2.1) listed_eq
  obtain ⟨v, a, hv, -, hkeeps⟩ :=
    silent.values_kept hsteps silent.engines [] hmade hlater hvalid
  obtain rfl : a = 2 := hkeeps.alive.2.symm.trans haddress
  rw [hbefore, hslots] at hv
  cases hv
  exact ⟨congrArg (·.2.2.2.2) unslotted_eq, hkeeps⟩

end Setting

end ScriptHost.Bridge
