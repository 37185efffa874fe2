import ScriptHost.Proofs.Calls
import ScriptHost.Proofs.Tracking

/-!
# Machines do not disturb each other

All machines share one table of machines and handles, and those of a service share its registry of
payloads, which knows data blocks by their raw addresses.  Still, work on some machines leaves
everything that belongs to another one as it was (`Untouched`): every step is made on one machine,
handles and data blocks of different machines lie at different addresses, and the finalizers of a
machine take out payloads of its own objects only.  So what no running machine does by itself leaves
the other machine alone (`Chore.untouched`), and by the recursion of programs, callbacks and
collections so does every operation.

An operation whose operands are of different machines gives an error and does nothing
(`rejects_operation`).
-/

namespace ScriptHost.Bridge

open Machine (State Frame Dead Block)
open Run (Within)

variable {η φ α β : Type}

/-! ## What belongs to a machine -/

/-- Everything that belongs to the machine `vm` at `a` is as it was. -/
structure Untouched (vm : VmId) (a : Address) (w w' : World (Host η)) : Prop where
  /-- Its listeners and user data, its service and policy, and its outstanding handles. -/
  record : w'.vm vm = w.vm vm
  /-- Its slots, heap, modules and handles. -/
  native : w'.natives.find? a = w.natives.find? a
  registered : w'.registered.find? a = w.registered.find? a
  /-- The table holds the same handles of it. -/
  handles : ∀ x r, r.vm = a → (w'.handles.find? x = some r ↔ w.handles.find? x = some r)
  /-- The payloads of its foreign objects, in whichever service. -/
  entries : ∀ d, (w.machine a).Carries d → ∀ service,
    (w'.service service).payloads.entries.find? d.block.address =
      (w.service service).payloads.entries.find? d.block.address

namespace Untouched

variable {vm : VmId} {a : Address} {w w' w₁ w₂ w₃ : World (Host η)}

theorem machine (h : Untouched vm a w w') : w'.machine a = w.machine a := by
  rw [World.machine, World.machine, h.native]

theorem refl (vm : VmId) (a : Address) (w : World (Host η)) : Untouched vm a w w :=
  ⟨rfl, rfl, rfl, fun _ _ _ => Iff.rfl, fun _ _ _ => rfl⟩

theorem trans (h : Untouched vm a w₁ w₂) (h' : Untouched vm a w₂ w₃) : Untouched vm a w₁ w₃ := by
  refine ⟨h'.record.trans h.record, h'.native.trans h.native, h'.registered.trans h.registered,
    fun x r hr => (h'.handles x r hr).trans (h.handles x r hr), fun d hd service => ?_⟩
  have hd' : (w₂.machine a).Carries d := by
    rw [h.machine]
    exact hd
  exact (h'.entries d hd' service).trans (h.entries d hd service)

theorem liveAt (h : Untouched vm a w w') : w'.LiveAt vm a ↔ w.LiveAt vm a := by
  rw [World.LiveAt, World.LiveAt, h.record]

/-- Nothing changes but what belongs to no machine. -/
theorem of_eq (hvms : w'.vms = w.vms) (hnatives : w'.natives = w.natives)
    (hregistered : w'.registered = w.registered) (hhandles : w'.handles = w.handles)
    (hservices : w'.services = w.services) : Untouched vm a w w' := by
  refine ⟨?_, by rw [hnatives], by rw [hregistered], fun x r _ => by rw [hhandles],
    fun d _ service => ?_⟩
  · rw [World.vm, World.vm, hvms]
  · rw [World.service, World.service, hservices]

/-- Another machine changes. -/
theorem putMachine {b : Address} (h : a ≠ b) (w : World (Host η)) (m : State) :
    Untouched vm a w (w.putMachine b m) :=
  ⟨rfl, Table.find?_modify_ne _ _ h, rfl, fun _ _ _ => Iff.rfl, fun _ _ _ => rfl⟩

/-- What is known of another machine changes. -/
theorem modifyVm {id : VmId} (h : vm ≠ id) (w : World (Host η)) (f : VmRecord → VmRecord) :
    Untouched vm a w (w.modifyVm id f) :=
  ⟨World.vm_modifyVm_ne w h f, rfl, rfl, fun _ _ _ => Iff.rfl, fun _ _ _ => rfl⟩

/-- A service changes, but none of the payloads of the machine. -/
theorem modifyService {id : ServiceId} {f : Service → Service}
    (h : ∀ d, (w.machine a).Carries d →
      (f (w.service id)).payloads.entries.find? d.block.address =
        (w.service id).payloads.entries.find? d.block.address) :
    Untouched vm a w (w.modifyService id f) := by
  refine ⟨rfl, rfl, rfl, fun _ _ _ => Iff.rfl, fun d hd service => ?_⟩
  by_cases hid : service = id
  · subst hid
    by_cases hk : service ∈ w.services.keys
    · rw [World.service_modifyService_self hk]
      exact h d hd
    · have hsame : w.modifyService service f = w := by
        rw [World.modifyService, Table.modify_of_none (Table.find?_eq_none_iff.2 hk)]
      rw [hsame]
  · rw [World.service_modifyService_ne w hid]

end Untouched

/-! ## Deeds and chores on other machines -/

section

variable {vm id : VmId} {a b x : Address} {w w' : World (Host η)}

/-- Different machines lie at different addresses. -/
theorem Roster.address_ne (hr : Roster w) (hl : w.LiveAt vm a) (hl' : w.LiveAt id b)
    (hne : id ≠ vm) : a ≠ b := by
  rintro rfl
  exact hne (hr.eq_of_liveAt hl' hl)

/-- A data block that a slot tells of is none of another machine. -/
theorem Tracking.ne_of_tells (t : Tracking w) (hne : a ≠ b) (hx : Tells (w.machine b) x) {d : Dead}
    (hd : (w.machine a).Carries d) : d.block.address ≠ x := by
  rintro rfl
  rcases hx with hzero | ⟨index, block, hblock, haddress⟩
  · obtain ⟨service, hattached⟩ := t.attached a d hd
    exact hattached.pos hzero
  · obtain ⟨object, -, hobject⟩ := Option.bind_eq_some_iff.1 hblock
    obtain ⟨owner, hforeign⟩ : ∃ owner, (w.machine b).heap.foreign? object = some (owner, block) := by
      unfold Machine.Heap.block? at hobject
      split at hobject
      · next owner found hget =>
        cases hobject
        exact ⟨owner, by rw [Machine.Heap.foreign?, hget]⟩
      · exact absurd hobject (by simp)
    exact hne (t.apart a b d _ hd (State.carries_of_foreign? hforeign) haddress.symm)

/-- The payload of an object of another machine is taken out. -/
theorem untouched_unload {block : Block}
    (h : ∀ d, (w.machine a).Carries d → d.block.address ≠ block.address) :
    Untouched vm a w (w.unload block) := by
  unfold World.unload
  split
  · exact .refl vm a w
  · split
    · exact .refl vm a w
    · exact .modifyService fun d hd => Table.find?_erase_ne _ (h d hd)

variable [Observer η] {P : VmId → Prop} {S : Powers}

/-- **A deed on another machine leaves a machine alone.** -/
theorem Deed.untouched (h : Deed P S w w') (hs : Sound w) (t : Tracking w) (hl : w.LiveAt vm a)
    (hP : ¬ P vm) : Untouched vm a w w' := by
  have hother : ∀ {id b}, P id → w.LiveAt id b → vm ≠ id ∧ a ≠ b := by
    intro id b hid hlive
    have hne : id ≠ vm := by
      rintro rfl
      exact hP hid
    exact ⟨hne.symm, hs.roster.address_ne hl hlive hne⟩
  cases h with
  | idle | enter | use => exact .of_eq rfl rfl rfl rfl rfl
  | edit hid hlive _ => exact .putMachine (hother hid hlive).2 w _
  | enrol _ h _ => exact .modifyService fun d _ => by rw [h]
  | @found service h =>
    refine ⟨rfl, rfl, rfl, fun _ _ _ => Iff.rfl, fun d _ other => ?_⟩
    by_cases ho : other = service
    · subst ho
      simp only [World.service, Table.find?_insert_self, Table.find?_eq_none_iff.2 h]
      rfl
    · simp only [World.service, Table.find?_insert_ne _ _ ho]
  | @listen id hid f =>
    refine .modifyVm (fun hsame => ?_) w _
    subst hsame
    exact hP hid
  | @adopt id b x target hid hlive hx _ =>
    obtain ⟨hvm, hne⟩ := hother hid hlive
    have hput : Untouched vm a w (w.putMachine b ((w.machine b).storeHandle x target)) :=
      .putMachine hne w _
    refine ⟨?_, hput.native, rfl, fun y r hr => ?_, fun _ _ _ => rfl⟩
    · exact World.vm_modifyVm_ne w hvm _
    · by_cases hy : y = x
      · have hnone := Table.find?_eq_none_iff.2 (hs.books.not_mem_of_fresh hs.roster hx)
        rw [World.withHandle, hy, Table.find?_insert_self, hnone]
        refine ⟨fun h => ?_, fun h => absurd h (by simp)⟩
        obtain rfl := Option.some.inj h
        exact absurd hr hne.symm
      · rw [World.withHandle, Table.find?_insert_ne _ _ hy]
  | @release m b hid hmade hvalid hlive =>
    obtain ⟨hvm, hne⟩ := hother hid hlive
    have hput : Untouched vm a w (w.putMachine b ((w.machine b).releaseHandle m.address)) :=
      .putMachine hne w _
    refine ⟨?_, hput.native, rfl, fun y r hr => ?_, fun _ _ _ => rfl⟩
    · exact World.vm_modifyVm_ne w hvm _
    · by_cases hy : y = m.address
      · obtain ⟨c, hlive', hfind⟩ := hs.books.exists_liveAt hmade hvalid
        obtain rfl : c = b := hlive'.2.symm.trans hlive.2
        rw [World.withoutHandle, hy, Table.find?_erase_self, hfind]
        refine ⟨fun h => absurd h (by simp), fun h => ?_⟩
        obtain rfl := Option.some.inj h
        exact absurd hr hne.symm
      · rw [World.withoutHandle, Table.find?_erase_ne _ hy]
  | @bear id b x service owner index m f hid _ _ h =>
    have hd := h.delivery
    obtain ⟨-, hne⟩ := hother hid hd.live
    have hput : Untouched vm a w (w.putMachine b m) := .putMachine hne w m
    have hserve : Untouched vm a (w.putMachine b m) ((w.putMachine b m).modifyService service f) := by
      refine .modifyService fun d hcarries => h.gains.find?_ne ?_
      rw [hput.machine] at hcarries
      exact World.address_ne_of_fresh hd.fresh hcarries
    exact (hput.trans hserve).trans (.of_eq rfl rfl rfl rfl rfl)
  | @assign id b x p payloads hid _ hlive hx h =>
    obtain ⟨-, hne⟩ := hother hid hlive
    obtain ⟨e, -, -, rfl⟩ := setValue_eq h
    exact .modifyService fun d hd => Table.find?_insert_ne _ _ (t.ne_of_tells hne hx hd)

/-- **A chore on another machine leaves a machine alone.** -/
theorem Chore.untouched {K : Regime η} (h : Chore K w w') (hs : Sound w) (t : Tracking w)
    (hl : w.LiveAt vm a) (hP : ¬ K.allows vm) : Untouched vm a w w' := by
  have howned : ∀ {b}, K.Owns w b → a ≠ b := by
    rintro _ ho rfl
    exact hP (ho vm ((hs.roster.registered a vm).2 hl))
  have hgiven : ∀ {b}, b ∉ w.registered.keys → a ≠ b := by
    rintro _ hb rfl
    exact hb (hs.roster.mem_registered hl)
  cases h with
  | deed h => exact h.untouched hs t hl hP
  | watch | keep | misreport => exact .of_eq rfl rfl rfl rfl rfl
  | @create b service policy ha _ =>
    have hold : vm ≠ w.nextVmId :=
      Nat.ne_of_lt (hs.roster.known vm (World.mem_vms_of_isAlive hl.1))
    have hne : a ≠ b := by
      rintro rfl
      exact ha (hs.roster.mem_natives hl)
    exact ⟨World.vm_withVm_ne w b service policy hold, Table.find?_insert_ne _ _ hne,
      Table.find?_insert_ne _ _ hne, fun _ _ _ => Iff.rfl, fun _ _ _ => rfl⟩
  | @retire id b hid hlive _ =>
    have hvm : vm ≠ id := by
      rintro rfl
      exact hP hid
    have hne := hs.roster.address_ne hl hlive hvm.symm
    exact ⟨World.vm_retired_ne w hvm b, rfl, Table.find?_erase_ne _ hne, fun _ _ _ => Iff.rfl,
      fun _ _ _ => rfl⟩
  | discard report? h _ _ _ =>
    exact ⟨rfl, Table.find?_erase_ne _ (hgiven h), rfl, fun _ _ _ => Iff.rfl, fun _ _ _ => rfl⟩

omit [Observer η] in
/-- **A step of a collection of another machine leaves a machine alone.** -/
theorem Sweeping.untouched {l : Licence η} (h : Sweeping l w w') (hs : Sound w) (t : Tracking w)
    (hl : w.LiveAt vm a) (hP : ¬ l.allows vm) : Untouched vm a w w' := by
  have howned : ∀ {b}, l.Owns w b → a ≠ b := by
    rintro _ ho rfl
    exact hP (ho vm ((hs.roster.registered a vm).2 hl))
  cases h with
  | sweep ho _ | bury ho _ => exact .putMachine (howned ho) w _
  | drain _ h =>
    refine .putMachine (fun heq => h ?_) w _
    exact heq ▸ hs.roster.mem_registered hl
  | @finalize b dead rest ho hb hswept =>
    have hput : Untouched vm a w (w.putMachine b ((w.machine b).beginFinalizer dead)) :=
      .putMachine (howned ho) w _
    have hdead : (w.machine b).Carries dead := Or.inr (by rw [hswept]; exact List.mem_cons_self)
    unfold World.finalized
    split
    · refine hput.trans (untouched_unload fun d hd haddress => ?_)
      rw [hput.machine] at hd
      exact howned ho (t.apart a b d dead hd hdead haddress)
    · exact hput

end

/-! ## Operations on other machines -/

/-- Code that acts only on machines that `A` holds of. -/
def Licence.on (A : VmId → Prop) : Licence η := { Licence.free with allows := A }

/-- What work keeps that acts on other machines than the one at `a`. -/
def Regime.beside (A : VmId → Prop) (vm : VmId) (a : Address) : Regime η :=
  { Licence.on A with
    pre := fun w => Tracking w ∧ w.LiveAt vm a
    rel := fun _ => Untouched vm a
    ends := Untouched vm a }

section

variable [Observer η] {A : VmId → Prop} {vm : VmId} {a : Address}

omit [Observer η] in
/-- A step that leaves the machine alone keeps what must hold between steps. -/
theorem Step.beside {w w' : World (Host η)} (hstep : Step w w') (hs : Sound w)
    (hp : Tracking w ∧ w.LiveAt vm a) (h : Untouched vm a w w') :
    (Tracking w' ∧ w'.LiveAt vm a) ∧ ∀ _ : List Address, Untouched vm a w w' :=
  ⟨⟨hstep.tracking hs.roster hp.1, h.liveAt.2 hp.2⟩, fun _ => h⟩

/-- **All work that acts on other machines leaves a machine alone.** -/
theorem upheld_beside (hA : ¬ A vm) : (Regime.beside A vm a : Regime η).Upheld := by
  have hlawful : (Regime.beside A vm a : Regime η).Lawful :=
    { refl := fun _ w => .refl vm a w
      trans := .trans
      weaken := fun _ h => h
      append := .trans
      leave := fun h => h
      chore := fun hs hp h => (h.step hs).beside hs hp (h.untouched hs hp.1 hp.2 hA)
      sweeping := fun hs hp h => (h.step.beside hs hp (h.untouched hs hp.1 hp.2 hA)).1 }
  have hruns := hlawful.runs fun {active w id b m} hs hp hl hid hm => by
    have hne : id ≠ vm := by
      rintro rfl
      exact hA hid
    have hput : Untouched vm a w (w.putMachine b m) :=
      .putMachine (hs.roster.address_ne hp.2 hl hne) w m
    obtain ⟨hp', hrel⟩ := (Step.work (hs.roster.mem_registered hl) hm).beside hs hp hput
    exact ⟨hp', hrel active⟩
  exact { lawful := hlawful, runs := hruns, frank := fun _ => Machine.Rights.le_all _
          sweeps := fun _ _ _ hs hp h _ => h.untouched hs hp.1 hp.2 hA }

end

/-! ## Operands of different machines -/

/-- A computation that gives an error and does nothing but call into machines to check operands. -/
def Rejects (x : Act η β) : Prop := ∀ w, ∃ e calls, x w = (.fault e, { w with calls })

theorem rejects_bind {x : Act η α} (hx : Rejects x) (f : α → Act η β) : Rejects (x >>= f) := by
  intro w
  obtain ⟨e, calls, hfault⟩ := hx w
  exact ⟨e, calls, Run.bind_of_fault hfault f⟩

/-- What is checked before does nothing else either. -/
theorem rejects_checked_bind (s : Slot) (operation : String) {f : Address → Act η β}
    (hf : ∀ a, Rejects (f a)) : Rejects (s.checked operation >>= f) := by
  intro w
  cases halive : (w.vm s.vm).isAlive with
  | false =>
    have hfault : s.checked operation w = _ :=
      Run.bind_of_fault (live_of_dead halive operation) _
    exact ⟨_, w.calls, Run.bind_of_fault hfault f⟩
  | true =>
    let w₁ := w.note (.enter (w.addressOf s.vm))
    let count := Native.toldCount w₁ .negativeSlotCount (w₁.machine (w.addressOf s.vm)).slotCount
    have hrun : s.checked operation w =
        (if s.index < count then pure (w.addressOf s.vm)
          else Run.fault (.slotOutOfRange s.index count) : Act η Address) w₁ :=
      Run.bind_of_value (live_of_alive halive operation) _
    by_cases hindex : s.index < count
    · rw [if_pos hindex] at hrun
      obtain ⟨e, calls, hfault⟩ := hf (w.addressOf s.vm) w₁
      exact ⟨e, calls, (Run.bind_of_value hrun f).trans hfault⟩
    · rw [if_neg hindex] at hrun
      exact ⟨_, w₁.calls, Run.bind_of_fault hrun f⟩

theorem rejects_live_bind (vm : VmId) (operation : String) {f : Address → Act η β}
    (hf : ∀ a, Rejects (f a)) : Rejects (live vm operation >>= f) := by
  intro w
  cases halive : (w.vm vm).isAlive with
  | false => exact ⟨_, w.calls, Run.bind_of_fault (live_of_dead halive operation) f⟩
  | true =>
    obtain ⟨e, calls, hfault⟩ := hf (w.addressOf vm) w
    exact ⟨e, calls, (Run.bind_of_value (live_of_alive halive operation) f).trans hfault⟩

theorem rejects_ensureSameVm {s : Slot} {vm : VmId} (h : s.vm ≠ vm) (operation : String)
    (f : Unit → Act η β) : Rejects (s.ensureSameVm vm operation >>= f) := by
  refine rejects_bind (fun w => ?_) f
  unfold Slot.ensureSameVm
  rw [if_neg h]
  exact ⟨_, w.calls, rfl⟩

theorem rejects_handle {h : CallHandle} {vm : VmId} (hne : h.vm ≠ vm) (operation : String) :
    Rejects (h.checked vm operation : Act η Address) := by
  intro w
  unfold CallHandle.checked
  rw [if_pos (by simp [CallHandle.belongsTo, hne])]
  exact ⟨_, w.calls, rfl⟩

theorem rejects_mapOperands {s key : Slot} {other? : Option Slot} (operation : String)
    (h : key.vm ≠ s.vm ∨ ∃ other, other? = some other ∧ other.vm ≠ s.vm) :
    Rejects (s.mapOperands key other? operation : Act η Address) := by
  by_cases hkey : key.vm = s.vm
  · obtain ⟨other, rfl, hother⟩ := h.resolve_left fun hne => hne hkey
    unfold Slot.mapOperands Slot.ensureSameVm
    rw [if_pos hkey, pure_bind]
    exact rejects_ensureSameVm hother operation _
  · exact rejects_ensureSameVm hkey operation _

/-- The machines of the operands of an access are the first one, or an access is rejected. -/
theorem rejects_access {x : Access β} {vm : VmId} (h : vm ∈ x.vms) (hne : vm ≠ x.vm) :
    Rejects (x.run : Act η β) := by
  cases x with
  | getVariable id module name s | abortFiber id s =>
    obtain rfl : vm = s.vm := by simpa [Access.vms, show vm ≠ id from hne] using h
    exact rejects_ensureSameVm hne _ _
  | getListElement s index element | setListElement s index element
  | insertInList s index element =>
    obtain rfl : vm = element.vm := by simpa [Access.vms, show vm ≠ s.vm from hne] using h
    exact rejects_bind (rejects_ensureSameVm hne _ _) _
  | mapContainsKey s key =>
    obtain rfl : vm = key.vm := by simpa [Access.vms, show vm ≠ s.vm from hne] using h
    exact rejects_bind (rejects_mapOperands _ (Or.inl hne)) _
  | getMapValue s key value | setMapValue s key value | removeMapValue s key value =>
    have hvm : vm = key.vm ∨ vm = value.vm := by
      simpa [Access.vms, show vm ≠ s.vm from hne] using h
    refine rejects_bind (rejects_mapOperands _ ?_) _
    rcases hvm with rfl | rfl
    · exact Or.inl hne
    · exact Or.inr ⟨value, rfl, hne⟩
  | _ => exact absurd (List.mem_singleton.1 h) hne

namespace Operation

/-- The machines of all operands, those of handles included. -/
def operands (op : Operation η β) : List VmId :=
  match op with
  | setHandle s h => [s.vm, h.vm]
  | call vm h => [vm, h.vm]
  | release h => [h.vm]
  | listen vm _ => [vm]
  | dispose vm | drop vm => [vm.id]
  | op => op.vms

end Operation

theorem ne_of_mem_pair {vm vm' id id' : VmId} (h : vm ∈ [id, id']) (h' : vm' ∈ [id, id'])
    (hne : vm ≠ vm') : id ≠ id' := by
  rintro rfl
  simp only [List.mem_cons, List.not_mem_nil, or_false, or_self] at h h'
  exact hne (h.trans h'.symm)

section

variable [Observer η] {engines : List Address → Engine (Host η)} {active : List Address}

theorem rejects_newForeign {s cls : Slot} (h : cls.vm ≠ s.vm) (operation : String)
    (holding : Holding) :
    Rejects (Operation.recordingBlock s cls (do
      s.attach (← s.newForeign cls operation) holding) : Act (Host η) Address) := by
  rw [recordingBlock_eq]
  exact fun w => rejects_ensureSameVm h operation _ w

/-- **An operation with operands of different machines gives an error and does nothing**, however it
comes by them. -/
theorem rejects_operation {op : Operation η β} {vm vm' : VmId} (h : vm ∈ op.operands)
    (h' : vm' ∈ op.operands) (hne : vm ≠ vm') : Rejects (op.run engines active) := by
  cases op with
  | access x =>
    by_cases hvm : vm = x.vm
    · exact rejects_access h' fun hvm' => hne (hvm.trans hvm'.symm)
    · exact rejects_access h hvm
  | setHandle s m =>
    have hother := ne_of_mem_pair h h' hne
    exact rejects_checked_bind s _ fun a => rejects_bind (rejects_handle hother.symm _) _
  | call id m =>
    have hother := ne_of_mem_pair h h' hne
    exact fun w => rejects_live_bind id _ (fun a => rejects_bind (rejects_handle hother.symm _) _) w
  | setNewForeignObject s cls | setNewForeignStruct s cls =>
    exact rejects_newForeign (ne_of_mem_pair h h' hne).symm _ _
  | release | listen | dispose | drop | makeCallHandle | interpret | collectGarbage | getHandle
  | setForeignStruct =>
    exact absurd ((List.mem_singleton.1 h).trans (List.mem_singleton.1 h').symm) hne
  | _ => exact absurd h List.not_mem_nil

/-! ## Isolation -/

namespace Setting

/-- **Programs that act on other machines leave a machine alone**, whichever machines run. -/
theorem untouched_program (s : Setting η) {w : World (Host η)} (hsteps : Steps s.start w)
    (hw : Steady active w) {vm : VmId} {a : Address} (hl : w.LiveAt vm a) {A : VmId → Prop}
    (hA : ¬ A vm) (hcode : s.code.Obeys (.on A)) (depth : Nat) {p : Program η α}
    (hp : p.Obeys (.on A)) :
    Untouched vm a w (p.run (s.code.engines s.importDepth depth) active w).2 := by
  have k : (Regime.beside A vm a : Regime η).Upheld := upheld_beside hA
  exact ((within_program k.toSustained (serves_engines k hcode _ depth) p hp w).1 hw
    ⟨tracking_of_steps hsteps, hl⟩).2

/-- **Operations on one machine leave another one alone**, if the functions of the host act on no
machine but those that `A` holds of, which may be the first one only.  Scripts, collections and
disposals are such operations.  An operation with operands of both machines gives an error. -/
theorem machines_isolated (s : Setting η) {w : World (Host η)} (hsteps : Steps s.start w)
    (hw : Steady active w) {vm vm' : VmId} {a' : Address} (hne : vm ≠ vm') (hl' : w.LiveAt vm' a')
    (depth : Nat) (op : Operation η β) :
    (∀ A : VmId → Prop, ¬ A vm' → s.code.Obeys (.on A) → (Licence.on A).Permits op →
      op.isPermitted active w = true →
        Untouched vm' a' w (op.run (s.code.engines s.importDepth depth) active w).2) ∧
    (vm ∈ op.operands → vm' ∈ op.operands → ∃ e calls,
      op.run (s.code.engines s.importDepth depth) active w = (.fault e, { w with calls })) := by
  refine ⟨fun A hA hcode hpermits hop => ?_, fun h h' => rejects_operation h h' hne w⟩
  have k : (Regime.beside A vm' a' : Regime η).Upheld := upheld_beside hA
  exact ((within_operation k.toSustained (serves_engines k hcode _ depth) op hpermits hop).1 hw
    ⟨tracking_of_steps hsteps, hl'⟩).2

end Setting

end

/-- A host that makes two machines, and a handle of the second one. -/
def Program.neighbours : Program Unit Vm :=
  .ask .newService fun service =>
  .ask (.create service ⟨none, none, none, none⟩) fun first =>
  .ask (.create service ⟨none, none, none, none⟩) fun second =>
  .ask (.makeCallHandle second.id "visit()") fun _ => .done first

namespace Setting

/-- The world of two machines. -/
def neighboured : World (Host Unit) := (silent.run .neighbours).2

theorem neighboured_eq :
    ((silent.run .neighbours).1.isFinal, neighboured.vm 1, neighboured.vm 2,
      neighboured.host.handles) =
    (false, ⟨2, true, 1, .panic, .none, []⟩, ⟨3, true, 1, .panic, .none, [(4, 1)]⟩,
      [⟨4, 1, 2⟩]) := by
  cbv

/-- The first machine runs a script, and then is to call the handle of the second one. -/
theorem machines_isolated_neighboured :
    neighboured.LiveAt 1 2 ∧ neighboured.LiveAt 2 3 ∧
      Untouched 2 3 neighboured
        ((Operation.interpret 1 "main" "var x = [1]").run silent.engines [] neighboured).2 ∧
      ∃ e calls, (Operation.call 1 ⟨4, 1, 2⟩).run silent.engines [] neighboured =
        (.fault e, { neighboured with calls }) := by
  have hsteps : Steps silent.start neighboured := silent.steps_run .neighbours
  have hsteady : Steady [] neighboured :=
    silent.steady_run .neighbours (congrArg (·.1) neighboured_eq)
  have hfirst : neighboured.vm 1 = _ := congrArg (·.2.1) neighboured_eq
  have hsecond : neighboured.vm 2 = _ := congrArg (·.2.2.1) neighboured_eq
  have hl : neighboured.LiveAt 1 2 := by
    rw [World.LiveAt, hfirst]
    exact ⟨rfl, rfl⟩
  have hl' : neighboured.LiveAt 2 3 := by
    rw [World.LiveAt, hsecond]
    exact ⟨rfl, rfl⟩
  have hcode : silent.code.Obeys (.on (· = 1)) :=
    ⟨fun _ _ _ _ => trivial, fun _ _ _ _ => trivial, fun _ _ _ _ _ => trivial,
      fun _ _ _ _ => trivial, fun _ _ _ _ _ => trivial, fun _ _ _ _ => trivial,
      fun _ _ _ => trivial, fun _ _ _ => trivial, fun _ _ => trivial, fun _ _ => trivial⟩
  have hne : (1 : VmId) ≠ 2 := by decide
  refine ⟨hl, hl', ?_, ?_⟩
  · exact (machines_isolated silent hsteps hsteady hne hl' silent.depth
      (.interpret 1 "main" "var x = [1]")).1 (· = 1) (by decide) hcode rfl rfl
  · exact (machines_isolated silent hsteps hsteady hne hl' silent.depth
      (.call 1 ⟨4, 1, 2⟩)).2 (List.mem_cons_self) (List.mem_cons_of_mem _ List.mem_cons_self)

end Setting

end ScriptHost.Bridge
