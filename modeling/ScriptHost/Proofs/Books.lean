import Mathlib.Data.List.Nodup
import ScriptHost.Proofs.Roster

/-!
# The books of handles

Handles are kept in three places: the list of a machine's outstanding handles, the process-wide table,
and the machine itself.  `Books` says how the three belong together, by way of the handles that the
host was given: they have increasing generations, and at every moment the ones that are valid are
exactly those that the three places hold.  Every step keeps the books (`Step.books`), addresses that
come back under a new generation included.
-/

namespace ScriptHost.Bridge

variable {η : Type}

/-- How a handle is listed as outstanding. -/
def CallHandle.key (h : CallHandle) : Address × Nat := (h.address, h.id)

/-- The handles of a machine that were not released, oldest first. -/
def World.openHandles (w : World (Host η)) (vm : VmId) : List CallHandle :=
  w.host.handles.filter fun h => h.vm == vm && w.isValid h

/-- The three places where handles are kept belong together. -/
structure Books (w : World (Host η)) : Prop where
  ascending : w.host.handles.Pairwise fun h h' => h.id < h'.id
  fresh : ∀ h ∈ w.host.handles, h.id < w.nextHandleId
  known : ∀ h ∈ w.host.handles, h.vm < w.nextVmId
  /-- The table holds handles that the host was given, of machines that are alive. -/
  recorded : ∀ x r, w.handles.find? x = some r →
    ∃ h ∈ w.host.handles, h.address = x ∧ h.id = r.id ∧ w.LiveAt h.vm r.vm
  /-- The outstanding handles of a machine are its valid ones. -/
  outstanding : ∀ id, (w.vm id).outstanding = (w.openHandles id).map CallHandle.key
  /-- A machine holds its valid handles. -/
  native : ∀ id a, w.LiveAt id a → ∀ x, x ∈ (w.machine a).handles.keys ↔
    ∃ h ∈ w.host.handles, h.vm = id ∧ h.address = x ∧ w.isValid h = true
  lapsed : ∀ h ∈ w.host.lapsed, h ∈ w.host.handles ∧ w.isValid h = false

theorem World.isValid_iff {w : World η} {h : CallHandle} :
    w.isValid h = true ↔ ∃ r, w.handles.find? h.address = some r ∧ r.id = h.id := by
  unfold World.isValid World.isLiveHandle
  cases w.handles.find? h.address with
  | none => simp
  | some r => simp

namespace Books

variable {w w' : World (Host η)}

theorem start (typeNames : TypeNames) (placement : Placement) (own : η) :
    Books (World.start typeNames placement own) where
  ascending := List.Pairwise.nil
  fresh := by simp [World.start, World.empty]
  known := by simp [World.start, World.empty]
  recorded := by simp [World.start, World.empty, Table.find?_empty]
  outstanding := by
    simp [World.start, World.empty, World.vm, World.openHandles, Table.find?_empty,
      VmRecord.unknown]
  native := by
    intro id a hl
    exact absurd hl.1 (by simp [World.start, World.empty, World.vm, Table.find?_empty,
      VmRecord.unknown])
  lapsed := by simp [World.start, World.empty]

/-! ## Valid handles -/

/-- A generation is given to one handle. -/
theorem eq_of_id (b : Books w) {h h' : CallHandle} (hm : h ∈ w.host.handles)
    (hm' : h' ∈ w.host.handles) (hid : h.id = h'.id) : h = h' := by
  have hnodup : (w.host.handles.map CallHandle.id).Nodup :=
    List.pairwise_map.2 (b.ascending.imp Nat.ne_of_lt)
  exact List.inj_on_of_nodup_map hnodup hm hm' hid

/-- One valid handle lies at an address. -/
theorem eq_of_address (b : Books w) {h h' : CallHandle} (hm : h ∈ w.host.handles)
    (hm' : h' ∈ w.host.handles) (hv : w.isValid h = true) (hv' : w.isValid h' = true)
    (ha : h.address = h'.address) : h = h' := by
  obtain ⟨r, hr, hid⟩ := World.isValid_iff.1 hv
  obtain ⟨r', hr', hid'⟩ := World.isValid_iff.1 hv'
  rw [ha, hr'] at hr
  cases hr
  exact b.eq_of_id hm hm' (hid.symm.trans hid')

/-- A valid handle is one of a machine that is alive. -/
theorem exists_liveAt (b : Books w) {h : CallHandle} (hm : h ∈ w.host.handles)
    (hv : w.isValid h = true) :
    ∃ a, w.LiveAt h.vm a ∧ w.handles.find? h.address = some ⟨h.id, a⟩ := by
  obtain ⟨r, hr, hid⟩ := World.isValid_iff.1 hv
  obtain ⟨h', hm', -, hid', hl⟩ := b.recorded _ _ hr
  obtain rfl := b.eq_of_id hm' hm (hid'.trans hid)
  refine ⟨r.vm, hl, ?_⟩
  rw [hr, ← hid]

/-- No record lies at an address at which nothing lies. -/
theorem not_mem_of_fresh (b : Books w) (r : Roster w) {x : Address} (hx : x ∉ w.taken) :
    x ∉ w.handles.keys := by
  intro hk
  obtain ⟨rec, hrec⟩ := Table.exists_find?_of_mem hk
  obtain ⟨h, hm, rfl, hid, hl⟩ := b.recorded _ _ hrec
  have hv : w.isValid h = true := World.isValid_iff.2 ⟨rec, hrec, hid.symm⟩
  have hin := (b.native h.vm rec.vm hl h.address).2 ⟨h, hm, rfl, rfl, hv⟩
  exact hx (World.mem_taken_of_machine (r.mem_natives hl) (Or.inl hin))

theorem mem_openHandles {vm : VmId} {h : CallHandle} :
    h ∈ w.openHandles vm ↔ h ∈ w.host.handles ∧ h.vm = vm ∧ w.isValid h = true := by
  rw [World.openHandles, List.mem_filter, Bool.and_eq_true, beq_iff_eq]

/-- No handle is listed twice. -/
theorem nodup_outstanding (b : Books w) (id : VmId) : (w.vm id).outstanding.Nodup := by
  have hids : (((w.openHandles id).map CallHandle.key).map Prod.snd).Nodup := by
    rw [List.map_map]
    have hsub : (w.openHandles id).Sublist w.host.handles := List.filter_sublist
    exact List.pairwise_map.2 ((b.ascending.sublist hsub).imp Nat.ne_of_lt)
  rw [b.outstanding]
  exact hids.of_map

/-! ## What the books do not depend on -/

theorem congr (b : Books w) (hhandles : w'.handles = w.handles)
    (hnext : w'.nextHandleId = w.nextHandleId) (hnextVm : w'.nextVmId = w.nextVmId)
    (hhost : w'.host.handles = w.host.handles) (hlapsed : w'.host.lapsed = w.host.lapsed)
    (hlive : ∀ id a, w'.LiveAt id a ↔ w.LiveAt id a)
    (hout : ∀ id, (w'.vm id).outstanding = (w.vm id).outstanding)
    (hmachine : ∀ id a, w.LiveAt id a → (w'.machine a).handles = (w.machine a).handles) :
    Books w' := by
  have hvalid : ∀ h, w'.isValid h = w.isValid h := by
    intro h
    unfold World.isValid World.isLiveHandle
    rw [hhandles]
  refine ⟨?_, ?_, ?_, ?_, ?_, ?_, ?_⟩
  · rw [hhost]
    exact b.ascending
  · rw [hhost, hnext]
    exact b.fresh
  · rw [hhost, hnextVm]
    exact b.known
  · intro x r hr
    rw [hhandles] at hr
    rw [hhost]
    simp only [hlive]
    exact b.recorded x r hr
  · intro id
    rw [hout, b.outstanding, World.openHandles, World.openHandles, hhost]
    simp only [hvalid]
  · intro id a hl x
    rw [hlive] at hl
    rw [hmachine id a hl, hhost]
    simp only [hvalid]
    exact b.native id a hl x
  · intro h hm
    rw [hlapsed] at hm
    rw [hhost, hvalid]
    exact b.lapsed h hm

/-- A machine changes, but not its handles. -/
theorem putMachine (b : Books w) {a : Address} {m : Machine.State}
    (hm : m.handles = (w.machine a).handles) : Books (w.putMachine a m) := by
  refine b.congr rfl rfl rfl rfl rfl (fun _ _ => Iff.rfl) (fun _ => rfl) ?_
  intro id c _
  rcases w.machine_putMachine a c m with ⟨hc, rfl⟩ | hc
  · rw [hc, hm]
  · rw [hc]

theorem modifyService (b : Books w) (service : ServiceId) (f : Service → Service) :
    Books (w.modifyService service f) :=
  b.congr rfl rfl rfl rfl rfl (fun _ _ => Iff.rfl) (fun _ => rfl) fun _ _ _ => rfl

/-! ## A handle is made -/

section Adopt

variable {vm : VmId} {a x : Address} {target : Machine.HandleTarget}

theorem liveAt_withHandle (id : VmId) (c : Address) :
    (w.withHandle vm a x target).LiveAt id c ↔ w.LiveAt id c :=
  World.liveAt_modifyVm w vm (f := fun r =>
    { r with outstanding := r.outstanding ++ [(x, w.nextHandleId)] })
    (fun _ => rfl) (fun _ => rfl) id c

theorem isValid_withHandle_new : (w.withHandle vm a x target).isValid ⟨x, w.nextHandleId, vm⟩ =
    true :=
  World.isValid_iff.2 ⟨⟨w.nextHandleId, a⟩, Table.find?_insert_self .., rfl⟩

/-- Old handles are as valid as before, even one that lay at the address of the new one. -/
theorem isValid_withHandle_old (hx : x ∉ w.handles.keys) {h : CallHandle}
    (hid : h.id < w.nextHandleId) : (w.withHandle vm a x target).isValid h = w.isValid h := by
  unfold World.isValid World.isLiveHandle
  by_cases ha : h.address = x
  · rw [ha, Table.find?_eq_none_iff.2 hx, World.withHandle, Table.find?_insert_self]
    simpa using Nat.ne_of_gt hid
  · rw [World.withHandle, Table.find?_insert_ne _ _ ha]

theorem openHandles_withHandle (b : Books w) (hx : x ∉ w.handles.keys) (id : VmId) :
    (w.withHandle vm a x target).openHandles id =
      w.openHandles id ++ if vm = id then [⟨x, w.nextHandleId, vm⟩] else [] := by
  have hold : w.host.handles.filter
      (fun h => h.vm == id && (w.withHandle vm a x target).isValid h) = w.openHandles id := by
    refine List.filter_congr fun h hm => ?_
    rw [isValid_withHandle_old hx (b.fresh h hm)]
  have hhost : (w.withHandle vm a x target).host.handles =
      w.host.handles ++ [⟨x, w.nextHandleId, vm⟩] := rfl
  rw [World.openHandles, hhost, List.filter_append, hold]
  simp only [List.filter_cons, List.filter_nil, isValid_withHandle_new, Bool.and_true, beq_iff_eq]

theorem withHandle (b : Books w) (r : Roster w) (hl : w.LiveAt vm a) (hx : x ∉ w.taken) :
    Books (w.withHandle vm a x target) := by
  have hfree : x ∉ w.handles.keys := b.not_mem_of_fresh r hx
  refine ⟨?_, ?_, ?_, ?_, ?_, ?_, ?_⟩
  · refine List.pairwise_append.2 ⟨b.ascending, List.pairwise_singleton _ _, ?_⟩
    intro h hm h' hm'
    rw [List.mem_singleton.1 hm']
    exact b.fresh h hm
  · intro h hm
    rcases List.mem_append.1 hm with hm | hm
    · exact Nat.lt_succ_of_lt (b.fresh h hm)
    · rw [List.mem_singleton.1 hm]
      exact Nat.lt_succ_self _
  · intro h hm
    rcases List.mem_append.1 hm with hm | hm
    · exact b.known h hm
    · rw [List.mem_singleton.1 hm]
      exact r.known vm (World.mem_vms_of_isAlive hl.1)
  · intro y rec hrec
    by_cases hy : y = x
    · subst hy
      rw [World.withHandle, Table.find?_insert_self, Option.some.injEq] at hrec
      refine ⟨⟨y, w.nextHandleId, vm⟩, ?_, rfl, ?_, ?_⟩
      · exact List.mem_append_right _ (List.mem_singleton_self _)
      · rw [← hrec]
      · rw [liveAt_withHandle, ← hrec]
        exact hl
    · rw [World.withHandle, Table.find?_insert_ne _ _ hy] at hrec
      obtain ⟨h, hm, haddr, hid, hlive⟩ := b.recorded y rec hrec
      exact ⟨h, List.mem_append_left _ hm, haddr, hid, (liveAt_withHandle _ _).2 hlive⟩
  · intro id
    rw [openHandles_withHandle b hfree, List.map_append, ← b.outstanding]
    by_cases hid : id = vm
    · subst hid
      rw [if_pos rfl]
      exact congrArg VmRecord.outstanding
        (World.vm_modifyVm_self (World.mem_vms_of_isAlive hl.1) _)
    · rw [if_neg (Ne.symm hid), List.map_nil, List.append_nil]
      exact congrArg VmRecord.outstanding (World.vm_modifyVm_ne w hid _)
  · intro id c hlive y
    rw [liveAt_withHandle] at hlive
    -- the machine holds the new handle if it is the one that made it
    have hkeys : y ∈ ((w.withHandle vm a x target).machine c).handles.keys ↔
        (id = vm ∧ y = x) ∨ y ∈ (w.machine c).handles.keys := by
      have hmach : (w.withHandle vm a x target).machine c =
          (w.putMachine a ((w.machine a).storeHandle x target)).machine c := rfl
      rw [hmach]
      by_cases hc : c = a
      · subst hc
        rw [World.machine_putMachine_self (r.mem_natives hl), Machine.State.storeHandle,
          Table.mem_keys_insert, and_iff_right (r.eq_of_liveAt hlive hl)]
      · rw [World.machine_putMachine_ne _ hc, or_iff_right]
        rintro ⟨rfl, -⟩
        exact hc (hlive.2.symm.trans hl.2)
    rw [hkeys, b.native id c hlive y]
    constructor
    · rintro (⟨rfl, rfl⟩ | ⟨h, hm, hvm, haddr, hv⟩)
      · refine ⟨⟨y, w.nextHandleId, id⟩, ?_, rfl, rfl, isValid_withHandle_new⟩
        exact List.mem_append_right _ (List.mem_singleton_self _)
      · refine ⟨h, List.mem_append_left _ hm, hvm, haddr, ?_⟩
        rw [isValid_withHandle_old hfree (b.fresh h hm)]
        exact hv
    · rintro ⟨h, hm, hvm, haddr, hv⟩
      rcases List.mem_append.1 hm with hm | hm
      · rw [isValid_withHandle_old hfree (b.fresh h hm)] at hv
        exact Or.inr ⟨h, hm, hvm, haddr, hv⟩
      · rw [List.mem_singleton.1 hm] at hvm haddr
        exact Or.inl ⟨hvm.symm, haddr.symm⟩
  · intro h hm
    obtain ⟨hmade, hv⟩ := b.lapsed h hm
    refine ⟨List.mem_append_left _ hmade, ?_⟩
    rw [isValid_withHandle_old hfree (b.fresh h hmade)]
    exact hv

end Adopt

/-! ## A handle is released -/

section Release

variable {h : CallHandle} {a : Address}

theorem liveAt_withoutHandle (id : VmId) (c : Address) :
    (w.withoutHandle h a).LiveAt id c ↔ w.LiveAt id c :=
  World.liveAt_modifyVm w h.vm (f := fun r =>
    { r with outstanding := r.outstanding.filter fun e => e ≠ (h.address, h.id) })
    (fun _ => rfl) (fun _ => rfl) id c

/-- The released handle is the only one that is not valid any more. -/
theorem isValid_withoutHandle (b : Books w) (hm : h ∈ w.host.handles) (hv : w.isValid h = true)
    {h' : CallHandle} (hm' : h' ∈ w.host.handles) :
    (w.withoutHandle h a).isValid h' = true ↔ h' ≠ h ∧ w.isValid h' = true := by
  have hfind : (w.withoutHandle h a).handles = w.handles.erase h.address := rfl
  rw [World.isValid_iff, World.isValid_iff, hfind]
  by_cases ha : h'.address = h.address
  · rw [ha, Table.find?_erase_self]
    refine iff_of_false (by simp) ?_
    rintro ⟨hne, r, hr, hid⟩
    refine hne (b.eq_of_address hm' hm ?_ hv ha)
    exact World.isValid_iff.2 ⟨r, by rw [ha]; exact hr, hid⟩
  · rw [Table.find?_erase_ne _ ha, and_iff_right]
    rintro rfl
    exact ha rfl

theorem openHandles_withoutHandle (b : Books w) (hm : h ∈ w.host.handles)
    (hv : w.isValid h = true) (id : VmId) :
    (w.withoutHandle h a).openHandles id = (w.openHandles id).filter fun h' => h' ≠ h := by
  have hhost : (w.withoutHandle h a).host.handles = w.host.handles := rfl
  rw [World.openHandles, World.openHandles, List.filter_filter, hhost]
  refine List.filter_congr fun h' hm' => ?_
  rw [Bool.eq_iff_iff]
  simp only [Bool.and_eq_true, isValid_withoutHandle b hm hv hm', decide_eq_true_eq]
  constructor
  · rintro ⟨hvm, hne, hv'⟩
    exact ⟨hne, hvm, hv'⟩
  · rintro ⟨hne, hvm, hv'⟩
    exact ⟨hvm, hne, hv'⟩

theorem withoutHandle (b : Books w) (r : Roster w) (hm : h ∈ w.host.handles)
    (hv : w.isValid h = true) (hl : w.LiveAt h.vm a) : Books (w.withoutHandle h a) := by
  refine ⟨b.ascending, b.fresh, b.known, ?_, ?_, ?_, ?_⟩
  · intro x rec hrec
    have hx : x ≠ h.address := by
      rintro rfl
      rw [World.withoutHandle, Table.find?_erase_self] at hrec
      exact absurd hrec (by simp)
    rw [World.withoutHandle, Table.find?_erase_ne _ hx] at hrec
    obtain ⟨h', hm', haddr, hid, hlive⟩ := b.recorded x rec hrec
    exact ⟨h', hm', haddr, hid, (liveAt_withoutHandle _ _).2 hlive⟩
  · intro id
    rw [openHandles_withoutHandle b hm hv]
    -- among the handles of the host a key belongs to one
    have hkeys : ((w.openHandles id).filter fun h' => h' ≠ h).map CallHandle.key =
        ((w.openHandles id).map CallHandle.key).filter fun e => e ≠ (h.address, h.id) := by
      rw [List.filter_map]
      congr 1
      refine List.filter_congr fun h' hm' => ?_
      have hmade := (mem_openHandles.1 hm').1
      simp only [Function.comp, CallHandle.key, decide_eq_decide, ne_eq, not_iff_not,
        Prod.mk.injEq]
      constructor
      · rintro rfl
        exact ⟨rfl, rfl⟩
      · rintro ⟨-, hid⟩
        exact b.eq_of_id hmade hm hid
    rw [hkeys, ← b.outstanding]
    by_cases hid : id = h.vm
    · subst hid
      exact congrArg VmRecord.outstanding
        (World.vm_modifyVm_self (World.mem_vms_of_isAlive hl.1) _)
    · have hout : ((w.withoutHandle h a).vm id).outstanding = (w.vm id).outstanding :=
        congrArg VmRecord.outstanding (World.vm_modifyVm_ne w hid _)
      rw [hout, eq_comm, List.filter_eq_self, b.outstanding]
      intro e he
      obtain ⟨h', hm', rfl⟩ := List.mem_map.1 he
      obtain ⟨hmade, hvm, -⟩ := mem_openHandles.1 hm'
      refine decide_eq_true fun hkey => ?_
      have hh : h' = h := b.eq_of_id hmade hm (congrArg Prod.snd hkey)
      exact hid (by rw [← hvm, hh])
  · intro id c hlive y
    rw [liveAt_withoutHandle] at hlive
    have hmach : (w.withoutHandle h a).machine c =
        (w.putMachine a ((w.machine a).releaseHandle h.address)).machine c := rfl
    have hkeys : y ∈ ((w.withoutHandle h a).machine c).handles.keys ↔
        ¬ (id = h.vm ∧ y = h.address) ∧ y ∈ (w.machine c).handles.keys := by
      rw [hmach]
      by_cases hc : c = a
      · subst hc
        rw [World.machine_putMachine_self (r.mem_natives hl), Machine.State.releaseHandle,
          Table.mem_keys_erase, and_iff_right (r.eq_of_liveAt hlive hl)]
      · rw [World.machine_putMachine_ne _ hc, and_iff_right]
        rintro ⟨rfl, -⟩
        exact hc (hlive.2.symm.trans hl.2)
    rw [hkeys, b.native id c hlive y]
    constructor
    · rintro ⟨hne, h', hm', hvm, haddr, hv'⟩
      refine ⟨h', hm', hvm, haddr, (isValid_withoutHandle b hm hv hm').2 ⟨?_, hv'⟩⟩
      rintro rfl
      exact hne ⟨hvm.symm, haddr.symm⟩
    · rintro ⟨h', hm', hvm, haddr, hv'⟩
      obtain ⟨hne, hv'⟩ := (isValid_withoutHandle b hm hv hm').1 hv'
      refine ⟨?_, h', hm', hvm, haddr, hv'⟩
      rintro ⟨-, hy⟩
      exact hne (b.eq_of_address hm' hm hv' hv (haddr.trans hy))
  · intro h' hm'
    obtain ⟨hmade, hv'⟩ := b.lapsed h' hm'
    refine ⟨hmade, Bool.eq_false_iff.2 fun hvalid => ?_⟩
    rw [isValid_withoutHandle b hm hv hmade, hv'] at hvalid
    exact absurd hvalid.2 (by simp)

end Release

/-! ## Machines that come and go -/

theorem withVm (b : Books w) {a : Address} {service : ServiceId}
    (policy : LeakPolicy) (ha : a ∉ w.natives.keys) : Books (w.withVm a service policy) := by
  have hvalid : ∀ h, (w.withVm a service policy).isValid h = w.isValid h := fun _ => rfl
  -- no handle has been given out for a machine with the next number
  have hnone : ∀ h ∈ w.host.handles, h.vm ≠ w.nextVmId :=
    fun h hm => Nat.ne_of_lt (b.known h hm)
  refine ⟨b.ascending, b.fresh, fun h hm => Nat.lt_succ_of_lt (b.known h hm), ?_, ?_, ?_,
    b.lapsed⟩
  · intro x rec hrec
    obtain ⟨h, hm, haddr, hid, hlive⟩ := b.recorded x rec hrec
    exact ⟨h, hm, haddr, hid, (World.liveAt_withVm _ _ _ _ _ _).2 (Or.inr ⟨hnone h hm, hlive⟩)⟩
  · intro id
    have hopen : (w.withVm a service policy).openHandles id = w.openHandles id := rfl
    rw [hopen]
    by_cases hid : id = w.nextVmId
    · rw [hid, World.vm_withVm_self, eq_comm, List.map_eq_nil_iff, List.eq_nil_iff_forall_not_mem]
      intro h hm
      exact hnone h (mem_openHandles.1 hm).1 (mem_openHandles.1 hm).2.1
    · rw [World.vm_withVm_ne _ _ _ _ hid]
      exact b.outstanding id
  · intro id c hlive x
    rw [World.machine_withVm ha]
    rcases (World.liveAt_withVm _ _ _ _ _ _).1 hlive with ⟨hid, rfl⟩ | ⟨-, hold⟩
    · rw [World.machine_of_not_mem ha]
      refine iff_of_false ?_ ?_
      · exact List.not_mem_nil
      · rintro ⟨h, hm, hvm, -⟩
        exact hnone h hm (hvm.trans hid)
    · exact b.native id c hold x

/-- A machine without outstanding handles is given up. -/
theorem retired (b : Books w) {vm : VmId} {a : Address} (hl : w.LiveAt vm a)
    (hout : (w.vm vm).outstanding = []) : Books (w.retired vm a) := by
  have hk : vm ∈ w.vms.keys := World.mem_vms_of_isAlive hl.1
  have hopen : w.openHandles vm = [] := by
    rw [b.outstanding, List.map_eq_nil_iff] at hout
    exact hout
  refine ⟨b.ascending, b.fresh, b.known, ?_, ?_, ?_, b.lapsed⟩
  · intro x rec hrec
    have hrec' : w.handles.find? x = some rec := hrec
    obtain ⟨h, hm, haddr, hid, hlive⟩ := b.recorded x rec hrec'
    refine ⟨h, hm, haddr, hid, (World.liveAt_retired hk _ _ _).2 ⟨?_, hlive⟩⟩
    intro hvm
    have hv : w.isValid h = true :=
      World.isValid_iff.2 ⟨rec, by rw [haddr]; exact hrec', hid.symm⟩
    have hin : h ∈ w.openHandles vm := mem_openHandles.2 ⟨hm, hvm, hv⟩
    rw [hopen] at hin
    exact absurd hin List.not_mem_nil
  · intro id
    have hsame : ((w.retired vm a).vm id).outstanding = (w.vm id).outstanding :=
      World.field_modifyVm w vm (f := fun r => { r with isAlive := false })
        VmRecord.outstanding (fun _ => rfl) id
    rw [hsame]
    exact b.outstanding id
  · intro id c hlive x
    exact b.native id c ((World.liveAt_retired hk _ _ _).1 hlive).2 x

theorem discard (b : Books w) (r : Roster w) {a : Address} (ha : a ∉ w.registered.keys)
    (report? : Option FreeReport) :
    Books { w with natives := w.natives.erase a, freeReport? := report? } := by
  refine b.congr rfl rfl rfl rfl rfl (fun _ _ => Iff.rfl) (fun _ => rfl) ?_
  intro id c hlive
  have hc : c ≠ a := by
    rintro rfl
    exact ha (r.mem_registered hlive)
  simp [World.machine, Table.find?_erase_ne _ hc]

theorem drain (b : Books w) (r : Roster w) {a : Address} {m : Machine.State}
    (ha : a ∉ w.registered.keys) : Books (w.putMachine a m) := by
  refine b.congr rfl rfl rfl rfl rfl (fun _ _ => Iff.rfl) (fun _ => rfl) ?_
  intro id c hlive
  have hc : c ≠ a := by
    rintro rfl
    exact ha (r.mem_registered hlive)
  rw [World.machine_putMachine_ne _ hc]

theorem watch (b : Books w) : Books w.watch := by
  refine ⟨b.ascending, b.fresh, b.known, b.recorded, b.outstanding, b.native, ?_⟩
  intro h hm
  rcases List.mem_append.1 hm with hm | hm
  · obtain ⟨hmade, hv⟩ := List.mem_filter.1 hm
    have hsame : w.watch.isValid h = w.isValid h := rfl
    exact ⟨hmade, by rw [hsame]; simpa using hv⟩
  · exact b.lapsed h hm

end Books

/-- **Every step keeps the books of handles.** -/
theorem Step.books {w w' : World (Host η)} (hs : Step w w') (r : Roster w) (b : Books w) :
    Books w' := by
  cases hs with
  | idle | misreport | enter | use | found =>
    exact b.congr rfl rfl rfl rfl rfl (fun _ _ => Iff.rfl) (fun _ => rfl) fun _ _ _ => rfl
  | watch => exact b.watch
  | work _ hframe => exact b.putMachine hframe.handles
  | serve => exact b.modifyService _ _
  | listen vm f =>
    refine b.congr rfl rfl rfl rfl rfl ?_ ?_ fun _ _ _ => rfl
    · exact World.liveAt_modifyVm w vm (fun _ => rfl) (fun _ => rfl)
    · exact World.field_modifyVm w vm VmRecord.outstanding (fun _ => rfl)
  | create policy ha => exact b.withVm policy ha
  | adopt _ hl hx => exact b.withHandle r hl hx
  | release hm hv hl => exact b.withoutHandle r hm hv hl
  | @bear _ a _ service _ m f hd =>
    have hput : Books ((w.putMachine a m).modifyService service f) :=
      (b.putMachine hd.birth.handles).modifyService service f
    exact hput.congr rfl rfl rfl rfl rfl (fun _ _ => Iff.rfl) (fun _ => rfl) fun _ _ _ => rfl
  | retire hl hout => exact b.retired hl hout
  | sweep => exact b.putMachine rfl
  | drain _ ha => exact b.drain r ha
  | @finalize a d =>
    have hput : Books (w.putMachine a ((w.machine a).beginFinalizer d)) := b.putMachine rfl
    obtain ⟨services, hfinalized⟩ := w.finalized_eq a d
    rw [hfinalized]
    exact hput.congr rfl rfl rfl rfl rfl (fun _ _ => Iff.rfl) (fun _ => rfl) fun _ _ _ => rfl
  | bury => exact b.putMachine rfl
  | discard report? ha => exact b.discard r ha report?

/-! ## Sound worlds -/

/-- The table of machines and the books of handles are right. -/
structure Sound (w : World (Host η)) : Prop where
  roster : Roster w
  books : Books w

theorem Sound.start (typeNames : TypeNames) (placement : Placement) (own : η) :
    Sound (World.start typeNames placement own) :=
  ⟨Roster.start typeNames placement own, Books.start typeNames placement own⟩

theorem Step.sound {w w' : World (Host η)} (hs : Step w w') (h : Sound w) : Sound w' :=
  ⟨hs.roster h.roster, hs.books h.roster h.books⟩

/-- **Every run keeps the table of machines and the books of handles.** -/
theorem Steps.sound {w w' : World (Host η)} (hs : Steps w w') (h : Sound w) : Sound w' :=
  Steps.preserve (fun hstep => hstep.sound) hs h

end ScriptHost.Bridge
