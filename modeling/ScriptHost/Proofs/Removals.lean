import ScriptHost.Proofs.Likewise
import ScriptHost.Proofs.Summons

/-!
# What collections and ends of machines remove

A collection in both worlds, and the end of a machine in both, remove the same of what both have: they
are blind (`joint_collect`, `joint_shutdown`), if nothing is seen of the finalizers.  Where finalizers
cannot be called, the second world has no more to finalize than the first one, so that it does not reach
the bound alone (`Relates.summons_release`).
-/

namespace ScriptHost.Bridge

open Machine (State Dead ObjectId Block)
open Run (Joint Level Lands lands_bind lands_of_value joint_of_lands joint_bind_lands joint_bind
  joint_bind_of joint_get joint_modify)

variable {η σ φ : Type} [Observer η] {C : Comparison η σ} {active : List Address} {a : Address}
  {w w' t t' : World (Host η)}

namespace Comparison

/-! ## The same is removed from both machines -/

section

variable {serial : Nat} {m m' : State} {service : ServiceId} {x : Address}

/-- What lies at an address that is not hidden is kept. -/
theorem Lies.kept (l : C.Lies serial a m) {id : ObjectId} {dead : Dead}
    (hx : ¬ C.hidden dead.block.address) (hid : m.heap.remains? id = some dead) : C.kept a id := by
  obtain ⟨owner, hforeign, -⟩ := Machine.Heap.remains?_eq_some.1 hid
  exact Classical.byContradiction fun h => hx ((l.block id owner dead.block hforeign).2.2 h)

/-- What goes from the second machine is not hidden, and goes from the first one with the same object. -/
theorem Machines.mem_release (h : C.Machines serial a m m') {ids ids' : List ObjectId}
    (hids : ∀ id, C.kept a id → id ∈ ids' → id ∈ ids) {dead : Dead}
    (hdead : dead ∈ (m'.heap.release ids').1) :
    ¬ C.hidden dead.block.address ∧ dead ∈ (m.heap.release ids).1 := by
  obtain ⟨id, hid, hremains⟩ := Machine.Heap.mem_release.1 hdead
  obtain ⟨owner, hforeign, -⟩ := Machine.Heap.remains?_eq_some.1 hremains
  -- the second machine has nothing that is not kept
  have hkept : C.kept a id := by
    refine Classical.byContradiction fun hlost => ?_
    rw [Machine.Heap.foreign?_of_none (h.alike.heap.lost id hlost)] at hforeign
    exact absurd hforeign (by simp)
  refine ⟨fun hx => (h.lies'.block id owner dead.block hforeign).2.1 hx hkept, ?_⟩
  rw [h.alike.heap.remains? h.alike.bounded.heap hkept] at hremains
  exact Machine.Heap.mem_release.2 ⟨id, hids id hkept hid, hremains⟩

/-- Where nothing is hidden, the same payloads go when the same objects do. -/
theorem Machines.taken_release (h : C.Machines serial a m m') {ids ids' : List ObjectId}
    (hids : ∀ id, C.kept a id → (id ∈ ids' ↔ id ∈ ids)) (hx : ¬ C.hidden x) :
    Taken (m'.heap.release ids').1 service x ↔ Taken (m.heap.release ids).1 service x := by
  constructor
  · rintro ⟨hpos, d, hd, hkey, hblock⟩
    exact ⟨hpos, d, (h.mem_release (fun id hid => (hids id hid).1) hd).2, hkey, hblock⟩
  · rintro ⟨hpos, d, hd, hkey, hblock⟩
    obtain ⟨id, hid, hremains⟩ := Machine.Heap.mem_release.1 hd
    have hkept := h.lies.kept (by rwa [hblock]) hremains
    refine ⟨hpos, d, Machine.Heap.mem_release.2 ⟨id, (hids id hkept).2 hid, ?_⟩, hkey, hblock⟩
    rw [h.alike.heap.remains? h.alike.bounded.heap hkept, hremains]

theorem Machines.taken_drain (h : C.Machines serial a m m') (hx : ¬ C.hidden x) :
    Taken m'.drain.1 service x ↔ Taken m.drain.1 service x :=
  h.taken_release (fun _ hid => h.alike.heap.mem_keys hid) hx

theorem Machines.mem_garbage (h : C.Machines serial a m m') {id : ObjectId} (hid : C.kept a id) :
    (id ∈ m'.heap.objects.keys.filter fun id => !(m'.heap.reachable m'.roots).contains id) ↔
      id ∈ m.heap.objects.keys.filter fun id => !(m.heap.reachable m.roots).contains id := by
  have hreach : (id ∈ m'.heap.reachable m'.roots ↔ id ∈ m.heap.reachable m.roots) ∧ _ :=
    h.alike.reachable
  rw [List.mem_filter, List.mem_filter, h.alike.heap.mem_keys hid]
  simp [hreach.1]

theorem Machines.taken_sweep (h : C.Machines serial a m m') (hx : ¬ C.hidden x) :
    Taken m'.sweep.1 service x ↔ Taken m.sweep.1 service x :=
  h.taken_release (fun _ => h.mem_garbage) hx

theorem foreign?_of_collected {id owner : ObjectId} {b : Block}
    (hb : m.collected.heap.foreign? id = some (owner, b)) :
    id ∈ m.heap.reachable m.roots ∧ m.heap.foreign? id = some (owner, b) := by
  have hget := m.get?_collected id
  by_cases hid : id ∈ m.heap.reachable m.roots
  · rw [if_pos hid] at hget
    exact ⟨hid, Machine.Heap.foreign?_of_get?_eq hget ▸ hb⟩
  · rw [if_neg hid] at hget
    rw [Machine.Heap.foreign?_of_none hget] at hb
    exact absurd hb (by simp)

theorem Machines.collected (h : C.Machines serial a m m') :
    C.Machines serial a m.collected m'.collected := by
  have hlies : ∀ {m : State}, C.Lies serial a m → C.Lies serial a m.collected := fun l =>
    ⟨l.handle, fun id owner b hb => l.block id owner b (foreign?_of_collected hb).2⟩
  exact ⟨h.alike.collect, hlies h.lies, hlies h.lies'⟩

end

/-! ## Both worlds -/

namespace Relates

/-- For an object whose data block is not hidden, both hosts have finalizers or none has. -/
theorem summons (r : C.Relates active w w') {dead : Dead} (hx : ¬ C.hidden dead.block.address) :
    w'.Summons dead ↔ w.Summons dead := by
  have hs := r.services
  have hfinalizer : ∀ id e, (w'.service id).payloads.finalizer? e =
      (w.service id).payloads.finalizer? e := fun id e =>
    congrArg (·.find? e.tag.type) (hs id).finalizers
  constructor
  · rintro ⟨x, service, key, rfl, hpos, hfound⟩
    rw [(hs service).bindings, (hs service).entries x hx] at hfound
    simp only [hfinalizer] at hfound
    exact ⟨x, service, key, rfl, hpos, hfound⟩
  · rintro ⟨x, service, key, rfl, hpos, hfound⟩
    rw [← (hs service).bindings, ← (hs service).entries x hx] at hfound
    simp only [← hfinalizer] at hfound
    exact ⟨x, service, key, rfl, hpos, hfound⟩

/-- A finalizer that the second host calls is one that the first one calls. -/
theorem summons_release (r : C.Relates active w w') (hn : a ∈ w.natives.keys)
    {ids ids' : List ObjectId} (hids : ∀ id, C.kept a id → id ∈ ids' → id ∈ ids)
    (h : ∃ one ∈ ((w'.machine a).heap.release ids').1, w'.Summons one) :
    ∃ one ∈ ((w.machine a).heap.release ids).1, w.Summons one := by
  obtain ⟨one, hone, hsummons⟩ := h
  obtain ⟨hx, hin⟩ := (r.machines a hn).mem_release hids hone
  exact ⟨one, hin, (r.summons hx).1 hsummons⟩

/-- Worlds from which the same payloads have been taken out. -/
theorem buries {dead dead' : List Dead} (r : C.Relates active w w') (h : C.sight.Buries dead w t)
    (h' : C.sight.Buries dead' w' t')
    (htaken : ∀ id x, ¬ C.hidden x → (Taken dead' id x ↔ Taken dead id x)) : C.Relates active t t' := by
  have hservices : ∀ id, C.Services (t.service id) (t'.service id) := by
    intro id
    have hs := r.services id
    refine ⟨?_, ?_, fun x hx => ?_⟩
    · rw [h'.bindings, h.bindings, hs.bindings]
    · rw [h'.finalizers, h.finalizers, hs.finalizers]
    · by_cases hgone : Taken dead id x
      · rw [h.gone id x hgone, h'.gone id x ((htaken id x hx).2 hgone)]
      · rw [h.left id x hgone, h'.left id x (mt (htaken id x hx).1 hgone), hs.entries x hx]
  have hserviceKeys : ∀ id, id ∈ t'.services.keys ↔ id ∈ t.services.keys := fun id =>
    (h'.serviceKeys id).trans ((r.serviceKeys id).trans (h.serviceKeys id).symm)
  have hview : C.sight.view t'.host.own = C.sight.view t.host.own := by
    rw [h'.view, h.view, r.view]
  have hhandles : t'.host.handles = t.host.handles := by
    rw [h'.handles, h.handles, r.handles]
  have hserved : ∀ id, id ∈ t.services.keys → id ∈ w.services.keys := fun id => (h.serviceKeys id).1
  have hserved' : ∀ id, id ∈ w.services.keys → id ∈ t.services.keys := fun id => (h.serviceKeys id).2
  have hmanaged' : ∀ a n, t'.natives.find? a = some n → n.isManaged = true := by
    rw [h'.natives]
    exact r.managed'
  have hnatives : ∀ a, a ∈ t'.natives.keys ↔ a ∈ w.natives.keys := by
    rw [h'.natives]
    exact r.natives
  have hmachine : ∀ a, t'.machine a = w'.machine a := h'.machine
  have hsame := r.same
  obtain ⟨services, host, rfl⟩ := h.same
  exact {
    same := by
      obtain ⟨_, _, _, _, rfl⟩ := hsame
      obtain ⟨_, _, rfl⟩ := h'.same
      exact ⟨_, _, _, _, rfl⟩
    placement := r.placement
    roster := ⟨r.roster.registered, r.roster.native, r.roster.managed, r.roster.known,
      fun id hid => hserved' _ (r.roster.served id hid), r.roster.honest⟩
    managed' := hmanaged'
    natives := hnatives
    running := r.running
    machines := fun a ha => by
      rw [hmachine]
      exact r.machines a ha
    serviceKeys := hserviceKeys
    services := hservices
    used := fun x hx => r.used x (hx.imp_right (hserved x))
    hidden := r.hidden
    kept := r.kept
    view := hview
    handles := hhandles }

end Relates

end Comparison

/-- **A collection is the same in both worlds.** -/
theorem joint_collect {d : Delegates (Host η)} (h : d.Unseen C.sight) (r : C.Relates active w w')
    (hn : a ∈ w.natives.keys) :
    Joint (C.Relates active) (fun _ => True) (onMachine d a Machine.collectGarbage)
      (onMachine d a Machine.collectGarbage : Run (World (Host η)) φ Unit) w w' := by
  have hm := r.machines a hn
  have hswept' : (w'.machine a).swept = [] := by
    rw [hm.alike.same]
    exact hm.alike.swept
  have hn' := (r.natives a).2 hn
  refine joint_of_lands (lands_collectGarbage h r.roster hn hm.alike.swept)
    (lands_collectGarbage h r.roster' hn' hswept') ?_ fun _ t _ t' ht ht' => ⟨rfl, ?_, trivial⟩
  · rw [bound_collectGarbage h r.roster hn, bound_collectGarbage h r.roster' hn']
    exact And.imp_right (r.summons_release hn fun _ hid => (hm.mem_garbage hid).1)
  · exact (r.putMachine fun _ => hm.collected).buries ht ht' fun id x hx => hm.taken_sweep hx

theorem blind_collectGarbage {e : Engine (Host η)} (h : e.delegates.Unseen C.sight) (vm : VmId) :
    C.Blind active (Vm.collectGarbage e vm : Act (Host η) Unit) := by
  refine fun w w' r => joint_live r fun a hl => ?_
  exact joint_bind_of (blind_noteCall _ r) fun _ t t' hnote rt _ =>
    joint_collect h rt (by cases hnote; exact r.roster.mem_natives hl)

/-! ## The end of a machine -/

/-- A machine that was given up leaves both worlds. -/
theorem Comparison.Relates.discarded (r : C.Relates active w w') (ha : a ∉ active)
    (hreg : a ∉ w.registered.keys) (report? : Option FreeReport) :
    C.Relates active (w.discarded a report?) (w'.discarded a report?) where
  same := by
    obtain ⟨_, _, _, _, rfl⟩ := r.same
    exact ⟨_, _, _, _, rfl⟩
  placement := r.placement
  roster := r.roster.discard hreg report?
  managed' := (r.roster'.discard (r.registered ▸ hreg) report?).managed
  natives b := by
    rw [World.discarded, World.discarded, Table.mem_keys_erase, Table.mem_keys_erase, r.natives]
  running b hb := Table.mem_keys_erase.2 ⟨fun hba => ha (hba ▸ hb), r.running b hb⟩
  machines b hb := by
    obtain ⟨hne, hb⟩ := Table.mem_keys_erase.1 hb
    rw [machine_discarded_ne hne, machine_discarded_ne hne]
    exact r.machines b hb
  serviceKeys := r.serviceKeys
  services := r.services
  used x hx := r.used x (hx.imp_left fun hx => (Table.mem_keys_erase.1 hx).2)
  hidden := r.hidden
  kept := r.kept
  view := r.view
  handles := r.handles

/-- A machine is given up in both worlds. -/
theorem Comparison.Relates.retired (r : C.Relates active w w') {vm : VmId} (hl : w.LiveAt vm a) :
    C.Relates active (w.retired vm a) (w'.retired vm a) := by
  refine r.congr ?_ rfl (Nat.le_refl _) (r.roster.retired hl) rfl rfl rfl rfl r.view r.handles
  obtain ⟨_, _, _, _, rfl⟩ := r.same
  exact ⟨_, _, _, _, rfl⟩

section

variable {e : Engine (Host η)} (h : e.delegates.Unseen C.sight)
include h

/-- **The end of a machine is the same in both worlds**, the report on it included. -/
theorem joint_endMachine (r : C.Relates active w w') (hn : a ∈ w.natives.keys) (ha : a ∉ active)
    (hreg : a ∉ w.registered.keys) :
    Joint (C.Relates active) (fun _ => True) (Vm.endMachine e a)
      (Vm.endMachine e a : Run (World (Host η)) φ Unit) w w' := by
  have hm := r.machines a hn
  have hswept' : (w'.machine a).swept = [] := by
    rw [hm.alike.same]
    exact hm.alike.swept
  have herase : ∀ (u : World (Host η)) m report?,
      (u.putMachine a m).discarded a report? = u.discarded a report? := by
    intro u m report?
    rw [World.discarded, World.discarded, World.putMachine, Table.erase_modify]
  have hn' := (r.natives a).2 hn
  refine joint_bind_lands (lands_shutdown h r.roster hn hm.alike.swept)
    (lands_shutdown h r.roster' hn' hswept') ?_ ?_
  · rw [bound_shutdown h r.roster hn, bound_shutdown h r.roster' hn']
    exact And.imp_right (r.summons_release hn fun _ hid => (hm.alike.heap.mem_keys hid).1)
  rintro _ t _ t' ⟨rfl, hcount, m, hburies⟩ ⟨rfl, hcount', m', hburies'⟩
  have hdiscarded : C.Relates active
      (t.discarded a (some ⟨(w.machine a).handles.size, (t.machine a).finalized⟩))
      (t'.discarded a (some ⟨(w'.machine a).handles.size, (t'.machine a).finalized⟩)) := by
    have hd := hburies.discarded a (some ⟨(w.machine a).handles.size, (t.machine a).finalized⟩)
    have hd' := hburies'.discarded a (some ⟨(w'.machine a).handles.size, (t'.machine a).finalized⟩)
    rw [herase] at hd hd'
    rw [hcount', hm.alike.handles, hm.alike.total, ← hcount] at hd' ⊢
    exact (r.discarded ha hreg _).buries hd hd' fun id x hx => hm.taken_drain hx
  refine joint_bind (joint_modify hdiscarded) fun _ u u' ru _ => joint_get ?_
  rw [ru.freeReport?]
  cases u.freeReport? with
  | none => exact blind_pure () ru
  | some report => exact blind_log _ _ ru

omit h in
theorem blind_forceRelease (a : Address) (l : List (Address × Nat)) :
    C.Blind active (Vm.forceRelease a l : Run (World (Host η)) φ Unit) := by
  induction l with
  | nil => exact blind_pure ()
  | cons e rest ih =>
    refine blind_bind (blind_forgetHandle _ _) fun found => ?_
    split
    · exact blind_bind (blind_nativeRelease _ _) fun _ => blind_bind (blind_log _ _) fun _ => ih
    · exact ih

omit h in
theorem blind_settleLeaks (vm : VmId) :
    C.Blind active (Vm.settleLeaks vm : Run (World (Host η)) φ Unit) := by
  refine blind_bind (blind_gets fun r => r.vm vm) fun record => ?_
  split
  · exact blind_pure ()
  · dsimp only
    split
    · exact blind_bind (blind_log _ _) fun _ => blind_halt _
    · refine blind_bind (blind_log _ _) fun _ => blind_bind (blind_modify fun r => ?_) fun _ =>
        blind_forceRelease _ _
      exact r.modifyVm vm (fun _ => rfl) (fun _ => rfl) fun _ => rfl

omit h in
/-- Releasing handles by force changes no record of a machine. -/
theorem lands_forceRelease (a : Address) (l : List (Address × Nat)) : ∀ w : World (Host η),
    Lands (fun _ t => t.vms = w.vms) (Vm.forceRelease a l : Run (World (Host η)) φ Unit) w := by
  induction l with
  | nil => exact fun w => lands_of_value rfl rfl
  | cons e rest ih =>
    intro w
    refine lands_bind (lands_of_value (Q := fun _ t => t.vms = w.vms) rfl rfl) fun found t ht => ?_
    split
    · exact (ih _).mono fun _ u hu => hu.trans ht
    · exact (ih t).mono fun _ u hu => hu.trans ht

omit h in
/-- A machine whose handles are settled is still alive. -/
theorem live_of_settleLeaks {vm : VmId} (hl : w.LiveAt vm a)
    (hrun : (Vm.settleLeaks vm : Run (World (Host η)) φ Unit) w = (.value (), t)) : t.LiveAt vm a := by
  by_cases hout : (w.vm vm).outstanding = []
  · cases (settleLeaks_of_nil hout).symm.trans hrun
    exact hl
  cases hpolicy : (w.vm vm).policy with
  | panic => cases (settleLeaks_of_panic hout hpolicy).symm.trans hrun
  | forceRelease =>
    let message := Vm.leakMessage (w.vm vm).address (w.vm vm).outstanding.length
    let u := (w.logged .warn (message ++ "; releasing them")).cleared vm
    have hempty : ¬ (w.vm vm).outstanding.isEmpty = true := by simpa using hout
    have hforce : (Vm.settleLeaks vm : Run (World (Host η)) φ Unit) w =
        Vm.forceRelease (w.vm vm).address (w.vm vm).outstanding.reverse u := by
      unfold Vm.settleLeaks
      refine (Run.bind_of_value rfl _).trans ?_
      rw [if_neg hempty, hpolicy]
      rfl
    have hlu : u.LiveAt vm a :=
      (World.liveAt_modifyVm _ vm (f := fun r => { r with outstanding := [] }) (fun _ => rfl)
        (fun _ => rfl) vm a).2 hl
    rcases lands_forceRelease (φ := φ) (w.vm vm).address (w.vm vm).outstanding.reverse u with
      hend | ⟨_, u', hrun', hvms⟩
    · rw [hforce.symm.trans hrun] at hend
      exact absurd hend (by simp)
    · cases (hforce.trans hrun').symm.trans hrun
      have hvm : t.vm vm = u.vm vm := by rw [World.vm, World.vm, hvms]
      rw [World.LiveAt, hvm]
      exact hlu

/-- **The owner of a machine frees it in both worlds**, or in neither. -/
theorem joint_shutdown {vm : VmId} (r : C.Relates active w w')
    (hfree : (w.vm vm).isAlive = true → w.addressOf vm ∉ active) :
    Joint (C.Relates active) (fun _ => True) (Vm.shutdown e vm)
      (Vm.shutdown e vm : Run (World (Host η)) φ Unit) w w' := by
  unfold Joint
  cases halive : (w.vm vm).isAlive with
  | false =>
    rw [shutdown_of_dead halive, shutdown_of_dead (by rw [r.vm, halive])]
    exact .same r fun _ _ => trivial
  | true =>
    have hl : w.LiveAt vm (w.vm vm).address := ⟨halive, rfl⟩
    have hl' : w'.LiveAt vm (w.vm vm).address := by
      rw [World.LiveAt, r.vm]
      exact hl
    rw [shutdown_of_live hl, shutdown_of_live hl']
    refine joint_bind_of (blind_settleLeaks vm r) fun _ t t' hrun rt _ => ?_
    have hlt := live_of_settleLeaks hl hrun
    have hreg : (w.vm vm).address ∉ (t.retired vm (w.vm vm).address).registered.keys :=
      fun hin => (Table.mem_keys_erase.1 hin).1 rfl
    exact joint_bind (joint_endMachine h (rt.retired hlt) (rt.roster.mem_natives hlt)
      (hfree halive) hreg) fun _ u u' ru _ => blind_log _ _ ru

end

end ScriptHost.Bridge
