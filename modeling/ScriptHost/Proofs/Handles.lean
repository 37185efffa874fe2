import ScriptHost.Proofs.Calls

/-!
# The life of handles

The three places in which handles are kept agree in every state (`HandlesAgree`), and a handle that
has become invalid stays so, even if its address comes back.

The trace of calls tells the rest.  The calls since a machine was made are its life (`Life`): the
handles made in it are those that the host was given for the machine.  A life that has ended is
settled (`Settled`): at every address handles are made and released in turn, and in the end as many
were released as made.  Disposing of a machine is what makes it so, by releasing what is left, the
newest handle first; or else it stops before it has done anything (`Setting.handles_settled`).
-/

namespace ScriptHost.Bridge

open Machine (State)

variable {η : Type}

/-! ## The three places -/

/-- The list of every machine, the table, and the machines themselves agree on the handles. -/
structure HandlesAgree (w : World (Host η)) : Prop where
  nodup : ∀ vm, (w.vm vm).outstanding.Nodup
  /-- The handles listed for a machine are those that the table records for it. -/
  recorded : ∀ vm a, w.LiveAt vm a → ∀ x id,
    (x, id) ∈ (w.vm vm).outstanding ↔ w.handles.find? x = some ⟨id, a⟩
  /-- The handles listed for a machine are those that it holds. -/
  native : ∀ vm a, w.LiveAt vm a → ∀ x,
    x ∈ (w.machine a).handles.keys ↔ ∃ id, (x, id) ∈ (w.vm vm).outstanding
  /-- A handle is valid as long as it is listed. -/
  valid : ∀ h ∈ w.host.handles,
    (w.isValid h = true ↔ (h.address, h.id) ∈ (w.vm h.vm).outstanding)
  count : ∀ vm, (w.vm vm).outstanding.length =
    w.host.handles.countP fun h => h.vm == vm && w.isValid h
  /-- A handle that was seen to be invalid between two operations still is. -/
  lapsed : ∀ h ∈ w.host.lapsed, w.isValid h = false

theorem Sound.handlesAgree {w : World (Host η)} (s : Sound w) : HandlesAgree w := by
  have b := s.books
  have hlisted : ∀ vm x id, (x, id) ∈ (w.vm vm).outstanding ↔
      ∃ h ∈ w.host.handles, h.vm = vm ∧ h.address = x ∧ h.id = id ∧ w.isValid h = true := by
    intro vm x id
    rw [b.outstanding, List.mem_map]
    constructor
    · rintro ⟨h, hopen, hkey⟩
      obtain ⟨hm, hvm, hv⟩ := Books.mem_openHandles.1 hopen
      exact ⟨h, hm, hvm, congrArg Prod.fst hkey, congrArg Prod.snd hkey, hv⟩
    · rintro ⟨h, hm, hvm, rfl, rfl, hv⟩
      exact ⟨h, Books.mem_openHandles.2 ⟨hm, hvm, hv⟩, rfl⟩
  refine ⟨b.nodup_outstanding, ?_, ?_, ?_, ?_, fun h hm => (b.lapsed h hm).2⟩
  · intro vm a hl x id
    rw [hlisted]
    constructor
    · rintro ⟨h, hm, rfl, rfl, rfl, hv⟩
      obtain ⟨a', hl', hfind⟩ := b.exists_liveAt hm hv
      rw [hfind, hl.2.symm.trans hl'.2]
    · intro hfind
      obtain ⟨h, hm, rfl, hid, hl'⟩ := b.recorded x _ hfind
      have hv : w.isValid h = true := World.isValid_iff.2 ⟨_, hfind, hid.symm⟩
      exact ⟨h, hm, s.roster.eq_of_liveAt hl' hl, rfl, hid, hv⟩
  · intro vm a hl x
    rw [b.native vm a hl x]
    constructor
    · rintro ⟨h, hm, hvm, haddr, hv⟩
      exact ⟨h.id, (hlisted _ _ _).2 ⟨h, hm, hvm, haddr, rfl, hv⟩⟩
    · rintro ⟨id, hin⟩
      obtain ⟨h, hm, hvm, haddr, -, hv⟩ := (hlisted _ _ _).1 hin
      exact ⟨h, hm, hvm, haddr, hv⟩
  · intro h hm
    rw [hlisted]
    constructor
    · exact fun hv => ⟨h, hm, rfl, rfl, rfl, hv⟩
    · rintro ⟨h', hm', -, -, hid, hv⟩
      obtain rfl := b.eq_of_id hm' hm hid
      exact hv
  · intro vm
    rw [b.outstanding, List.length_map, World.openHandles, List.countP_eq_length_filter]

/-- A step makes no handle valid that the host has been given before. -/
theorem Step.invalid {w w' : World (Host η)} (hs : Step w w') (s : Sound w) {h : CallHandle}
    (hm : h ∈ w.host.handles) (hv : w.isValid h = false) :
    h ∈ w'.host.handles ∧ w'.isValid h = false := by
  cases hs with
  | adopt target hl hx =>
    refine ⟨List.mem_append_left _ hm, ?_⟩
    rw [Books.isValid_withHandle_old (s.books.not_mem_of_fresh s.roster hx) (s.books.fresh h hm)]
    exact hv
  | release hm' hv' hl =>
    refine ⟨hm, Bool.eq_false_iff.2 fun hvalid => ?_⟩
    rw [Books.isValid_withoutHandle s.books hm' hv' hm, hv] at hvalid
    exact absurd hvalid.2 (by simp)
  | @finalize a d =>
    obtain ⟨services, hfinalized⟩ := w.finalized_eq a d
    rw [hfinalized]
    exact ⟨hm, hv⟩
  | _ => exact ⟨hm, hv⟩

/-- **Once invalid, a handle is never valid again**, whatever becomes of its address. -/
theorem Steps.invalid {w w' : World (Host η)} (hs : Steps w w') (s : Sound w) {h : CallHandle}
    (hm : h ∈ w.host.handles) (hv : w.isValid h = false) : w'.isValid h = false :=
  (Steps.preserve (P := fun w => Sound w ∧ h ∈ w.host.handles ∧ w.isValid h = false)
    (fun hstep hP => ⟨hstep.sound hP.1, hstep.invalid hP.1 hP.2.1 hP.2.2⟩) hs ⟨s, hm, hv⟩).2.2

/-- **In every state of every host, the list of a machine, the table and the machine agree on the
handles, and a handle that has become invalid stays so.** -/
theorem Setting.handles_agree [Observer η] {α : Type} (s : Setting η) (p : Program η α) :
    HandlesAgree (s.run p).2 ∧
      ∀ w, Steps s.start w → HandlesAgree w ∧
        ∀ w', Steps w w' → ∀ h ∈ w.host.handles, w.isValid h = false → w'.isValid h = false := by
  refine ⟨(s.sound_run p).handlesAgree, fun w hw => ?_⟩
  have hs := hw.sound s.steady_start.sound
  exact ⟨hs.handlesAgree, fun w' hw' h hm hv => hw'.invalid hs hm hv⟩

/-- A handle that was released stays invalid when another one is made at its address. -/
theorem Setting.handles_agree_exchanged :
    (exchanged .panic).host.handles = [⟨3, 1, 1⟩, ⟨4, 2, 1⟩, ⟨4, 3, 1⟩] ∧
      ((exchanged .panic).vm 1).outstanding = [(3, 1), (4, 3)] ∧
      HandlesAgree (exchanged .panic) ∧
      Steps silent.start (exchanged .panic) ∧
      (exchanged .panic).isValid ⟨4, 2, 1⟩ = false ∧
      (exchanged .panic).watch.isValid ⟨4, 2, 1⟩ = false := by
  have hhandles := handles_exchanged .panic
  have hout : ((exchanged .panic).vm 1).outstanding = [(3, 1), (4, 3)] := by
    rw [vm_exchanged]
  have hmade : ⟨4, 2, 1⟩ ∈ (exchanged .panic).host.handles := by simp [hhandles]
  have hsteps : Steps silent.start (exchanged .panic) := silent.steps_run (.exchange .panic)
  have hwatch : Steps (exchanged .panic) (exchanged .panic).watch := .single (.watch _)
  obtain ⟨-, hall⟩ := handles_agree silent (.exchange .panic)
  obtain ⟨hagree, hstays⟩ := hall _ hsteps
  have hvalid : (exchanged .panic).isValid ⟨4, 2, 1⟩ = false := by
    refine Bool.eq_false_iff.2 fun hv => ?_
    have hlisted := (hagree.valid _ hmade).1 hv
    simp [hout] at hlisted
  exact ⟨hhandles, hout, hagree, hsteps, hvalid, hstays _ hwatch _ hmade hvalid⟩

/-! ## Lives -/

/-- The address of the handle that a call makes for the machine at `a`. -/
def made? (a : Address) : NativeCall → Option Address
  | .makeHandle b x => if b = a then some x else none
  | _ => none

/-- A stretch of calls since a machine was made at `a`, the last one first.  What was made in it are
the handles that the host was given for the machine. -/
structure Life (w : World (Host η)) (vm : VmId) (a : Address) (life : List NativeCall) : Prop where
  whole : ∀ c ∈ life, c ≠ .create a ∧ c ≠ .free a
  made : life.filterMap (made? a) =
    ((w.host.handles.filter fun h => h.vm = vm).map CallHandle.address).reverse

/-- Every machine has a life, and one that was freed has lived before. -/
structure Lives (w : World (Host η)) : Prop where
  lasting : ∀ vm a, w.LiveAt vm a →
    ∃ life before, w.calls = life ++ .create a :: before ∧ Life w vm a life
  ended : ∀ vm ∈ w.vms.keys, (w.vm vm).isAlive = false → ∃ later life before,
    w.calls = later ++ .free (w.addressOf vm) :: (life ++ .create (w.addressOf vm) :: before) ∧
      Life w vm (w.addressOf vm) life

namespace Lives

variable {w w' : World (Host η)} {vm : VmId} {a x : Address}

theorem start (typeNames : TypeNames) (placement : Placement) (own : η) :
    Lives (World.start typeNames placement own) := by
  refine ⟨fun vm a hl => ?_, fun vm hvm => ?_⟩
  · exact absurd hl.1 (by simp [World.start, World.empty, World.vm, Table.find?_empty,
      VmRecord.unknown])
  · exact absurd hvm (by simp [World.start, World.empty, Table.keys, Table.empty])

/-- Calls that concern no life, and changes beside the trace. -/
theorem congr (l : Lives w) (news : List NativeCall) (hcalls : w'.calls = news ++ w.calls)
    (hnews : ∀ c ∈ news, (∀ a, c ≠ .create a ∧ c ≠ .free a) ∧ ∀ a, made? a c = none)
    (hhandles : w'.host.handles = w.host.handles)
    (hkeys : ∀ id, id ∈ w'.vms.keys ↔ id ∈ w.vms.keys)
    (halive : ∀ id, (w'.vm id).isAlive = (w.vm id).isAlive)
    (haddress : ∀ id, (w'.vm id).address = (w.vm id).address) : Lives w' := by
  have hmade : ∀ a, news.filterMap (made? a) = [] := fun a =>
    List.filterMap_eq_nil_iff.2 fun c hc => (hnews c hc).2 a
  refine ⟨fun vm a hl => ?_, fun vm hvm hdead => ?_⟩
  · have hl' : w.LiveAt vm a := ⟨(halive vm).symm.trans hl.1, (haddress vm).symm.trans hl.2⟩
    obtain ⟨life, before, htrace, hlife⟩ := l.lasting vm a hl'
    refine ⟨news ++ life, before, by rw [hcalls, htrace, List.append_assoc], ?_, ?_⟩
    · intro c hc
      rcases List.mem_append.1 hc with hc | hc
      · exact (hnews c hc).1 a
      · exact hlife.whole c hc
    · rw [List.filterMap_append, hmade, List.nil_append, hlife.made, hhandles]
  · rw [halive] at hdead
    obtain ⟨later, life, before, htrace, hlife⟩ := l.ended vm ((hkeys vm).1 hvm) hdead
    have hsame : w'.addressOf vm = w.addressOf vm := haddress vm
    rw [hsame]
    refine ⟨news ++ later, life, before, by rw [hcalls, htrace, List.append_assoc], hlife.whole, ?_⟩
    rw [hlife.made, hhandles]

theorem unchanged (l : Lives w) (hcalls : w'.calls = w.calls)
    (hhandles : w'.host.handles = w.host.handles) (hvms : w'.vms = w.vms) : Lives w' := by
  have hvm : ∀ id, w'.vm id = w.vm id := fun id => by rw [World.vm, World.vm, hvms]
  exact l.congr [] hcalls (fun _ hc => absurd hc List.not_mem_nil) hhandles
    (fun id => by rw [hvms]) (fun id => by rw [hvm]) fun id => by rw [hvm]

/-- The record of a machine changes, but not whether it is alive, nor its address. -/
theorem modifyVm (l : Lives w) (news : List NativeCall) {f : VmRecord → VmRecord}
    (hcalls : w'.calls = news ++ w.calls)
    (hnews : ∀ c ∈ news, (∀ a, c ≠ .create a ∧ c ≠ .free a) ∧ ∀ a, made? a c = none)
    (hhandles : w'.host.handles = w.host.handles) (hvms : w'.vms = w.vms.modify vm f)
    (halive : ∀ r, (f r).isAlive = r.isAlive) (haddress : ∀ r, (f r).address = r.address) :
    Lives w' := by
  have hvm : ∀ id, w'.vm id = (w.modifyVm vm f).vm id := fun id => by
    rw [World.vm, World.vm, hvms]
    rfl
  refine l.congr news hcalls hnews hhandles (fun id => ?_) (fun id => ?_) fun id => ?_
  · rw [hvms]
    exact Table.mem_keys_modify
  · rw [hvm]
    exact World.field_modifyVm w vm VmRecord.isAlive halive id
  · rw [hvm]
    exact World.field_modifyVm w vm VmRecord.address haddress id

theorem withVm (l : Lives w) (s : Sound w) {service : ServiceId} (policy : LeakPolicy)
    (ha : a ∉ w.natives.keys) : Lives (w.withVm a service policy) := by
  have hhost : (w.withVm a service policy).host = w.host := rfl
  refine ⟨fun id b hl => ?_, fun id hid hdead => ?_⟩
  · rcases (World.liveAt_withVm _ _ _ _ _ _).1 hl with ⟨rfl, rfl⟩ | ⟨-, hold⟩
    · -- a new machine has made no handles
      refine ⟨[], w.calls, rfl, fun c hc => absurd hc List.not_mem_nil, ?_⟩
      have hnone : w.host.handles.filter (fun h => h.vm = w.nextVmId) = [] := by
        refine List.filter_eq_nil_iff.2 fun h hm => ?_
        simpa using Nat.ne_of_lt (s.books.known h hm)
      rw [hhost, hnone]
      rfl
    · have hne : b ≠ a := by
        rintro rfl
        exact ha (s.roster.mem_natives hold)
      obtain ⟨life, before, htrace, hlife⟩ := l.lasting id b hold
      refine ⟨.create a :: life, before, congrArg _ htrace, ?_, hlife.made⟩
      intro c hc
      rcases List.mem_cons.1 hc with rfl | hc
      · exact ⟨by simpa using Ne.symm hne, by simp⟩
      · exact hlife.whole c hc
  · have hid' : id ≠ w.nextVmId := by
      rintro rfl
      rw [World.vm_withVm_self] at hdead
      exact absurd hdead (by simp)
    rw [World.vm_withVm_ne _ _ _ _ hid'] at hdead
    have hold : id ∈ w.vms.keys := (Table.mem_keys_insert.1 hid).resolve_left hid'
    obtain ⟨later, life, before, htrace, hlife⟩ := l.ended id hold hdead
    have haddr : (w.withVm a service policy).addressOf id = w.addressOf id :=
      congrArg VmRecord.address (World.vm_withVm_ne _ _ _ _ hid')
    rw [haddr]
    exact ⟨.create a :: later, life, before, congrArg _ htrace, hlife.whole, hlife.made⟩

theorem withHandle (l : Lives w) (s : Sound w) (hl : w.LiveAt vm a)
    (target : Machine.HandleTarget) : Lives (w.withHandle vm a x target) := by
  have hhost : (w.withHandle vm a x target).host.handles =
      w.host.handles ++ [⟨x, w.nextHandleId, vm⟩] := rfl
  have hother : ∀ id, id ≠ vm →
      (w.withHandle vm a x target).host.handles.filter (fun h => h.vm = id) =
        w.host.handles.filter fun h => h.vm = id := by
    intro id hid
    rw [hhost, List.filter_append]
    simp [Ne.symm hid]
  refine ⟨fun id b hl' => ?_, fun id hid hdead => ?_⟩
  · rw [Books.liveAt_withHandle] at hl'
    obtain ⟨life, before, htrace, hlife⟩ := l.lasting id b hl'
    refine ⟨.makeHandle a x :: life, before, congrArg _ htrace, ?_, ?_⟩
    · intro c hc
      rcases List.mem_cons.1 hc with rfl | hc
      · exact ⟨by simp, by simp⟩
      · exact hlife.whole c hc
    · by_cases hvm : id = vm
      · subst hvm
        obtain rfl : a = b := hl.2.symm.trans hl'.2
        have hnew : made? a (.makeHandle a x) = some x := by simp [made?]
        rw [List.filterMap_cons_some hnew, hlife.made, hhost, List.filter_append]
        simp
      · have hne : a ≠ b := by
          rintro rfl
          exact hvm (s.roster.eq_of_liveAt hl' hl)
        rw [List.filterMap_cons_none (by simp [made?, hne]), hlife.made, hother id hvm]
  · have hrec : ((w.withHandle vm a x target).vm id).isAlive = (w.vm id).isAlive :=
      World.field_modifyVm w vm
        (f := fun r => { r with outstanding := r.outstanding ++ [(x, w.nextHandleId)] })
        VmRecord.isAlive (fun _ => rfl) id
    have haddr : (w.withHandle vm a x target).addressOf id = w.addressOf id :=
      World.field_modifyVm w vm
        (f := fun r => { r with outstanding := r.outstanding ++ [(x, w.nextHandleId)] })
        VmRecord.address (fun _ => rfl) id
    rw [hrec] at hdead
    have hvm : id ≠ vm := by
      rintro rfl
      rw [hl.1] at hdead
      exact absurd hdead (by simp)
    obtain ⟨later, life, before, htrace, hlife⟩ := l.ended id (Table.mem_keys_modify.1 hid) hdead
    rw [haddr]
    refine ⟨.makeHandle a x :: later, life, before, congrArg _ htrace, hlife.whole, ?_⟩
    rw [hlife.made, hother id hvm]

/-- The life of a machine ends when it is given up. -/
theorem retired (l : Lives w) (s : Sound w) (hl : w.LiveAt vm a) : Lives (w.retired vm a) := by
  have hk : vm ∈ w.vms.keys := World.mem_vms_of_isAlive hl.1
  have hhost : (w.retired vm a).host = w.host := rfl
  refine ⟨fun id b hl' => ?_, fun id hid hdead => ?_⟩
  · obtain ⟨hid, hold⟩ := (World.liveAt_retired hk _ _ _).1 hl'
    have hne : b ≠ a := by
      rintro rfl
      exact hid (s.roster.eq_of_liveAt hold hl)
    obtain ⟨life, before, htrace, hlife⟩ := l.lasting id b hold
    refine ⟨.free a :: life, before, congrArg _ htrace, ?_, hlife.made⟩
    intro c hc
    rcases List.mem_cons.1 hc with rfl | hc
    · exact ⟨by simp, by simpa using Ne.symm hne⟩
    · exact hlife.whole c hc
  · by_cases hvm : id = vm
    · subst hvm
      obtain ⟨life, before, htrace, hlife⟩ := l.lasting id a hl
      have haddr : (w.retired id a).addressOf id = a := by
        rw [World.addressOf, World.vm_retired_self hk]
        exact hl.2
      rw [haddr]
      exact ⟨[], life, before, congrArg _ htrace, hlife.whole, hlife.made⟩
    · rw [World.vm_retired_ne _ hvm] at hdead
      obtain ⟨later, life, before, htrace, hlife⟩ :=
        l.ended id (Table.mem_keys_modify.1 hid) hdead
      have haddr : (w.retired vm a).addressOf id = w.addressOf id :=
        congrArg VmRecord.address (World.vm_retired_ne w hvm a)
      rw [haddr]
      exact ⟨.free a :: later, life, before, congrArg _ htrace, hlife.whole, hlife.made⟩

end Lives

/-- **Every step continues the lives of machines.** -/
theorem Step.lives {w w' : World (Host η)} (hs : Step w w') (s : Sound w) (l : Lives w) :
    Lives w' := by
  cases hs with
  | idle | watch | misreport | work | serve | found | bear | sweep | drain | bury | discard =>
    exact l.unchanged rfl rfl rfl
  | @enter _ a =>
    refine l.congr [.enter a] rfl ?_ rfl (fun _ => Iff.rfl) (fun _ => rfl) fun _ => rfl
    simp [made?]
  | @use h a =>
    refine l.congr [.useHandle a h.address] rfl ?_ rfl (fun _ => Iff.rfl) (fun _ => rfl)
      fun _ => rfl
    simp [made?]
  | listen vm f =>
    exact l.modifyVm [] rfl (fun _ hc => absurd hc List.not_mem_nil) rfl rfl (fun _ => rfl)
      fun _ => rfl
  | create policy ha => exact l.withVm s policy ha
  | adopt target hl => exact l.withHandle s hl target
  | @release h a =>
    refine l.modifyVm [.releaseHandle a h.address] rfl ?_ rfl rfl (fun _ => rfl) fun _ => rfl
    simp [made?]
  | retire hl => exact l.retired s hl
  | @finalize a d =>
    obtain ⟨services, hfinalized⟩ := w.finalized_eq a d
    rw [hfinalized]
    exact l.unchanged rfl rfl rfl

theorem Steps.lives {w w' : World (Host η)} (hs : Steps w w') (s : Sound w) (l : Lives w) :
    Lives w' :=
  (Steps.preserve (P := fun w => Sound w ∧ Lives w)
    (fun hstep h => ⟨hstep.sound h.1, hstep.lives h.1 h.2⟩) hs ⟨s, l⟩).2

/-! ## Settled lives -/

/-- In a stretch of calls handles are made and released in turn, and as many are released as made. -/
structure Settled (a : Address) (life : List NativeCall) : Prop where
  once : ∀ x, life.count (.releaseHandle a x) = life.count (.makeHandle a x)
  inTurn : ∀ x newer older, life = newer ++ older →
    older.count (.releaseHandle a x) ≤ older.count (.makeHandle a x) ∧
      older.count (.makeHandle a x) ≤ older.count (.releaseHandle a x) + 1

/-- In a lawful trace, what was made since the machine was made and not released is held. -/
theorem Lawful.count_life {a : Address} {before : List NativeCall} (x : Address) :
    ∀ {life : List NativeCall}, Lawful (life ++ .create a :: before) →
      (∀ c ∈ life, c ≠ .create a ∧ c ≠ .free a) →
      life.count (.makeHandle a x) = life.count (.releaseHandle a x) +
        if holds (life ++ .create a :: before) a x then 1 else 0 := by
  intro life
  induction life with
  | nil =>
    intro _ _
    simp [holds_create_self]
  | cons c life ih =>
    intro hlawful hwhole
    obtain ⟨hallowed, hlawful⟩ := hlawful
    have hold := ih hlawful fun c hc => hwhole c (List.mem_cons_of_mem _ hc)
    have hc := hwhole c List.mem_cons_self
    rw [List.count_cons, List.count_cons, hold, List.cons_append]
    cases c with
    | create b =>
      have hne : a ≠ b := fun h => hc.1 (by rw [h])
      simp [holds_create_ne hne]
    | free b =>
      have hne : a ≠ b := fun h => hc.2 (by rw [h])
      simp [holds_free_ne hne]
    | enter b =>
      rw [holds_enter]
      simp
    | useHandle b y =>
      rw [holds_useHandle]
      simp
    | makeHandle b y =>
      by_cases hb : b = a
      · subst hb
        by_cases hy : y = x
        · subst hy
          have hnot : holds (life ++ .create b :: before) b y = false := hallowed.2
          simp [hnot, holds]
        · simp [holds, hy]
      · simp [holds, hb]
    | releaseHandle b y =>
      by_cases hb : b = a
      · subst hb
        by_cases hy : y = x
        · subst hy
          have hheld : holds (life ++ .create b :: before) b y = true := hallowed.2
          simp [hheld, holds]
        · simp [holds, hy]
      · simp [holds, hb]

/-- **A life that has ended is settled.** -/
theorem Lawful.settled {a : Address} {life before : List NativeCall}
    (h : Lawful (.free a :: (life ++ .create a :: before)))
    (hwhole : ∀ c ∈ life, c ≠ .create a ∧ c ≠ .free a) : Settled a life := by
  obtain ⟨⟨-, hnone⟩, hlawful⟩ := h
  refine ⟨fun x => ?_, fun x newer older heq => ?_⟩
  · have hcount := hlawful.count_life x hwhole
    rw [hnone x] at hcount
    simpa using hcount.symm
  · subst heq
    rw [List.append_assoc] at hlawful
    have hcount := hlawful.of_append.count_life x
      fun c hc => hwhole c (List.mem_append_right _ hc)
    split at hcount <;> omega

/-- **Nothing is released after the machine was freed**, until another one lies there. -/
theorem Lawful.not_release {a : Address} {later before : List NativeCall}
    (h : Lawful (later ++ .free a :: before)) (hlater : .create a ∉ later) :
    ∀ x, .releaseHandle a x ∉ later := by
  -- the machine is not open at any time in between
  have hclosed : ∀ {l : List NativeCall}, .create a ∉ l → isOpen (l ++ .free a :: before) a = false := by
    intro l
    induction l with
    | nil => simp [isOpen]
    | cons c l ih =>
      intro hl
      rw [List.mem_cons, not_or] at hl
      have hold := ih hl.2
      cases c with
      | create b =>
        have hne : b ≠ a := fun h => hl.1 (by rw [h])
        simp [isOpen, hold, hne]
      | free b => simp [isOpen, hold]
      | _ => simpa [isOpen] using hold
  intro x hx
  obtain ⟨newer, older, rfl⟩ := List.append_of_mem hx
  have hat : Lawful (.releaseHandle a x :: (older ++ .free a :: before)) := by
    rw [List.append_assoc] at h
    exact h.of_append
  have hopen := hat.1.1
  rw [hclosed fun hin => hlater (List.mem_append_right _ (List.mem_cons_of_mem _ hin))] at hopen
  exact absurd hopen (by simp)

/-! ## Disposing -/

/-- No step takes back a call. -/
theorem Step.calls_suffix {w w' : World (Host η)} (hs : Step w w') :
    ∃ later, w'.calls = later ++ w.calls := by
  cases hs with
  | enter | use | create | adopt | release | retire => exact ⟨[_], rfl⟩
  | @finalize a d =>
    obtain ⟨services, hfinalized⟩ := w.finalized_eq a d
    rw [hfinalized]
    exact ⟨[], rfl⟩
  | _ => exact ⟨[], rfl⟩

theorem Steps.calls_suffix {w w' : World (Host η)} (hs : Steps w w') :
    ∃ later, w'.calls = later ++ w.calls := by
  refine Steps.preserve (P := fun v => ∃ later, v.calls = later ++ w.calls) ?_ hs ⟨[], rfl⟩
  rintro v v' hstep ⟨later, hlater⟩
  obtain ⟨more, hmore⟩ := hstep.calls_suffix
  exact ⟨more ++ later, by rw [hmore, hlater, List.append_assoc]⟩

/-- How a disposal that forces handles ends.  The handles that were not released before are released
in the reverse order of their creation, and then the machine is freed. -/
structure Forced (w : World (Host η)) (vm : VmId) (a : Address)
    (r : Outcome HostError Unit × World (Host η)) : Prop where
  steps : Steps w r.2
  calls : ∃ later, r.2.calls = later ++ .free a ::
    ((w.openHandles vm).map (fun h => .releaseHandle a h.address) ++ w.calls)
  /-- Unless a finalizer has ended the process, the machine is gone, and its handles with it. -/
  ends : r.1.isFinal = false → r.1 = .value () ∧ (r.2.vm vm).isAlive = false ∧
    (∀ h ∈ r.2.host.handles, h.vm = vm → r.2.isValid h = false) ∧
    ∃ n, r.2.freeReport? = some ⟨0, n⟩

section

variable [Observer η] {active : List Address} {a : Address} {vm : VmId} {w : World (Host η)}
  {engines : List Address → Engine (Host η)}

/-- A machine whose handles are settled is gone behind its disposal. -/
theorem gone_of_settled (h : Regime.free.Finalizers (a :: active) (engines (a :: active)).delegates)
    (hw : Steady active w) (ha : a ∉ active) (hl : w.LiveAt vm a) {w₁ w' : World (Host η)}
    (hsettled : (Vm.settleLeaks vm : Act (Host η) Unit) w = (.value (), w₁))
    (hdeeds : Deeds (fun _ => True) .all w w₁) (hnil : (w₁.vm vm).outstanding = [])
    {o : Outcome HostError Unit} (hrun : Vm.shutdown (engines (a :: active)) vm w = (o, w')) :
    Steps w w' ∧ Steps (w₁.retired vm a) w' ∧ (o.isFinal = false → o = .value () ∧
      Steady active w' ∧ (w'.vm vm).isAlive = false ∧ ∃ n, w'.freeReport? = some ⟨0, n⟩) := by
  obtain ⟨hsteps₁, hgentle⟩ := hdeeds.calm hw.sound
  have hs₁ : Sound w₁ := hsteps₁.sound hw.sound
  have hl₁ : w₁.LiveAt vm a := (hgentle.live vm a).2 hl
  have hretire : Step w₁ (w₁.retired vm a) := .retire hl₁ hnil
  have hk : vm ∈ w₁.vms.keys := World.mem_vms_of_isAlive hl₁.1
  have hdead : ((w₁.retired vm a).vm vm).isAlive = false := by rw [World.vm_retired_self hk]
  have hlays := Regime.lawful_free.lays (upheld_free.sweeps trivial) h List.mem_cons_self
  obtain ⟨hends, -, hgoes⟩ := shutdown_ends Regime.lawful_free hlays ha trivial
    hw trivial hl hsettled hdeeds hnil hrun
  refine ⟨(hsteps₁.tail hretire).trans hends, hends, fun hfinal => ?_⟩
  obtain ⟨hvalue, hsteady, -, hreport⟩ := hgoes hfinal
  have hgone := hends.dead (hretire.sound hs₁).roster (Table.mem_keys_modify.2 hk) hdead
  exact ⟨hvalue, hsteady, hgone, hreport⟩

/-- **A disposal that forces handles releases exactly those that were not released before**, the
newest one first, and then frees the machine. -/
theorem forced_shutdown
    (h : Regime.free.Finalizers (a :: active) (engines (a :: active)).delegates)
    (hw : Steady active w) (ha : a ∉ active) (hl : w.LiveAt vm a)
    (hpolicy : (w.vm vm).policy = .forceRelease) :
    Forced w vm a (Vm.shutdown (engines (a :: active)) vm w) := by
  obtain ⟨w₁, hsettled, hdeeds, hnil, hcalls⟩ :=
    settleLeaks_of_forceRelease (φ := HostError) (P := fun _ => True) (S := .all) hw.sound trivial
      hl hpolicy
  rcases hrun : (Vm.shutdown (engines (a :: active)) vm : Act (Host η) Unit) w with ⟨o, w'⟩
  obtain ⟨hsteps, hends, hgoes⟩ := gone_of_settled h hw ha hl hsettled hdeeds hnil hrun
  refine ⟨hsteps, ?_, fun hfinal => ?_⟩
  · obtain ⟨later, hlater⟩ := hends.calls_suffix
    have hopen : (w.vm vm).outstanding.map (fun e => NativeCall.releaseHandle a e.1) =
        (w.openHandles vm).map fun h => .releaseHandle a h.address := by
      rw [hw.sound.books.outstanding, List.map_map]
      rfl
    refine ⟨later, ?_⟩
    rw [hlater, ← hopen, ← hcalls]
    rfl
  · obtain ⟨hvalue, hsteady, hgone, hreport⟩ := hgoes hfinal
    refine ⟨hvalue, hgone, fun h hm hvm => ?_, hreport⟩
    refine Bool.eq_false_iff.2 fun hv => ?_
    obtain ⟨_, hlive, -⟩ := hsteady.sound.books.exists_liveAt hm hv
    rw [hvm, World.LiveAt, hgone] at hlive
    exact absurd hlive.1 (by simp)

/-- What becomes of the handles of machines. -/
structure HandlesSettled (s : Setting η) (w : World (Host η)) : Prop where
  /-- Every handle of a machine that was freed has been released once, before the machine was
  freed. -/
  freed : ∀ vm ∈ w.vms.keys, (w.vm vm).isAlive = false → ∃ later life before,
    w.calls = later ++ .free (w.addressOf vm) :: (life ++ .create (w.addressOf vm) :: before) ∧
      Life w vm (w.addressOf vm) life ∧ Settled (w.addressOf vm) life
  after : ∀ a later before, w.calls = later ++ .free a :: before → .create a ∉ later →
    ∀ x, .releaseHandle a x ∉ later
  /-- A machine that does not run is disposed of by its owner, who may also drop it. -/
  forced : ∀ depth active vm a, Steady active w → a ∉ active → w.LiveAt vm a →
    (w.vm vm).policy = .forceRelease → ∀ op : Operation η Unit,
      op = .dispose ⟨vm, true⟩ ∨ op = .drop ⟨vm, true⟩ →
        Forced w vm a (op.run (s.code.engines s.importDepth depth) active w)
  panics : ∀ depth active vm a, w.LiveAt vm a → (w.vm vm).policy = .panic →
    (w.vm vm).outstanding ≠ [] → ∀ op : Operation η Unit,
      op = .dispose ⟨vm, true⟩ ∨ op = .drop ⟨vm, true⟩ →
        op.run (s.code.engines s.importDepth depth) active w =
          (.halt (.panic (Vm.leakMessage a (w.vm vm).outstanding.length)),
            w.logged .error (Vm.leakMessage a (w.vm vm).outstanding.length))

theorem run_disposal (e : List Address → Engine (Host η)) {op : Operation η Unit}
    (hop : op = .dispose ⟨vm, true⟩ ∨ op = .drop ⟨vm, true⟩) (hl : w.LiveAt vm a) :
    op.run e active w = Vm.shutdown (e (a :: active)) vm w := by
  rw [← hl.2]
  rcases hop with rfl | rfl
  · rfl
  · rfl

theorem Setting.handlesSettled_of_steps {s : Setting η} (hsteps : Steps s.start w) :
    HandlesSettled s w := by
  have hs := hsteps.sound s.steady_start.sound
  have htrace := Setting.trace_of_steps hsteps
  have hlives := hsteps.lives s.steady_start.sound (Lives.start _ _ _)
  refine ⟨?_, ?_, ?_, ?_⟩
  · intro vm hk hdead
    obtain ⟨later, life, before, hcalls, hlife⟩ := hlives.ended vm hk hdead
    refine ⟨later, life, before, hcalls, hlife, ?_⟩
    have hlawful := htrace.lawful
    rw [hcalls] at hlawful
    exact hlawful.of_append.settled hlife.whole
  · intro a later before hcalls hlater
    have hlawful := htrace.lawful
    rw [hcalls] at hlawful
    exact hlawful.not_release hlater
  · intro depth active vm a hw ha hl hpolicy op hop
    rw [run_disposal _ hop hl]
    exact forced_shutdown (s.finalizers_free depth (a :: active)) hw ha hl hpolicy
  · intro depth active vm a hl hpolicy hout op hop
    rw [run_disposal _ hop hl, ← hl.2]
    exact shutdown_of_halt hl (settleLeaks_of_panic hout hpolicy)

/-- **Every handle of a machine that was freed has been released once, and none after that.**  A
disposal releases those that are left, the newest one first, or it panics and changes nothing. -/
theorem Setting.handles_settled {α : Type} (s : Setting η) (p : Program η α) :
    HandlesSettled s (s.run p).2 ∧ ∀ w, Steps s.start w → HandlesSettled s w :=
  ⟨Setting.handlesSettled_of_steps (s.steps_run p),
    fun _ hw => Setting.handlesSettled_of_steps hw⟩

/-- A machine with two handles is disposed of: the newer one goes first, or both stay. -/
theorem Setting.handles_settled_exchanged :
    ((exchanged .forceRelease).LiveAt 1 2 ∧
      ((exchanged .forceRelease).vm 1).policy = .forceRelease ∧
      ((exchanged .forceRelease).vm 1).outstanding = [(3, 1), (4, 3)] ∧
      Forced (exchanged .forceRelease) 1 2
        ((Operation.dispose ⟨1, true⟩).run silent.engines [] (exchanged .forceRelease))) ∧
    (exchanged .panic).LiveAt 1 2 ∧
      ((exchanged .panic).vm 1).policy = .panic ∧
      ((exchanged .panic).vm 1).outstanding = [(3, 1), (4, 3)] ∧
      (Operation.dispose ⟨1, true⟩).run silent.engines [] (exchanged .panic) =
        (.halt (.panic (Vm.leakMessage 2 2)),
          (exchanged .panic).logged .error (Vm.leakMessage 2 2)) := by
  have hl : ∀ policy, (exchanged policy).LiveAt 1 2 := by
    intro policy
    rw [World.LiveAt, vm_exchanged]
    exact ⟨rfl, rfl⟩
  have hpolicy : ∀ policy, ((exchanged policy).vm 1).policy = policy := by
    intro policy
    rw [vm_exchanged]
  have hout : ∀ policy, ((exchanged policy).vm 1).outstanding = [(3, 1), (4, 3)] := by
    intro policy
    rw [vm_exchanged]
  constructor
  · have hsteps : Steps silent.start (exchanged .forceRelease) :=
      silent.steps_run (.exchange .forceRelease)
    have hsteady : Steady [] (exchanged .forceRelease) :=
      silent.steady_run (.exchange .forceRelease) (isFinal_exchange _)
    have hsettled := (handles_settled silent (.exchange .forceRelease)).2 _ hsteps
    refine ⟨hl _, hpolicy _, hout _, ?_⟩
    exact hsettled.forced silent.depth [] 1 2 hsteady List.not_mem_nil (hl _) (hpolicy _) _
      (Or.inl rfl)
  · have hsettled : HandlesSettled silent (exchanged .panic) :=
      (handles_settled silent (.exchange .panic)).1
    have hhalt := hsettled.panics silent.depth [] 1 2 (hl _) (hpolicy _) (by simp [hout]) _
      (Or.inl rfl)
    rw [hout] at hhalt
    exact ⟨hl _, hpolicy _, hout _, hhalt⟩

end

end ScriptHost.Bridge
