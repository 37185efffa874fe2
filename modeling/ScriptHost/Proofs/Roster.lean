import ScriptHost.Proofs.Step

/-!
# The table of machines

The process-wide table names exactly the machines that are alive, each under the address at which it
lies, and something lies at each of these addresses.  `Roster` says so, with what comes along: every
machine was made by a service that exists, and no machine gives out an address twice.  Every step
keeps it (`Step.roster`), and what a machine was made with stays, also when it has been freed
(`Steps.continues`).
-/

namespace ScriptHost.Bridge

variable {η : Type}

/-- The table of machines is right. -/
structure Roster (w : World (Host η)) : Prop where
  /-- The table names the machines that are alive. -/
  registered : ∀ a id, w.registered.find? a = some id ↔ w.LiveAt id a
  native : ∀ a ∈ w.registered.keys, a ∈ w.natives.keys
  managed : ∀ a n, w.natives.find? a = some n → n.isManaged = true
  known : ∀ id ∈ w.vms.keys, id < w.nextVmId
  served : ∀ id, (w.vm id).isAlive = true → (w.vm id).service ∈ w.services.keys
  honest : w.faults.all NativeFault.isHonest = true

namespace Roster

variable {w w' : World (Host η)}

theorem mem_registered (h : Roster w) {vm : VmId} {a : Address} (hl : w.LiveAt vm a) :
    a ∈ w.registered.keys :=
  Table.mem_keys_of_find? ((h.registered a vm).2 hl)

theorem mem_natives (h : Roster w) {vm : VmId} {a : Address} (hl : w.LiveAt vm a) :
    a ∈ w.natives.keys :=
  h.native a (h.mem_registered hl)

theorem exists_live (h : Roster w) {a : Address} (ha : a ∈ w.registered.keys) :
    ∃ vm, w.LiveAt vm a := by
  obtain ⟨vm, hvm⟩ := Table.exists_find?_of_mem ha
  exact ⟨vm, (h.registered a vm).1 hvm⟩

/-- One machine lies at an address. -/
theorem eq_of_liveAt (h : Roster w) {vm vm' : VmId} {a : Address} (hl : w.LiveAt vm a)
    (hl' : w.LiveAt vm' a) : vm = vm' := by
  have hfind := (h.registered a vm).2 hl
  have hfind' := (h.registered a vm').2 hl'
  rw [hfind] at hfind'
  exact Option.some.inj hfind'

theorem start (typeNames : TypeNames) (placement : Placement) (own : η) :
    Roster (World.start typeNames placement own) := by
  refine ⟨?_, ?_, ?_, ?_, ?_, rfl⟩
  · intro a id
    constructor
    · intro hfind
      exact absurd hfind (by simp [World.start, World.empty, Table.find?_empty])
    · intro hl
      exact absurd hl.1 (by simp [World.start, World.empty, World.vm, Table.find?_empty,
        VmRecord.unknown])
  · intro a ha
    exact absurd ha (by simp [World.start, World.empty, Table.keys, Table.empty])
  · intro a n hn
    exact absurd hn (by simp [World.start, World.empty, Table.find?_empty])
  · intro id hid
    exact absurd hid (by simp [World.start, World.empty, Table.keys, Table.empty])
  · intro id hid
    exact absurd hid (by simp [World.start, World.empty, World.vm, Table.find?_empty,
      VmRecord.unknown])

/-! ## What the table does not depend on -/

theorem congr (h : Roster w) (hregistered : w'.registered = w.registered)
    (hnatives : w'.natives = w.natives) (hvms : w'.vms = w.vms)
    (hnext : w'.nextVmId = w.nextVmId) (hservices : w'.services = w.services)
    (hfaults : w'.faults = w.faults) : Roster w' := by
  have hvm : ∀ id, w'.vm id = w.vm id := fun id => by rw [World.vm, World.vm, hvms]
  refine ⟨?_, ?_, ?_, ?_, ?_, ?_⟩
  · intro a id
    rw [hregistered, h.registered, World.LiveAt, World.LiveAt, hvm]
  · rw [hregistered, hnatives]
    exact h.native
  · rw [hnatives]
    exact h.managed
  · rw [hvms, hnext]
    exact h.known
  · intro id hid
    rw [hvm] at hid ⊢
    rw [hservices]
    exact h.served id hid
  · rw [hfaults]
    exact h.honest

theorem putMachine (h : Roster w) (a : Address) (m : Machine.State) :
    Roster (w.putMachine a m) := by
  refine ⟨h.registered, ?_, ?_, h.known, h.served, h.honest⟩
  · intro b hb
    exact World.mem_natives_putMachine.2 (h.native b hb)
  · intro b n hn
    by_cases hba : b = a
    · subst hba
      rw [World.putMachine, Table.find?_modify_self, Option.map_eq_some_iff] at hn
      obtain ⟨n', hn', rfl⟩ := hn
      exact h.managed b n' hn'
    · rw [World.putMachine, Table.find?_modify_ne _ _ hba] at hn
      exact h.managed b n hn

theorem modifyService (h : Roster w) (service : ServiceId) (f : Service → Service) :
    Roster (w.modifyService service f) := by
  refine ⟨h.registered, h.native, h.managed, h.known, ?_, h.honest⟩
  intro id hid
  exact Table.mem_keys_modify.2 (h.served id hid)

/-- Only a machine's listeners and handles change. -/
theorem modifyVm (h : Roster w) (vm : VmId) {f : VmRecord → VmRecord}
    (halive : ∀ r, (f r).isAlive = r.isAlive) (haddress : ∀ r, (f r).address = r.address)
    (hservice : ∀ r, (f r).service = r.service) : Roster (w.modifyVm vm f) := by
  refine ⟨?_, h.native, h.managed, ?_, ?_, h.honest⟩
  · intro a id
    rw [World.liveAt_modifyVm w vm halive haddress]
    exact h.registered a id
  · intro id hid
    exact h.known id (Table.mem_keys_modify.1 hid)
  · intro id hid
    rw [World.field_modifyVm w vm VmRecord.isAlive halive] at hid
    rw [World.field_modifyVm w vm VmRecord.service hservice]
    exact h.served id hid

/-- A handle is made or released. -/
theorem withOutstanding (h : Roster w) (a : Address) (m : Machine.State) (vm : VmId)
    (f : List (Address × Nat) → List (Address × Nat))
    (hregistered : w'.registered = w.registered)
    (hnatives : w'.natives = (w.putMachine a m).natives)
    (hvms : w'.vms = w.vms.modify vm fun r => { r with outstanding := f r.outstanding })
    (hnext : w'.nextVmId = w.nextVmId) (hservices : w'.services = w.services)
    (hfaults : w'.faults = w.faults) : Roster w' := by
  have hmod : Roster ((w.putMachine a m).modifyVm vm fun r =>
      { r with outstanding := f r.outstanding }) :=
    (h.putMachine a m).modifyVm vm (fun _ => rfl) (fun _ => rfl) (fun _ => rfl)
  exact hmod.congr hregistered hnatives hvms hnext hservices hfaults

theorem unload (h : Roster w) (block : Machine.Block) : Roster (w.unload block) := by
  unfold World.unload
  split
  · exact h
  · split
    · exact h
    · exact h.modifyService _ _

/-! ## Machines that come and go -/

theorem withVm (h : Roster w) {a : Address} {service : ServiceId} (policy : LeakPolicy)
    (ha : a ∉ w.natives.keys) (hs : service ∈ w.services.keys) :
    Roster (w.withVm a service policy) := by
  have hfree : a ∉ w.registered.keys := fun hm => ha (h.native a hm)
  -- a machine that was alive before has a smaller number
  have hold : ∀ {id b}, w.LiveAt id b → id ≠ w.nextVmId := by
    rintro id b hl rfl
    exact absurd (h.known _ (World.mem_vms_of_isAlive hl.1)) (Nat.lt_irrefl _)
  refine ⟨?_, ?_, ?_, ?_, ?_, h.honest⟩
  · intro b id
    have hreg : (w.withVm a service policy).registered = w.registered.insert a w.nextVmId := rfl
    rw [World.liveAt_withVm, hreg]
    by_cases hb : b = a
    · subst hb
      rw [Table.find?_insert_self]
      constructor
      · intro hid
        exact Or.inl ⟨(Option.some.inj hid).symm, rfl⟩
      · rintro (⟨rfl, -⟩ | ⟨-, hl⟩)
        · rfl
        · exact absurd (h.mem_registered hl) hfree
    · rw [Table.find?_insert_ne _ _ hb, h.registered b id]
      constructor
      · intro hl
        exact Or.inr ⟨hold hl, hl⟩
      · rintro (⟨-, hba⟩ | ⟨-, hl⟩)
        · exact absurd hba hb
        · exact hl
  · intro b hb
    rcases Table.mem_keys_insert.1 hb with rfl | hb
    · exact Table.mem_keys_insert.2 (Or.inl rfl)
    · exact Table.mem_keys_insert.2 (Or.inr (h.native b hb))
  · intro b n hn
    by_cases hb : b = a
    · subst hb
      rw [World.withVm, Table.find?_insert_self] at hn
      cases hn
      rfl
    · rw [World.withVm, Table.find?_insert_ne _ _ hb] at hn
      exact h.managed b n hn
  · intro id hid
    rcases Table.mem_keys_insert.1 hid with rfl | hid
    · exact Nat.lt_succ_self _
    · exact Nat.lt_succ_of_lt (h.known id hid)
  · intro id hid
    by_cases hnew : id = w.nextVmId
    · rw [hnew, World.vm_withVm_self]
      exact hs
    · rw [World.vm_withVm_ne _ _ _ _ hnew] at hid ⊢
      exact h.served id hid

theorem retired (h : Roster w) {vm : VmId} {a : Address} (hl : w.LiveAt vm a) :
    Roster (w.retired vm a) := by
  have hk : vm ∈ w.vms.keys := World.mem_vms_of_isAlive hl.1
  have hreg : (w.retired vm a).registered = w.registered.erase a := rfl
  refine ⟨?_, ?_, h.managed, ?_, ?_, h.honest⟩
  · intro b id
    rw [World.liveAt_retired hk, hreg]
    by_cases hb : b = a
    · subst hb
      rw [Table.find?_erase_self]
      refine iff_of_false (by simp) ?_
      rintro ⟨hid, hl'⟩
      exact hid (h.eq_of_liveAt hl' hl)
    · rw [Table.find?_erase_ne _ hb, h.registered b id]
      constructor
      · intro hl'
        refine ⟨?_, hl'⟩
        rintro rfl
        exact hb (hl'.2.symm.trans hl.2)
      · exact And.right
  · intro b hb
    exact h.native b (Table.mem_keys_erase.1 hb).2
  · intro id hid
    exact h.known id (Table.mem_keys_modify.1 hid)
  · intro id hid
    by_cases hne : id = vm
    · subst hne
      rw [World.vm_retired_self hk] at hid
      exact absurd hid (by simp)
    · rw [World.vm_retired_ne _ hne] at hid ⊢
      exact h.served id hid

/-- The memory of a machine that was given up is given back. -/
theorem discard (h : Roster w) {a : Address} (hfree : a ∉ w.registered.keys)
    (freeReport? : Option FreeReport) :
    Roster { w with natives := w.natives.erase a, freeReport? } := by
  refine ⟨h.registered, ?_, ?_, h.known, h.served, h.honest⟩
  · intro b hb
    refine Table.mem_keys_erase.2 ⟨?_, h.native b hb⟩
    rintro rfl
    exact hfree hb
  · intro b n hn
    by_cases hb : b = a
    · rw [hb, Table.find?_erase_self] at hn
      exact absurd hn (by simp)
    · rw [Table.find?_erase_ne _ hb] at hn
      exact h.managed b n hn

end Roster

/-- **Every step keeps the table of machines right.** -/
theorem Step.roster {w w' : World (Host η)} (hs : Step w w') (h : Roster w) : Roster w' := by
  cases hs with
  | idle | watch | enter | use => exact h.congr rfl rfl rfl rfl rfl rfl
  | misreport hf => exact ⟨h.registered, h.native, h.managed, h.known, h.served, hf⟩
  | work | sweep | drain | bury => exact h.putMachine _ _
  | serve => exact h.modifyService _ _
  | found =>
    refine ⟨h.registered, h.native, h.managed, h.known, ?_, h.honest⟩
    intro id hid
    exact Table.mem_keys_insert.2 (Or.inr (h.served id hid))
  | listen vm f =>
    exact h.modifyVm vm (f := fun r => { r with listeners := f r.listeners })
      (fun _ => rfl) (fun _ => rfl) (fun _ => rfl)
  | create policy ha hs => exact h.withVm policy ha hs
  | adopt _ hl hx =>
    exact h.withOutstanding _ _ _ (fun out => out ++ _) rfl rfl rfl rfl rfl rfl
  | release =>
    exact h.withOutstanding _ _ _ (fun out => out.filter _) rfl rfl rfl rfl rfl rfl
  | bear => exact ((h.putMachine _ _).modifyService _ _).congr rfl rfl rfl rfl rfl rfl
  | retire hl => exact h.retired hl
  | finalize =>
    unfold World.finalized
    split
    · exact (h.putMachine _ _).unload _
    · exact h.putMachine _ _
  | discard _ hfree => exact h.discard hfree _

/-! ## What becomes of a machine -/

/-- What stays of the record of a machine.  A machine that was freed does not come back. -/
structure VmRecord.Continues (r r' : VmRecord) : Prop where
  address : r'.address = r.address
  service : r'.service = r.service
  policy : r'.policy = r.policy
  alive : r'.isAlive = true → r.isAlive = true

theorem VmRecord.Continues.refl (r : VmRecord) : r.Continues r := ⟨rfl, rfl, rfl, id⟩

theorem VmRecord.Continues.trans {r r' r'' : VmRecord} (h : r.Continues r')
    (h' : r'.Continues r'') : r.Continues r'' where
  address := h'.address.trans h.address
  service := h'.service.trans h.service
  policy := h'.policy.trans h.policy
  alive := h.alive ∘ h'.alive

theorem World.continues_modifyVm (w : World η) (id : VmId) {f : VmRecord → VmRecord}
    (hf : ∀ r : VmRecord, r.Continues (f r)) (vm : VmId) :
    (w.vm vm).Continues ((w.modifyVm id f).vm vm) := by
  by_cases hvm : vm = id
  · subst hvm
    by_cases hk : vm ∈ w.vms.keys
    · rw [World.vm_modifyVm_self hk]
      exact hf _
    · rw [World.vm, World.vm, World.modifyVm, Table.modify_of_none (Table.find?_eq_none_iff.2 hk)]
      exact .refl _
  · rw [World.vm_modifyVm_ne w hvm]
    exact .refl _

/-- A machine that is known stays known, and keeps what it was made with. -/
theorem Step.continues {w w' : World (Host η)} (hs : Step w w') (h : Roster w) {vm : VmId}
    (hk : vm ∈ w.vms.keys) : vm ∈ w'.vms.keys ∧ (w.vm vm).Continues (w'.vm vm) := by
  cases hs with
  | listen other f =>
    exact ⟨Table.mem_keys_modify.2 hk, w.continues_modifyVm other
      (f := fun r => { r with listeners := f r.listeners }) (fun _ => ⟨rfl, rfl, rfl, id⟩) vm⟩
  | create policy =>
    refine ⟨Table.mem_keys_insert.2 (Or.inr hk), ?_⟩
    rw [World.vm_withVm_ne _ _ _ _ (Nat.ne_of_lt (h.known vm hk))]
    exact .refl _
  | @adopt other a x =>
    exact ⟨Table.mem_keys_modify.2 hk, w.continues_modifyVm other
      (f := fun r => { r with outstanding := r.outstanding ++ [(x, w.nextHandleId)] })
      (fun _ => ⟨rfl, rfl, rfl, id⟩) vm⟩
  | @release x =>
    exact ⟨Table.mem_keys_modify.2 hk, w.continues_modifyVm x.vm
      (f := fun r => { r with outstanding := r.outstanding.filter fun e => e ≠ (x.address, x.id) })
      (fun _ => ⟨rfl, rfl, rfl, id⟩) vm⟩
  | @retire other a =>
    exact ⟨Table.mem_keys_modify.2 hk, w.continues_modifyVm other
      (f := fun r => { r with isAlive := false })
      (fun _ => ⟨rfl, rfl, rfl, fun hfalse => absurd hfalse (by simp)⟩) vm⟩
  | @finalize a d =>
    obtain ⟨services, hfinalized⟩ := w.finalized_eq a d
    rw [hfinalized]
    exact ⟨hk, .refl _⟩
  | _ => exact ⟨hk, .refl _⟩

theorem Steps.continues {w w' : World (Host η)} (hs : Steps w w') (h : Roster w) {vm : VmId}
    (hk : vm ∈ w.vms.keys) : (w.vm vm).Continues (w'.vm vm) := by
  have hkept : Roster w' ∧ vm ∈ w'.vms.keys ∧ (w.vm vm).Continues (w'.vm vm) := by
    refine Steps.preserve
      (P := fun t => Roster t ∧ vm ∈ t.vms.keys ∧ (w.vm vm).Continues (t.vm vm)) ?_ hs
      ⟨h, hk, .refl _⟩
    rintro t u hstep ⟨hr, hkt, hct⟩
    obtain ⟨hku, hcu⟩ := hstep.continues hr hkt
    exact ⟨hstep.roster hr, hku, hct.trans hcu⟩
  exact hkept.2.2

/-- A machine that was freed does not come back to life. -/
theorem Steps.dead {w w' : World (Host η)} (hs : Steps w w') (h : Roster w) {vm : VmId}
    (hk : vm ∈ w.vms.keys) (hdead : (w.vm vm).isAlive = false) : (w'.vm vm).isAlive = false := by
  refine Bool.eq_false_iff.2 fun halive => ?_
  rw [(hs.continues h hk).alive halive] at hdead
  exact absurd hdead (by simp)

end ScriptHost.Bridge
