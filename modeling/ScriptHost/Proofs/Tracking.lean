import ScriptHost.Proofs.Blocks
import ScriptHost.Proofs.Programs

/-!
# Payloads and data blocks

The payload of a foreign object is tracked from its creation until its finalizer takes it out.  Every
class that a slot accepts can have objects, but a class whose binder was missing, or did not answer
with a key that is bound, has no finalizer: the payloads of its objects stay when the objects go.
They are the strays that the host records.

`Tracking` says that the tracked addresses are those of the data blocks that machines carry, together
with the strays, and every step keeps it.  Between the operations of a host no swept object waits,
and what is left of `Tracking` is `PayloadsMatch`: besides the data blocks on the heaps of live
machines exactly the strays are tracked.
-/

namespace ScriptHost.Bridge

open scoped List
open Machine (State Dead Block ObjectId Key Birth)

variable {η : Type}

/-! ## The invariant -/

/-- The data block of a service has a payload, and is a stray if it has no finalizer. -/
structure Attached (w : World (Host η)) (service : ServiceId) (d : Dead) : Prop where
  owner : d.block.owner? = some service
  pos : d.block.address ≠ 0
  tracked : d.block.address ∈ w.tracked service
  stray : (service, d.block.address) ∈ w.host.strays ↔ d.finalize? = none

/-- The tracked addresses are those of the data blocks that machines carry, and the strays. -/
structure Tracking (w : World (Host η)) : Prop where
  tidy : ∀ a, (w.machine a).Tidy
  attached : ∀ a d, (w.machine a).Carries d → ∃ service, Attached w service d
  apart : ∀ a b d d', (w.machine a).Carries d → (w.machine b).Carries d' →
    d.block.address = d'.block.address → a = b
  known : ∀ service x, x ∈ w.tracked service →
    (∃ a d, (w.machine a).Carries d ∧ d.block = ⟨x, some service⟩) ∨
      (service, x) ∈ w.host.strays
  strays : ∀ service x, (service, x) ∈ w.host.strays → x ∈ w.tracked service
  nodup : w.host.strays.Nodup
  served : ∀ vm a, w.LiveAt vm a → ∀ d, (w.machine a).Carries d →
    d.block.owner? = some (w.vm vm).service

namespace World

theorem machine_start (typeNames : TypeNames) (placement : Placement) (own : η) (a : Address) :
    (start typeNames placement own).machine a = .create 0 := rfl

theorem tracked_start (typeNames : TypeNames) (placement : Placement) (own : η)
    (service : ServiceId) : (start typeNames placement own).tracked service = [] := rfl

/-- No data block that a machine carries lies at a new address. -/
theorem address_ne_of_fresh {w : World η} {b x : Address} (hx : x ∉ w.taken) {d : Dead}
    (hd : (w.machine b).Carries d) : d.block.address ≠ x := by
  intro haddress
  by_cases hk : b ∈ w.natives.keys
  · refine hx (mem_taken_of_machine hk (Or.inr ?_))
    rw [← haddress]
    exact hd.mem_blockAddresses
  · rw [machine_of_not_mem hk] at hd
    exact Machine.State.not_carries_create 0 d hd

theorem mem_services_of_tracked {w : World η} {service : ServiceId} {x : Address}
    (h : x ∈ w.tracked service) : service ∈ w.services.keys := by
  refine Decidable.byContradiction fun hk => ?_
  rw [tracked, World.service, Table.find?_eq_none_iff.2 hk] at h
  exact absurd h (by simp [Service.empty, Payloads.empty, Table.keys, Table.empty])

end World

namespace Tracking

variable {w w' : World (Host η)} {vm : VmId} {a x : Address} {service : ServiceId}

theorem start (typeNames : TypeNames) (placement : Placement) (own : η) :
    Tracking (World.start typeNames placement own) := by
  have hcarries : ∀ a d, ¬ ((World.start typeNames placement own).machine a).Carries d := by
    intro a d
    rw [World.machine_start]
    exact Machine.State.not_carries_create 0 d
  refine ⟨fun _ => Machine.State.tidy_create 0, ?_, ?_, ?_, ?_, List.nodup_nil, ?_⟩
  · intro a d hd
    exact absurd hd (hcarries a d)
  · intro a b d d' hd
    exact absurd hd (hcarries a d)
  · intro service x hx
    rw [World.tracked_start] at hx
    exact absurd hx List.not_mem_nil
  · intro service x hx
    exact absurd hx List.not_mem_nil
  · intro vm a hl d hd
    exact absurd hd (hcarries a d)

theorem attached_of_block (t : Tracking w) {d : Dead} (hd : (w.machine a).Carries d)
    (hblock : d.block = ⟨x, some service⟩) :
    x ∈ w.tracked service ∧ ((service, x) ∈ w.host.strays ↔ d.finalize? = none) := by
  obtain ⟨s, howner, -, htr, hstray⟩ := t.attached a d hd
  rw [hblock] at howner htr hstray
  obtain rfl := Option.some.inj howner
  exact ⟨htr, hstray⟩

/-! ## Steps that leave payloads alone -/

/-- Machines carry what they did, and the same addresses are tracked. -/
theorem congr (t : Tracking w) (htidy : ∀ a, (w'.machine a).Tidy)
    (hcarries : ∀ a d, (w'.machine a).Carries d ↔ (w.machine a).Carries d)
    (htracked : ∀ service x, x ∈ w'.tracked service ↔ x ∈ w.tracked service)
    (hstrays : w'.host.strays = w.host.strays)
    (hlive : ∀ vm a, w'.LiveAt vm a →
      (w.LiveAt vm a ∧ (w'.vm vm).service = (w.vm vm).service) ∨
        ∀ d, ¬ (w.machine a).Carries d) : Tracking w' := by
  refine ⟨htidy, ?_, ?_, ?_, ?_, ?_, ?_⟩
  · intro a d hd
    obtain ⟨service, howner, hpos, htr, hstray⟩ := t.attached a d ((hcarries a d).1 hd)
    refine ⟨service, howner, hpos, (htracked service _).2 htr, ?_⟩
    rw [hstrays]
    exact hstray
  · intro a b d d' hd hd'
    exact t.apart a b d d' ((hcarries a d).1 hd) ((hcarries b d').1 hd')
  · intro service x hx
    rw [hstrays]
    rcases t.known service x ((htracked service x).1 hx) with ⟨a, d, hd, hblock⟩ | hstray
    · exact Or.inl ⟨a, d, (hcarries a d).2 hd, hblock⟩
    · exact Or.inr hstray
  · intro service x hx
    rw [hstrays] at hx
    exact (htracked service x).2 (t.strays service x hx)
  · rw [hstrays]
    exact t.nodup
  · intro vm a hl d hd
    have hbefore := (hcarries a d).1 hd
    rcases hlive vm a hl with ⟨hold, hservice⟩ | hnone
    · rw [hservice]
      exact t.served vm a hold d hbefore
    · exact absurd hbefore (hnone d)

/-- Neither machines nor services change. -/
theorem unchanged (t : Tracking w) (hmachine : ∀ a, w'.machine a = w.machine a)
    (hservices : w'.services = w.services) (hstrays : w'.host.strays = w.host.strays)
    (hlive : ∀ vm a, w'.LiveAt vm a →
      (w.LiveAt vm a ∧ (w'.vm vm).service = (w.vm vm).service) ∨
        ∀ d, ¬ (w.machine a).Carries d) : Tracking w' := by
  refine t.congr ?_ ?_ ?_ hstrays hlive
  · intro a
    rw [hmachine]
    exact t.tidy a
  · intro a d
    rw [hmachine]
  · intro service x
    rw [World.tracked, World.tracked, World.service, World.service, hservices]

/-- A machine changes, and carries what it did. -/
theorem putMachine (t : Tracking w) {m : State} (hm : m.Tidy)
    (hcarries : ∀ d, m.Carries d ↔ (w.machine a).Carries d) : Tracking (w.putMachine a m) := by
  refine t.congr ?_ ?_ (fun _ _ => Iff.rfl) rfl fun _ _ hl => Or.inl ⟨hl, rfl⟩
  · intro b
    rcases w.machine_putMachine a b m with ⟨hb, -⟩ | hb
    · rw [hb]
      exact hm
    · rw [hb]
      exact t.tidy b
  · intro b d
    rcases w.machine_putMachine a b m with ⟨hb, rfl⟩ | hb
    · rw [hb]
      exact hcarries d
    · rw [hb]

/-- A machine changes, but neither its heap nor its swept objects do. -/
theorem putMachine_of_heap (t : Tracking w) {m : State} (hheap : m.heap = (w.machine a).heap)
    (hswept : m.swept = (w.machine a).swept) : Tracking (w.putMachine a m) :=
  t.putMachine ((t.tidy a).congr hheap hswept) (Machine.State.carries_congr hheap hswept)

/-- What is known of a machine changes, but neither its place nor its service. -/
theorem modifyVm (t : Tracking w) (vm : VmId) {f : VmRecord → VmRecord}
    (halive : ∀ r, (f r).isAlive = true → r.isAlive = true)
    (haddress : ∀ r, (f r).address = r.address) (hservice : ∀ r, (f r).service = r.service) :
    Tracking (w.modifyVm vm f) := by
  refine t.unchanged (fun _ => rfl) rfl rfl ?_
  intro id b hl
  refine Or.inl ⟨⟨?_, ?_⟩, World.field_modifyVm w vm VmRecord.service hservice id⟩
  · by_cases hid : id = vm
    · subst hid
      have hk : id ∈ w.vms.keys := Table.mem_keys_modify.1 (World.mem_vms_of_isAlive hl.1)
      refine halive (w.vm id) ?_
      rw [← World.vm_modifyVm_self hk f]
      exact hl.1
    · rw [← World.vm_modifyVm_ne w hid f]
      exact hl.1
  · rw [← World.field_modifyVm w vm VmRecord.address haddress id]
    exact hl.2

theorem modifyService (t : Tracking w) {f : Service → Service}
    (h : ∀ x, x ∈ (f (w.service service)).payloads.entries.keys ↔ x ∈ w.tracked service) :
    Tracking (w.modifyService service f) := by
  refine t.congr t.tidy (fun _ _ => Iff.rfl) ?_ rfl fun _ _ hl => Or.inl ⟨hl, rfl⟩
  intro other x
  by_cases ho : other = service
  · subst ho
    by_cases hk : other ∈ w.services.keys
    · rw [World.tracked, World.service_modifyService_self hk]
      exact h x
    · rw [World.modifyService, Table.modify_of_none (Table.find?_eq_none_iff.2 hk)]
  · rw [World.tracked, World.service_modifyService_ne w ho]
    rfl

/-- A new service tracks nothing. -/
theorem found (t : Tracking w) (h : service ∉ w.services.keys) :
    Tracking { w with services := w.services.insert service .empty } := by
  refine t.congr t.tidy (fun _ _ => Iff.rfl) ?_ rfl fun _ _ hl => Or.inl ⟨hl, rfl⟩
  intro other x
  by_cases ho : other = service
  · subst ho
    simp [World.tracked, World.service, Table.find?_insert_self, Table.find?_eq_none_iff.2 h]
  · simp [World.tracked, World.service, Table.find?_insert_ne _ _ ho]

/-- A new machine carries nothing. -/
theorem withVm (t : Tracking w) (policy : LeakPolicy) (ha : a ∉ w.natives.keys) :
    Tracking (w.withVm a service policy) := by
  refine t.unchanged (World.machine_withVm ha service policy) rfl rfl ?_
  intro id b hl
  rcases (World.liveAt_withVm w a service policy id b).1 hl with ⟨-, rfl⟩ | ⟨hne, hold⟩
  · rw [World.machine_of_not_mem ha]
    exact Or.inr (Machine.State.not_carries_create 0)
  · exact Or.inl ⟨hold, congrArg VmRecord.service (World.vm_withVm_ne w a service policy hne)⟩

/-- A machine that carries nothing may go. -/
theorem discarded (t : Tracking w) (report? : Option FreeReport)
    (hcarries : ∀ d, ¬ (w.machine a).Carries d) : Tracking (w.discarded a report?) := by
  have hself : (w.discarded a report?).machine a = .create 0 := machine_discarded_self report?
  refine t.congr ?_ ?_ (fun _ _ => Iff.rfl) rfl fun _ _ hl => Or.inl ⟨hl, rfl⟩
  · intro b
    by_cases hb : b = a
    · rw [hb, hself]
      exact Machine.State.tidy_create 0
    · rw [machine_discarded_ne hb]
      exact t.tidy b
  · intro b d
    by_cases hb : b = a
    · rw [hb, hself]
      exact iff_of_false (Machine.State.not_carries_create 0 d) (hcarries d)
    · rw [machine_discarded_ne hb]

/-! ## Births -/

end Tracking

namespace Host

variable {h : Host η} {e e' : ServiceId × Address} {finalizer? : Option Key}

theorem mem_straysAt_self : e ∈ h.straysAt e finalizer? ↔ finalizer? = none := by
  cases finalizer? with
  | none => simp [straysAt]
  | some key => simp [straysAt]

theorem mem_straysAt_ne (hne : e' ≠ e) : e' ∈ h.straysAt e finalizer? ↔ e' ∈ h.strays := by
  cases finalizer? with
  | none => simp [straysAt, hne]
  | some key => simp [straysAt, hne]

theorem nodup_straysAt (hn : h.strays.Nodup) : (h.straysAt e finalizer?).Nodup := by
  have hrest : (h.strays.filter (· ≠ e)).Nodup := hn.filter _
  cases finalizer? with
  | none => exact List.nodup_cons.2 ⟨by simp, hrest⟩
  | some key => exact hrest

end Host

/-- The world in which a data block has been delivered. -/
def World.delivered (w : World (Host η)) (a x : Address) (service : ServiceId) (owner : ObjectId)
    (m : State) (f : Service → Service) : World (Host η) :=
  { (w.putMachine a m).modifyService service f with
    host := w.host.made service x ((w.machine a).heap.finalizer? owner) }

namespace Delivery

variable {w : World (Host η)} {vm : VmId} {a x : Address} {service : ServiceId} {owner : ObjectId}
  {m : State} {f : Service → Service}

/-- The new address is tracked beside the others. -/
theorem tracked (hd : Delivery w vm a x service owner m f) (r : Roster w) (s : ServiceId)
    (y : Address) : y ∈ (w.delivered a x service owner m f).tracked s ↔
      (s, y) = (service, x) ∨ y ∈ w.tracked s := by
  by_cases hs : s = service
  · subst hs
    have hk : s ∈ w.services.keys := hd.ofService ▸ r.served vm hd.live.1
    have hmodify : (w.delivered a x s owner m f).service s = f (w.service s) :=
      World.service_modifyService_self (w := w.putMachine a m) hk f
    rw [World.tracked, hmodify, hd.payload y]
    simp
  · have hsame : (w.delivered a x service owner m f).service s = w.service s :=
      World.service_modifyService_ne (w.putMachine a m) hs f
    rw [World.tracked, hsame]
    simp [World.tracked, hs]

/-- The machine of the new data block has changed, and no other one. -/
theorem machine_self (hd : Delivery w vm a x service owner m f) (r : Roster w) :
    (w.delivered a x service owner m f).machine a = m :=
  World.machine_putMachine_self (r.mem_natives hd.live) m

theorem machine_ne (_ : Delivery w vm a x service owner m f) {b : Address} (hb : b ≠ a) :
    (w.delivered a x service owner m f).machine b = w.machine b :=
  World.machine_putMachine_ne w hb m

/-- The new data block is carried beside the others. -/
theorem carries (hd : Delivery w vm a x service owner m f) (r : Roster w)
    (ht : (w.machine a).Tidy) (b : Address) (d : Dead) :
    ((w.delivered a x service owner m f).machine b).Carries d ↔
      (b = a ∧ d = ⟨⟨x, some service⟩, (w.machine a).heap.finalizer? owner⟩) ∨
        (w.machine b).Carries d := by
  by_cases hb : b = a
  · subst hb
    rw [hd.machine_self r, ht.carries_birth hd.birth hd.isClass]
    simp
  · simp [hd.machine_ne hb, hb]

/-- No other data block lies at the new address. -/
theorem address_ne (hd : Delivery w vm a x service owner m f) {b : Address} {d : Dead}
    (hc : (w.machine b).Carries d) : d.block.address ≠ x :=
  World.address_ne_of_fresh hd.fresh hc

end Delivery

namespace Tracking

variable {w w' : World (Host η)} {vm : VmId} {a x : Address} {service : ServiceId}

/-- **A new data block gets a payload**, and is a stray if its class has no finalizer. -/
theorem delivered (t : Tracking w) (r : Roster w) {owner : ObjectId} {m : State}
    {f : Service → Service} (hd : Delivery w vm a x service owner m f) :
    Tracking (w.delivered a x service owner m f) := by
  have hcarries := hd.carries r (t.tidy a)
  have htracked := hd.tracked r
  refine ⟨?_, ?_, ?_, ?_, ?_, Host.nodup_straysAt t.nodup, ?_⟩
  · intro b
    by_cases hb : b = a
    · rw [hb, hd.machine_self r]
      exact (t.tidy a).birth hd.birth hd.isClass fun d hc => hd.address_ne hc
    · rw [hd.machine_ne hb]
      exact t.tidy b
  · intro b d hc
    rcases (hcarries b d).1 hc with ⟨-, rfl⟩ | hold
    · refine ⟨service, rfl, Nat.ne_of_gt hd.pos, ?_, Host.mem_straysAt_self⟩
      exact (htracked service x).2 (Or.inl rfl)
    · obtain ⟨s, howner, hne, htr, hstray⟩ := t.attached b d hold
      refine ⟨s, howner, hne, (htracked s _).2 (Or.inr htr), ?_⟩
      refine (Host.mem_straysAt_ne fun heq => ?_).trans hstray
      exact hd.address_ne hold (Prod.mk.inj heq).2
  · intro b c d d' hc hc' haddress
    rcases (hcarries b d).1 hc with ⟨rfl, rfl⟩ | hold
    · rcases (hcarries c d').1 hc' with ⟨rfl, -⟩ | hold'
      · rfl
      · exact absurd haddress.symm (hd.address_ne hold')
    · rcases (hcarries c d').1 hc' with ⟨rfl, rfl⟩ | hold'
      · exact absurd haddress (hd.address_ne hold)
      · exact t.apart b c d d' hold hold' haddress
  · intro s y hy
    by_cases hnew : (s, y) = (service, x)
    · obtain ⟨rfl, rfl⟩ := Prod.mk.inj hnew
      exact Or.inl ⟨a, _, (hcarries a _).2 (Or.inl ⟨rfl, rfl⟩), rfl⟩
    · rcases t.known s y (((htracked s y).1 hy).resolve_left hnew) with ⟨b, d, hc, hblock⟩ | hstray
      · exact Or.inl ⟨b, d, (hcarries b d).2 (Or.inr hc), hblock⟩
      · exact Or.inr ((Host.mem_straysAt_ne hnew).2 hstray)
  · intro s y hy
    by_cases hnew : (s, y) = (service, x)
    · exact (htracked s y).2 (Or.inl hnew)
    · exact (htracked s y).2 (Or.inr (t.strays s y ((Host.mem_straysAt_ne hnew).1 hy)))
  · intro id b hlive d hc
    rcases (hcarries b d).1 hc with ⟨rfl, rfl⟩ | hold
    · obtain rfl : id = vm := r.eq_of_liveAt hlive hd.live
      exact congrArg some hd.ofService.symm
    · exact t.served id b hlive d hold

/-! ## Finalizers -/

end Tracking

namespace World

/-- A finalizer takes the address of its object out of the service, and no other one. -/
theorem tracked_unload {w : World η} {address : Address} {service : ServiceId}
    (hpos : address ≠ 0) (s : ServiceId) (x : Address) :
    x ∈ (w.unload ⟨address, some service⟩).tracked s ↔
      x ∈ w.tracked s ∧ ¬ (s = service ∧ x = address) := by
  have hunload : w.unload ⟨address, some service⟩ = w.modifyService service fun r =>
      { r with payloads := ((w.service service).payloads.take address).2 } := by
    simp [unload, hpos]
  rw [hunload]
  by_cases hs : s = service
  · subst hs
    by_cases hk : s ∈ w.services.keys
    · rw [tracked, service_modifyService_self hk]
      refine Table.mem_keys_erase.trans ?_
      simp [tracked, and_comm]
    · have hnone : ∀ y, y ∉ w.tracked s := fun y hy => hk (mem_services_of_tracked hy)
      rw [modifyService, Table.modify_of_none (Table.find?_eq_none_iff.2 hk)]
      exact iff_of_false (hnone x) fun h => hnone x h.1
  · rw [tracked, service_modifyService_ne w hs]
    simp [tracked, hs]

end World

namespace Tracking

variable {w w' : World (Host η)} {vm : VmId} {a x : Address} {service : ServiceId}
  {d : Dead} {rest : List Dead}

/-- **A finalized object loses its payload if its class has a finalizer**, and no other object does. -/
theorem tracked_finalized (t : Tracking w) (h : (w.machine a).swept = d :: rest) (s : ServiceId)
    (x : Address) : x ∈ (w.finalized a d).tracked s ↔
      x ∈ w.tracked s ∧ ¬ (d.finalize?.isSome = true ∧ d.block = ⟨x, some s⟩) := by
  have hcarried : (w.machine a).Carries d := Or.inr (h ▸ List.mem_cons_self)
  obtain ⟨service, howner, hpos, -, -⟩ := t.attached a d hcarried
  obtain ⟨⟨address, owner?⟩, finalize?⟩ := d
  obtain rfl : owner? = some service := howner
  unfold World.finalized
  cases finalize? with
  | none =>
    simp only [Option.isSome_none, Bool.false_eq_true, if_false, false_and, not_false_eq_true,
      and_true]
    rfl
  | some key =>
    simp only [Option.isSome_some, if_true, true_and]
    rw [World.tracked_unload hpos]
    refine and_congr Iff.rfl (not_congr ?_)
    simp [eq_comm, and_comm]

/-- The block that is finalized is not carried any more, and all others are. -/
theorem carries_finalized (t : Tracking w) (ha : a ∈ w.natives.keys)
    (h : (w.machine a).swept = d :: rest) (b : Address) (d' : Dead) :
    ((w.finalized a d).machine b).Carries d' ↔
      (w.machine b).Carries d' ∧ d'.block.address ≠ d.block.address := by
  by_cases hb : b = a
  · subst hb
    rw [machine_finalized_self ha]
    exact (t.tidy b).carries_beginFinalizer h d'
  · rw [machine_finalized_ne hb]
    refine ⟨fun hd' => ⟨hd', fun haddress => ?_⟩, And.left⟩
    exact hb (t.apart b a d' d hd' (Or.inr (h ▸ List.mem_cons_self)) haddress)

/-- What is still tracked at the address of the finalized block is a stray. -/
theorem stray_of_tracked_finalized (t : Tracking w) (h : (w.machine a).swept = d :: rest)
    {s : ServiceId} (hblock : d.block = ⟨x, some s⟩)
    (hx : x ∈ (w.finalized a d).tracked s) : (s, x) ∈ w.host.strays := by
  have hnone : d.finalize? = none := by
    cases hf : d.finalize? with
    | none => rfl
    | some key => exact absurd ⟨by simp [hf], hblock⟩ ((t.tracked_finalized h s x).1 hx).2
  exact (t.attached_of_block (Or.inr (h ▸ List.mem_cons_self)) hblock).2.2 hnone

theorem finalized (t : Tracking w) (ha : a ∈ w.natives.keys)
    (h : (w.machine a).swept = d :: rest) : Tracking (w.finalized a d) := by
  have hcarried : (w.machine a).Carries d := Or.inr (h ▸ List.mem_cons_self)
  have hcarries := t.carries_finalized ha h
  have htracked := t.tracked_finalized h
  have hhost : (w.finalized a d).host = w.host ∧ (w.finalized a d).vms = w.vms := by
    obtain ⟨services, hfinalized⟩ := w.finalized_eq a d
    rw [hfinalized]
    exact ⟨rfl, rfl⟩
  obtain ⟨hhost, hvms⟩ := hhost
  refine ⟨?_, ?_, ?_, ?_, ?_, ?_, ?_⟩
  · intro b
    by_cases hb : b = a
    · subst hb
      rw [machine_finalized_self ha]
      exact (t.tidy b).beginFinalizer h
    · rw [machine_finalized_ne hb]
      exact t.tidy b
  · intro b d' hd'
    obtain ⟨hold, hne⟩ := (hcarries b d').1 hd'
    obtain ⟨s, howner, hpos, htr, hstray⟩ := t.attached b d' hold
    refine ⟨s, howner, hpos, (htracked s _).2 ⟨htr, ?_⟩, ?_⟩
    · rintro ⟨-, hblock⟩
      exact hne (congrArg Block.address hblock).symm
    · rw [hhost]
      exact hstray
  · intro b c d' d'' hd' hd''
    exact t.apart b c d' d'' ((hcarries b d').1 hd').1 ((hcarries c d'').1 hd'').1
  · intro s x hx
    rw [hhost]
    rcases t.known s x ((htracked s x).1 hx).1 with ⟨b, d', hd', hblock⟩ | hstray
    · by_cases haddress : d'.block.address = d.block.address
      · obtain rfl : b = a := t.apart b a d' d hd' hcarried haddress
        obtain rfl : d' = d := (t.tidy b).eq_of_address hd' hcarried haddress
        exact Or.inr (t.stray_of_tracked_finalized h hblock hx)
      · exact Or.inl ⟨b, d', (hcarries b d').2 ⟨hd', haddress⟩, hblock⟩
    · exact Or.inr hstray
  · intro s x hx
    rw [hhost] at hx
    refine (htracked s x).2 ⟨t.strays s x hx, ?_⟩
    rintro ⟨hsome, hblock⟩
    rw [(t.attached_of_block hcarried hblock).2.1 hx] at hsome
    exact absurd hsome (by simp)
  · rw [hhost]
    exact t.nodup
  · intro vm b hl d' hd'
    rw [World.LiveAt, World.vm, hvms] at hl
    rw [World.vm, hvms]
    exact t.served vm b hl d' ((hcarries b d').1 hd').1

end Tracking

/-! ## Every step -/

/-- **Every step tracks the data blocks that machines carry**, and the strays. -/
theorem Step.tracking {w w' : World (Host η)} (hs : Step w w') (r : Roster w) (t : Tracking w) :
    Tracking w' := by
  cases hs with
  | idle | watch | misreport | enter | use =>
    exact t.unchanged (fun _ => rfl) rfl rfl fun _ _ hl => Or.inl ⟨hl, rfl⟩
  | @work a _ _ hf => exact t.putMachine ((t.tidy a).frame hf) ((t.tidy a).carries_frame hf)
  | serve h => exact t.modifyService h
  | found h => exact t.found h
  | listen vm f => exact t.modifyVm vm (fun _ h => h) (fun _ => rfl) fun _ => rfl
  | create policy ha => exact t.withVm policy ha
  | @adopt vm a x target hl =>
    have hput : Tracking (w.putMachine a ((w.machine a).storeHandle x target)) :=
      t.putMachine_of_heap rfl rfl
    have hvm := hput.modifyVm vm (f := fun r =>
      { r with outstanding := r.outstanding ++ [(x, w.nextHandleId)] })
      (fun _ h => h) (fun _ => rfl) fun _ => rfl
    exact hvm.unchanged (fun _ => rfl) rfl rfl fun _ _ hl => Or.inl ⟨hl, rfl⟩
  | @release h a =>
    have hput : Tracking (w.putMachine a ((w.machine a).releaseHandle h.address)) :=
      t.putMachine_of_heap rfl rfl
    have hvm := hput.modifyVm h.vm (f := fun r =>
      { r with outstanding := r.outstanding.filter fun e => e ≠ (h.address, h.id) })
      (fun _ h => h) (fun _ => rfl) fun _ => rfl
    exact hvm.unchanged (fun _ => rfl) rfl rfl fun _ _ hl => Or.inl ⟨hl, rfl⟩
  | bear hd => exact t.delivered r hd
  | @retire vm a hl =>
    have hvm := t.modifyVm vm (f := fun r => { r with isAlive := false })
      (fun _ h => absurd h (by simp)) (fun _ => rfl) fun _ => rfl
    exact hvm.unchanged (fun _ => rfl) rfl rfl fun _ _ hl => Or.inl ⟨hl, rfl⟩
  | @sweep a =>
    have hl := Machine.Heap.loses_collect (w.machine a).heap (w.machine a).roots
    exact t.putMachine ((t.tidy a).loses hl rfl) ((t.tidy a).carries_loses hl rfl)
  | @drain a =>
    have hl := Machine.Heap.loses_drain (w.machine a).heap
    exact t.putMachine ((t.tidy a).loses hl rfl) ((t.tidy a).carries_loses hl rfl)
  | finalize ha h => exact t.finalized ha h
  | bury => exact t.putMachine_of_heap rfl rfl
  | discard report? _ hheap hswept =>
    exact t.discarded report? (Machine.State.not_carries_of_empty hheap hswept)

/-- **Every run tracks the data blocks that machines carry**, and the strays. -/
theorem Steps.tracking {w w' : World (Host η)} (hs : Steps w w') (s : Sound w) (t : Tracking w) :
    Tracking w' :=
  (Steps.preserve (P := fun w => Sound w ∧ Tracking w)
    (fun hstep h => ⟨hstep.sound h.1, hstep.tracking h.1.roster h.2⟩) hs ⟨s, t⟩).2

/-! ## Classes without a finalizer -/

/-- The machine at `a` has a binder, and it answers for a class with a key that is bound. -/
def Trampoline.BindsClass (d : Delegates η) (a : Address) (module className : String)
    (w : World η) : Prop :=
  ∃ vm listener key t, w.registered.find? a = some vm ∧
    (w.vm vm).listeners.bindClass? = some listener ∧
      d.bindClass listener vm module className w = (.value (some key), t) ∧
        ((t.serviceOf vm).bindings.class? key).isSome = true

/-- **A class gets a finalizer exactly if its binder answers with a key that is bound.** -/
theorem Trampoline.isSome_finalize?_bindClass [Observer η] {d : Delegates η} {a : Address}
    {module className : String} {w w' : World η} {keys : Machine.ClassKeys}
    (h : Trampoline.bindClass d a module className w = (.value keys, w')) :
    keys.finalize?.isSome = true ↔ BindsClass d a module className w := by
  unfold Trampoline.bindClass at h
  cases hvm : w.registered.find? a with
  | none =>
    rw [lookup_bind_none hvm] at h
    obtain rfl := Outcome.value.inj (congrArg Prod.fst h)
    refine iff_of_false (by simp [Machine.ClassKeys.unbound]) ?_
    rintro ⟨vm, -, -, -, hfound, -⟩
    exact absurd (hvm.symm.trans hfound) (by simp)
  | some vm =>
    rw [lookup_bind hvm] at h
    have hbinds : BindsClass d a module className w ↔ ∃ listener key t,
        (w.vm vm).listeners.bindClass? = some listener ∧
          d.bindClass listener vm module className w = (.value (some key), t) ∧
            ((t.serviceOf vm).bindings.class? key).isSome = true := by
      simp [BindsClass, hvm]
    rw [hbinds]
    have hlisteners : (Vm.listeners vm : Effect η Listeners) w =
      (.value (w.vm vm).listeners, w) := rfl
    simp only [] at h
    rw [Run.bind_of_value hlisteners] at h
    cases hlistener : (w.vm vm).listeners.bindClass? with
    | none =>
      rw [hlistener] at h
      obtain rfl := Outcome.value.inj (congrArg Prod.fst h)
      simp [Machine.ClassKeys.unbound]
    | some listener =>
      rw [hlistener] at h
      rcases hanswer : d.bindClass listener vm module className w with ⟨answer | fault | halt, t⟩
      · simp only [] at h
        rw [Run.bind_of_value hanswer] at h
        cases answer with
        | none =>
          obtain rfl := Outcome.value.inj (congrArg Prod.fst h)
          simp [Machine.ClassKeys.unbound, hanswer]
        | some key =>
          have hservice : (Run.gets fun w => w.serviceOf vm : Effect η Service) t =
            (.value (t.serviceOf vm), t) := rfl
          simp only [] at h
          rw [Run.bind_of_value hservice] at h
          cases hbound : ((t.serviceOf vm).bindings.class? key).isSome with
          | true =>
            rw [hbound, if_pos rfl] at h
            obtain rfl := Outcome.value.inj (congrArg Prod.fst h)
            simp [hanswer, hbound]
          | false =>
            rw [hbound, if_neg (by simp)] at h
            obtain rfl := Outcome.value.inj (congrArg Prod.fst h)
            simp [Machine.ClassKeys.unbound, hanswer, hbound]
      · exact fault.elim
      · simp only [] at h
        rw [Run.bind_of_halt hanswer] at h
        exact absurd (congrArg Prod.fst h) (by simp)

/-! ## Between operations -/

namespace World

/-- A data block of a service is on the heap of a live machine, at `x`. -/
def HasBlock (w : World η) (service : ServiceId) (x : Address) : Prop :=
  ∃ vm a id owner, w.LiveAt vm a ∧
    (w.machine a).heap.foreign? id = some (owner, ⟨x, some service⟩)

/-- A machine carries a data block of a service at `x`, on its heap or among its swept objects. -/
def CarriesBlock (w : World η) (service : ServiceId) (x : Address) : Prop :=
  ∃ a d, (w.machine a).Carries d ∧ d.block = ⟨x, some service⟩

end World

/-- What is tracked in any state. -/
structure PayloadsFollow (w : World (Host η)) : Prop where
  tracked : ∀ service x, x ∈ w.tracked service ↔
    w.CarriesBlock service x ∨ (service, x) ∈ w.host.strays
  /-- An object that is finalized loses its payload if its class has a finalizer. -/
  finalized : ∀ a d rest, (w.machine a).swept = d :: rest → ∀ service x,
    x ∈ (w.finalized a d).tracked service ↔
      x ∈ w.tracked service ∧ ¬ (d.finalize?.isSome = true ∧ d.block = ⟨x, some service⟩)

/-- What is tracked between the operations of a host. -/
structure PayloadsMatch (w : World (Host η)) : Prop where
  tracked : ∀ service x, x ∈ w.tracked service ↔
    w.HasBlock service x ∨ (service, x) ∈ w.host.strays
  /-- A data block belongs to the service of its machine.  It is a stray if its class has no
  finalizer. -/
  stray : ∀ vm a id owner block, w.LiveAt vm a →
    (w.machine a).heap.foreign? id = some (owner, block) →
      block.owner? = some (w.vm vm).service ∧
        (((w.vm vm).service, block.address) ∈ w.host.strays ↔
          (w.machine a).heap.finalizer? owner = none)
  /-- Nothing but data blocks on heaps is tracked exactly if all strays are still on a heap. -/
  exact : ∀ service, (∀ x, x ∈ w.tracked service ↔ w.HasBlock service x) ↔
    ∀ x, (service, x) ∈ w.host.strays → w.HasBlock service x
  /-- The strays of a service are left when its machines are gone. -/
  left : ∀ service, (∀ vm, (w.vm vm).service = service → (w.vm vm).isAlive = false) →
    (w.service service).payloads.size = w.host.strays.countP fun e => e.1 = service

section

variable {w : World (Host η)}

theorem Tracking.follow (t : Tracking w) : PayloadsFollow w := by
  refine ⟨?_, ?_⟩
  · intro service x
    constructor
    · exact t.known service x
    · rintro (⟨a, d, hd, hblock⟩ | hstray)
      · exact (t.attached_of_block hd hblock).1
      · exact t.strays service x hstray
  · intro a d rest h service x
    exact t.tracked_finalized h service x

/-- In a state of rest the data blocks are on the heaps of live machines. -/
theorem Steady.hasBlock_iff (hw : Steady [] w) (service : ServiceId) (x : Address) :
    w.HasBlock service x ↔ w.CarriesBlock service x := by
  constructor
  · rintro ⟨vm, a, id, owner, -, hf⟩
    exact ⟨a, _, Machine.State.carries_of_foreign? hf, rfl⟩
  · rintro ⟨a, d, ⟨id, hid⟩ | hswept, hblock⟩
    · obtain ⟨owner, hf, -⟩ := Machine.Heap.remains?_eq_some.1 hid
      rw [hblock] at hf
      have hk : a ∈ w.natives.keys := by
        refine Decidable.byContradiction fun hk => ?_
        rw [World.machine_of_not_mem hk] at hid
        exact Machine.State.not_carries_create 0 d (Or.inl ⟨id, hid⟩)
      have hreg := (hw.listed a hk).resolve_right List.not_mem_nil
      obtain ⟨vm, hl⟩ := hw.sound.roster.exists_live hreg
      exact ⟨vm, a, id, owner, hl, hf⟩
    · rw [(hw.quiet a List.not_mem_nil).1] at hswept
      exact absurd hswept List.not_mem_nil

theorem Tracking.match (t : Tracking w) (hw : Steady [] w) : PayloadsMatch w := by
  have htracked : ∀ service x, x ∈ w.tracked service ↔
      w.HasBlock service x ∨ (service, x) ∈ w.host.strays := by
    intro service x
    rw [t.follow.tracked, hw.hasBlock_iff]
  refine ⟨htracked, ?_, ?_, ?_⟩
  · intro vm a id owner block hl hf
    have hd := Machine.State.carries_of_foreign? hf
    obtain ⟨service, howner, -, -, hstray⟩ := t.attached a _ hd
    have hserved := t.served vm a hl _ hd
    obtain rfl := Option.some.inj (howner.symm.trans hserved)
    exact ⟨hserved, hstray⟩
  · intro service
    constructor
    · intro h x hx
      exact (h x).1 (t.strays service x hx)
    · intro h x
      rw [htracked]
      exact ⟨fun hx => hx.elim id (h x), Or.inl⟩
  · intro service hdead
    have hnone : ∀ x, ¬ w.HasBlock service x := by
      rintro x ⟨vm, a, id, owner, hl, hf⟩
      have hd := Machine.State.carries_of_foreign? hf
      have hserved := Option.some.inj (t.served vm a hl _ hd)
      have halive := hdead vm hserved.symm
      rw [hl.1] at halive
      exact absurd halive (by simp)
    have hperm : (w.tracked service).map (service, ·) ~
        w.host.strays.filter fun e => e.1 = service := by
      refine (List.perm_ext_iff_of_nodup ?_ (t.nodup.filter _)).2 ?_
      · exact (w.service service).payloads.entries.nodup_keys.map fun _ _ h => (Prod.mk.inj h).2
      · rintro ⟨s, x⟩
        simp only [List.mem_map, List.mem_filter, htracked, hnone, false_or, decide_eq_true_eq]
        constructor
        · rintro ⟨y, hy, heq⟩
          cases heq
          exact ⟨hy, rfl⟩
        · rintro ⟨hx, rfl⟩
          exact ⟨x, hx, rfl⟩
    have hlength := hperm.length_eq
    rw [List.length_map] at hlength
    rw [List.countP_eq_length_filter, ← hlength]
    exact (List.length_map _).symm

end

namespace Setting

variable [Observer η] {α : Type}

omit [Observer η] in
theorem tracking_of_steps {s : Setting η} {w : World (Host η)} (h : Steps s.start w) :
    Tracking w :=
  h.tracking s.steady_start.sound (Tracking.start _ _ _)

/-- **Between the operations of a host the tracked addresses are those of the data blocks on the heaps
of live machines, and the strays**, whose classes had no binder that answered with a bound key. -/
theorem payloads_match (s : Setting η) (p : Program η α) :
    ((s.run p).1.isFinal = false → PayloadsMatch (s.run p).2) ∧
      (∀ w, Steps s.start w → PayloadsFollow w) ∧
      ∀ depth active a module className w keys w',
        Trampoline.bindClass (s.code.engines s.importDepth depth active).delegates a module
            className w = (.value keys, w') →
          (keys.finalize?.isSome = true ↔ Trampoline.BindsClass
            (s.code.engines s.importDepth depth active).delegates a module className w) := by
  refine ⟨?_, ?_, ?_⟩
  · intro hend
    exact (tracking_of_steps (s.steps_run p)).match (s.steady_run p hend)
  · intro w hw
    exact (tracking_of_steps hw).follow
  · intro depth active a module className w keys w' h
    exact Trampoline.isSome_finalize?_bindClass h

/-- The payload of an object stays when the object and its machine are gone, since no binder has
given its class a finalizer. -/
theorem payloads_match_abandoned :
    (silent.run .abandon).1.isFinal = false ∧
      (abandoned.vm 1).isAlive = false ∧ abandoned.tracked 1 = [3] ∧
      abandoned.host.strays = [(1, 3)] ∧ PayloadsMatch abandoned ∧
      Steps silent.start abandoned ∧ PayloadsFollow abandoned ∧
      Trampoline.bindClass (silent.engines []).delegates 2 "main" "F" silent.start =
        (.value .unbound, silent.start) ∧
      (Machine.ClassKeys.unbound.finalize?.isSome = true ↔
        Trampoline.BindsClass (silent.engines []).delegates 2 "main" "F" silent.start) := by
  have hfacts := abandoned_eq
  simp only [Prod.mk.injEq] at hfacts
  obtain ⟨hend, hdead, htracked, hstrays⟩ := hfacts
  have hsteps : Steps silent.start abandoned := silent.steps_run .abandon
  have hunbound : Trampoline.bindClass (silent.engines []).delegates 2 "main" "F" silent.start =
      (.value .unbound, silent.start) := rfl
  obtain ⟨hmatch, hfollow, hbound⟩ := payloads_match silent .abandon
  exact ⟨hend, hdead, htracked, hstrays, hmatch hend, hsteps, hfollow _ hsteps, hunbound,
    hbound silent.depth [] 2 "main" "F" silent.start _ _ hunbound⟩

end Setting

end ScriptHost.Bridge
