import ScriptHost.Proofs.Matching
import ScriptHost.Proofs.Operations

/-!
# Worlds with machines that match

Two hosts do the same, but one of them has collected garbage and the other one has not.  Each machine
of one world matches the one at the same address of the other, and what has been lost besides objects
are payloads, under the addresses of their data blocks.  `Comparison.Relates` says so of two worlds.  The
objects that both have, and the addresses of the blocks that one may have lost, are fixed in a
`Comparison`, as long as neither world collects on its own.

What is new is never lost: new addresses are the same in both worlds, and none that was used before, if
the placement hands out addresses in a sequence (`Placement.Follows`).  What the hosts keep for themselves
is compared as far as a `Sight` goes, which does not tell when finalizers run.
-/

namespace ScriptHost.Bridge

open Machine (State Frame ObjectId Block)

variable {η σ φ α β γ : Type} [Observer η]

/-! ## What is compared -/

/-- What is seen of the things that a host keeps for itself.  The records of finalizers that found
nothing to do are not seen in it. -/
structure Sight (η σ : Type) [Observer η] where
  view : η → σ
  log : ∀ level text {h h' : η}, view h' = view h →
    view (Observer.log level text h') = view (Observer.log level text h)
  released : ∀ vm handle {h h' : η}, view h' = view h →
    view (Observer.released vm handle h') = view (Observer.released vm handle h)
  untracked : ∀ (address : Address) (h : η),
    view (Observer.log .trace
      ("finalize for untracked foreign " ++ Text.Hex.address address) h) = view h
  untagged : ∀ (address : Address) (h : η),
    view (Observer.log .warn
      ("finalizing untagged foreign object " ++ Text.Hex.address address) h) = view h

/-- A placement hands out the addresses of a sequence, in which none occurs twice, if it has handed out
all addresses itself. -/
structure Placement.Follows (p : Placement) (sequence : Nat → Address) : Prop where
  injective : Function.Injective sequence
  place : ∀ serial taken, (∀ x ∈ taken, ∃ k < serial, sequence k = x) →
    p.place serial taken = sequence serial

/-- What two worlds are compared by. -/
structure Comparison (η σ : Type) [Observer η] where
  sight : Sight η σ
  /-- The addresses that are handed out. -/
  sequence : Nat → Address
  /-- The objects that both machines at an address have. -/
  kept : Address → ObjectId → Prop
  /-- The addresses of data blocks whose objects one world may have lost. -/
  hidden : Address → Prop

namespace Comparison

variable (C : Comparison η σ)

/-- An address that has been handed out. -/
def Used (serial : Nat) (x : Address) : Prop := ∃ k < serial, C.sequence k = x

/-- A machine at an address has addresses that were handed out, and the hidden ones among them are those
of the foreign objects that are not kept. -/
structure Lies (serial : Nat) (a : Address) (m : State) : Prop where
  handle : ∀ x ∈ m.handles.keys, C.Used serial x
  block : ∀ id owner b, m.heap.foreign? id = some (owner, b) →
    C.Used serial b.address ∧ (C.hidden b.address ↔ ¬ C.kept a id)

/-- Two machines at an address that match. -/
structure Machines (serial : Nat) (a : Address) (m m' : State) : Prop where
  alike : m.Matches (C.kept a) m'
  lies : C.Lies serial a m
  lies' : C.Lies serial a m'

/-- Two services with the same bindings, and the same payloads as far as they are not hidden. -/
structure Services (s s' : Service) : Prop where
  bindings : s'.bindings = s.bindings
  finalizers : s'.payloads.finalizers = s.payloads.finalizers
  entries : ∀ x, ¬ C.hidden x → s'.payloads.entries.find? x = s.payloads.entries.find? x

/-- Two worlds that differ in what one of them has collected, while machines run at the addresses
`active`. -/
structure Relates (active : List Address) (w w' : World (Host η)) : Prop where
  same : ∃ natives services calls host, w' = { w with natives, services, calls, host }
  placement : w.placement.Follows C.sequence
  roster : Roster w
  managed' : ∀ a n, w'.natives.find? a = some n → n.isManaged = true
  natives : ∀ a, a ∈ w'.natives.keys ↔ a ∈ w.natives.keys
  running : ∀ a ∈ active, a ∈ w.natives.keys
  machines : ∀ a ∈ w.natives.keys, C.Machines w.serial a (w.machine a) (w'.machine a)
  serviceKeys : ∀ id, id ∈ w'.services.keys ↔ id ∈ w.services.keys
  services : ∀ id, C.Services (w.service id) (w'.service id)
  used : ∀ x, x ∈ w.natives.keys ∨ x ∈ w.services.keys → C.Used w.serial x
  hidden : ∀ x, C.hidden x → C.Used w.serial x
  kept : ∀ a id, ¬ C.kept a id → C.Used w.serial a
  view : C.sight.view w'.host.own = C.sight.view w.host.own
  handles : w'.host.handles = w.host.handles

variable {C} {serial : Nat} {a : Address} {m m' n n' : State}

/-! ## Machines -/

theorem Used.mono {serial' : Nat} (h : serial ≤ serial') {x : Address} (hx : C.Used serial x) :
    C.Used serial' x := by
  obtain ⟨k, hk, hx⟩ := hx
  exact ⟨k, Nat.lt_of_lt_of_le hk h, hx⟩

theorem used_succ (serial : Nat) : C.Used (serial + 1) (C.sequence serial) :=
  ⟨serial, Nat.lt_succ_self _, rfl⟩

theorem Lies.mono (l : C.Lies serial a m) {serial' : Nat} (h : serial ≤ serial') :
    C.Lies serial' a m :=
  ⟨fun x hx => (l.handle x hx).mono h, fun id owner b hb => (l.block id owner b hb).imp_left (.mono h)⟩

theorem Lies.frame (l : C.Lies serial a m) (hn : m.heap.Numbered) (h : Frame m n) :
    C.Lies serial a n := by
  refine ⟨fun x hx => l.handle x (h.handles ▸ hx), fun id owner b hb => ?_⟩
  rw [(h.heap hn).foreign] at hb
  exact l.block id owner b hb

/-- A data block on the heap is one of a foreign object. -/
theorem exists_foreign?_of_mem {h : Machine.Heap} {x : Address} (hx : x ∈ h.blockAddresses) :
    ∃ id owner b, h.foreign? id = some (owner, b) ∧ b.address = x := by
  obtain ⟨o, ho, haddress⟩ := List.mem_filterMap.1 hx
  obtain ⟨⟨id, o⟩, he, rfl⟩ := List.mem_map.1 ho
  have hget : h.get? id = some o := Table.find?_of_mem_entries he
  cases o with
  | foreign owner b =>
    refine ⟨id, owner, b, ?_, Option.some.inj haddress⟩
    rw [Machine.Heap.foreign?, hget]
  | _ => exact absurd haddress (by simp [Machine.Heap.blockAddress?])

/-- A machine that is not in the middle of a collection lies at addresses that were handed out. -/
theorem Lies.used (l : C.Lies serial a m) (hswept : m.swept = []) (hfinalizing : m.finalizing = [])
    {x : Address} (hx : x ∈ m.handles.keys ∨ x ∈ m.blockAddresses) : C.Used serial x := by
  refine hx.elim (l.handle x) fun hx => ?_
  rw [State.blockAddresses, hswept, hfinalizing, List.map_nil, List.map_nil, List.append_nil,
    List.append_nil] at hx
  obtain ⟨id, owner, b, hb, rfl⟩ := exists_foreign?_of_mem hx
  exact (l.block id owner b hb).1

namespace Machines

theorem mono (h : C.Machines serial a m m') {serial' : Nat} (hle : serial ≤ serial') :
    C.Machines serial' a m m' :=
  ⟨h.alike, h.lies.mono hle, h.lies'.mono hle⟩

/-- Own work that does the same to both machines. -/
theorem frame (h : C.Machines serial a m m') (hn : Frame m n) (hn' : Frame m' n')
    (hmatch : n.Matches (C.kept a) n') : C.Machines serial a n n' :=
  ⟨hmatch, h.lies.frame h.alike.heap.numbered hn, h.lies'.frame h.alike.heap.numbered' hn'⟩

end Machines

/-! ## What both worlds show -/

namespace Relates

variable {active : List Address} {w w' u u' : World (Host η)} (r : C.Relates active w w')
include r

theorem vms : w'.vms = w.vms := by
  obtain ⟨_, _, _, _, rfl⟩ := r.same
  rfl

theorem vm (id : VmId) : w'.vm id = w.vm id := by rw [World.vm, World.vm, r.vms]

theorem addressOf (id : VmId) : w'.addressOf id = w.addressOf id := by
  rw [World.addressOf, World.addressOf, r.vm]

theorem faults : w'.faults = w.faults := by
  obtain ⟨_, _, _, _, rfl⟩ := r.same
  rfl

theorem hasFault (f : NativeFault) : w'.hasFault f = w.hasFault f := by
  rw [World.hasFault, World.hasFault, r.faults]

theorem registered : w'.registered = w.registered := by
  obtain ⟨_, _, _, _, rfl⟩ := r.same
  rfl

theorem table : w'.handles = w.handles := by
  obtain ⟨_, _, _, _, rfl⟩ := r.same
  rfl

theorem isLiveHandle (x : Address) (id : Nat) : w'.isLiveHandle x id = w.isLiveHandle x id := by
  rw [World.isLiveHandle, World.isLiveHandle, r.table]

theorem nextHandleId : w'.nextHandleId = w.nextHandleId := by
  obtain ⟨_, _, _, _, rfl⟩ := r.same
  rfl

theorem nextVmId : w'.nextVmId = w.nextVmId := by
  obtain ⟨_, _, _, _, rfl⟩ := r.same
  rfl

theorem serial_eq : w'.serial = w.serial := by
  obtain ⟨_, _, _, _, rfl⟩ := r.same
  rfl

theorem placement_eq : w'.placement = w.placement := by
  obtain ⟨_, _, _, _, rfl⟩ := r.same
  rfl

theorem typeNames : w'.typeNames = w.typeNames := by
  obtain ⟨_, _, _, _, rfl⟩ := r.same
  rfl

theorem lastVm? : w'.lastVm? = w.lastVm? := by
  obtain ⟨_, _, _, _, rfl⟩ := r.same
  rfl

theorem freeReport? : w'.freeReport? = w.freeReport? := by
  obtain ⟨_, _, _, _, rfl⟩ := r.same
  rfl

theorem roster' : Roster w' := by
  have hnatives := r.natives
  have hservices := r.serviceKeys
  have hmanaged := r.managed'
  obtain ⟨natives, services, calls, host, rfl⟩ := r.same
  refine ⟨r.roster.registered, fun a ha => ?_, hmanaged, r.roster.known, fun id hid => ?_,
    r.roster.honest⟩
  · exact (hnatives a).2 (r.roster.native a ha)
  · exact (hservices _).2 (r.roster.served id hid)

/-- What two machines that match have in common is the same in both worlds, wherever machines lie. -/
theorem read {f : State → γ} (a : Address)
    (hf : ∀ {m m' : State}, m.Matches (C.kept a) m' → f m' = f m) :
    f (w'.machine a) = f (w.machine a) := by
  by_cases ha : a ∈ w.natives.keys
  · exact hf (r.machines a ha).alike
  · rw [World.machine_of_not_mem ha, World.machine_of_not_mem fun h => ha ((r.natives a).1 h)]

/-! ### Addresses -/

omit r in
theorem used_of_taken_of {u : World (Host η)} {serial : Nat}
    (hused : ∀ x, x ∈ u.natives.keys ∨ x ∈ u.services.keys → C.Used serial x)
    (hlies : ∀ a ∈ u.natives.keys, ∀ x, x ∈ (u.machine a).handles.keys ∨
      x ∈ (u.machine a).blockAddresses → C.Used serial x)
    {x : Address} (hx : x ∈ u.taken) : C.Used serial x := by
  rcases List.mem_append.1 hx with hx | hx
  · exact hused x (List.mem_append.1 hx)
  obtain ⟨n, hn, hx⟩ := List.mem_flatMap.1 hx
  obtain ⟨⟨a, n⟩, he, rfl⟩ := List.mem_map.1 hn
  have hfind : u.natives.find? a = some n := Table.find?_of_mem_entries he
  refine hlies a (Table.mem_keys_of_find? hfind) x ?_
  rw [World.machine, hfind]
  exact List.mem_append.1 hx

/-- All that lies in either world lies at addresses that were handed out. -/
theorem used_of_taken {x : Address} (hx : x ∈ w.taken ∨ x ∈ w'.taken) : C.Used w.serial x := by
  rcases hx with hx | hx
  · refine used_of_taken_of r.used (fun a ha x hx => ?_) hx
    have h := r.machines a ha
    exact h.lies.used h.alike.swept h.alike.finalizing hx
  · refine used_of_taken_of (fun x hx => r.used x ?_) (fun a ha x hx => ?_) hx
    · exact hx.imp (r.natives x).1 (r.serviceKeys x).1
    · have h := r.machines a ((r.natives a).1 ha)
      refine h.lies'.used ?_ ?_ hx
      · rw [h.alike.same]
        exact h.alike.swept
      · rw [h.alike.same]
        exact h.alike.finalizing

/-- **The next address is the same in both worlds.** -/
theorem place_eq : w.placement.place w.serial w.taken = C.sequence w.serial ∧
    w'.placement.place w'.serial w'.taken = C.sequence w.serial := by
  rw [r.placement_eq, r.serial_eq]
  exact ⟨r.placement.place _ _ fun x hx => r.used_of_taken (Or.inl hx),
    r.placement.place _ _ fun x hx => r.used_of_taken (Or.inr hx)⟩

/-- The next address has not been handed out. -/
theorem not_used : ¬ C.Used w.serial (C.sequence w.serial) := by
  rintro ⟨k, hk, heq⟩
  exact absurd (r.placement.injective heq) (Nat.ne_of_lt hk)

theorem not_mem_taken : C.sequence w.serial ∉ w.taken ∧ C.sequence w.serial ∉ w'.taken :=
  ⟨fun hx => r.not_used (r.used_of_taken (Or.inl hx)),
    fun hx => r.not_used (r.used_of_taken (Or.inr hx))⟩

/-! ## Changes of both worlds -/

/-- What machines and services do not depend on changes alike. -/
theorem congr (hsame : ∃ natives services calls host, u' = { u with natives, services, calls, host })
    (hplacement : u.placement = w.placement) (hserial : w.serial ≤ u.serial) (hroster : Roster u)
    (hnatives : u.natives = w.natives) (hnatives' : u'.natives = w'.natives)
    (hservices : u.services = w.services) (hservices' : u'.services = w'.services)
    (hview : C.sight.view u'.host.own = C.sight.view u.host.own)
    (hhandles : u'.host.handles = u.host.handles) : C.Relates active u u' where
  same := hsame
  placement := hplacement ▸ r.placement
  roster := hroster
  managed' := hnatives' ▸ r.managed'
  natives := hnatives ▸ hnatives' ▸ r.natives
  running := hnatives ▸ r.running
  machines a ha := by
    rw [World.machine, World.machine, hnatives, hnatives']
    exact (r.machines a (hnatives ▸ ha)).mono hserial
  serviceKeys := hservices ▸ hservices' ▸ r.serviceKeys
  services id := by
    rw [World.service, World.service, hservices, hservices']
    exact r.services id
  used x hx := (r.used x (hnatives ▸ hservices ▸ hx)).mono hserial
  hidden x hx := (r.hidden x hx).mono hserial
  kept a id hid := (r.kept a id hid).mono hserial
  view := hview
  handles := hhandles

theorem note (c c' : NativeCall) : C.Relates active (w.note c) (w'.note c') := by
  refine r.congr ?_ rfl (Nat.le_refl _) (r.roster.congr rfl rfl rfl rfl rfl rfl) rfl rfl rfl rfl
    r.view r.handles
  obtain ⟨_, _, _, _, rfl⟩ := r.same
  exact ⟨_, _, _, _, rfl⟩

/-- What only logs, reports and later choices of addresses depend on changes. -/
theorem idle {serial : Nat} (hle : w.serial ≤ serial) (calls calls' : List NativeCall)
    (lastVm? lastHandle? lastBlock? : Option Address) (freeReport? : Option FreeReport) :
    C.Relates active { w with serial, calls, lastVm?, lastHandle?, lastBlock?, freeReport? }
      { w' with serial, calls := calls', lastVm?, lastHandle?, lastBlock?, freeReport? } := by
  refine r.congr ?_ rfl hle (r.roster.congr rfl rfl rfl rfl rfl rfl) rfl rfl rfl rfl r.view r.handles
  obtain ⟨_, _, _, _, rfl⟩ := r.same
  exact ⟨_, _, _, _, rfl⟩

/-- The table of handles changes. -/
theorem withTable (handles : Table Address HandleRecord) (nextHandleId : Nat) :
    C.Relates active { w with handles, nextHandleId } { w' with handles, nextHandleId } := by
  refine r.congr ?_ rfl (Nat.le_refl _) (r.roster.congr rfl rfl rfl rfl rfl rfl) rfl rfl rfl rfl
    r.view r.handles
  obtain ⟨_, _, _, _, rfl⟩ := r.same
  exact ⟨_, _, _, _, rfl⟩

/-- What the hosts keep changes. -/
theorem withHost {host host' : Host η} (hview : C.sight.view host'.own = C.sight.view host.own)
    (hhandles : host'.handles = host.handles) :
    C.Relates active { w with host } { w' with host := host' } := by
  refine r.congr ?_ rfl (Nat.le_refl _) (r.roster.congr rfl rfl rfl rfl rfl rfl) rfl rfl rfl rfl
    hview hhandles
  obtain ⟨_, _, _, _, rfl⟩ := r.same
  exact ⟨_, _, _, _, rfl⟩

/-- Two machines that match are put at an address. -/
theorem putMachine {m m' : State} (h : a ∈ w.natives.keys → C.Machines w.serial a m m') :
    C.Relates active (w.putMachine a m) (w'.putMachine a m') where
  same := by
    obtain ⟨_, _, _, _, rfl⟩ := r.same
    exact ⟨_, _, _, _, rfl⟩
  placement := r.placement
  roster := r.roster.putMachine a m
  managed' := (r.roster'.putMachine a m').managed
  natives b := World.mem_natives_putMachine.trans ((r.natives b).trans World.mem_natives_putMachine.symm)
  running b hb := World.mem_natives_putMachine.2 (r.running b hb)
  machines b hb := by
    have hb' := World.mem_natives_putMachine.1 hb
    by_cases hba : b = a
    · subst hba
      rw [World.machine_putMachine_self hb', World.machine_putMachine_self ((r.natives b).2 hb')]
      exact h hb'
    · rw [World.machine_putMachine_ne w hba, World.machine_putMachine_ne w' hba]
      exact r.machines b hb'
  serviceKeys := r.serviceKeys
  services := r.services
  used x hx := r.used x (hx.imp_left World.mem_natives_putMachine.1)
  hidden := r.hidden
  kept := r.kept
  view := r.view
  handles := r.handles

/-- Both machines at an address are changed in the same way. -/
theorem edit {f : State → State} (hframe : ∀ m, Frame m (f m))
    (hf : ∀ {m m' : State}, m.Matches (C.kept a) m' → (f m).Matches (C.kept a) (f m')) :
    C.Relates active (w.putMachine a (f (w.machine a))) (w'.putMachine a (f (w'.machine a))) :=
  r.putMachine fun ha =>
    (r.machines a ha).frame (hframe _) (hframe _) (hf (r.machines a ha).alike)

/-- A service changes in both worlds. -/
theorem modifyService {id : ServiceId} {g g' : Service → Service}
    (h : C.Services (g (w.service id)) (g' (w'.service id))) :
    C.Relates active (w.modifyService id g) (w'.modifyService id g') where
  same := by
    obtain ⟨_, _, _, _, rfl⟩ := r.same
    exact ⟨_, _, _, _, rfl⟩
  placement := r.placement
  roster := r.roster.modifyService id g
  managed' := r.managed'
  natives := r.natives
  running := r.running
  machines := r.machines
  serviceKeys i := Table.mem_keys_modify.trans ((r.serviceKeys i).trans Table.mem_keys_modify.symm)
  services i := by
    by_cases hi : i = id
    · subst hi
      by_cases hin : i ∈ w.services.keys
      · rw [World.service_modifyService_self hin,
          World.service_modifyService_self ((r.serviceKeys i).2 hin)]
        exact h
      · have hin' : i ∉ w'.services.keys := fun h => hin ((r.serviceKeys i).1 h)
        rw [World.modifyService, World.modifyService,
          Table.modify_of_none (Table.find?_eq_none_iff.2 hin),
          Table.modify_of_none (Table.find?_eq_none_iff.2 hin')]
        exact r.services i
    · rw [World.service_modifyService_ne w hi, World.service_modifyService_ne w' hi]
      exact r.services i
  used x hx := r.used x (hx.imp_right Table.mem_keys_modify.1)
  hidden := r.hidden
  kept := r.kept
  view := r.view
  handles := r.handles

/-- What is known of a machine changes, but not where it lies. -/
theorem modifyVm (id : VmId) {f : VmRecord → VmRecord} (halive : ∀ r, (f r).isAlive = r.isAlive)
    (haddress : ∀ r, (f r).address = r.address) (hservice : ∀ r, (f r).service = r.service) :
    C.Relates active (w.modifyVm id f) (w'.modifyVm id f) := by
  refine r.congr ?_ rfl (Nat.le_refl _) (r.roster.modifyVm id halive haddress hservice) rfl rfl rfl
    rfl r.view r.handles
  obtain ⟨_, _, _, _, rfl⟩ := r.same
  exact ⟨_, _, _, _, rfl⟩

/-- Fewer machines run. -/
theorem subset {active' : List Address} (h : active' ⊆ active) : C.Relates active' w w' :=
  { r with running := fun a ha => r.running a (h ha) }

/-- One more machine runs. -/
theorem cons (ha : a ∈ w.natives.keys) : C.Relates (a :: active) w w' :=
  { r with running := fun _ hb => (List.mem_cons.1 hb).elim (fun h => h ▸ ha) (r.running _) }

end Relates

end Comparison

end ScriptHost.Bridge
