import ScriptHost.Proofs.Tracking

/-!
# The life of a foreign object

A foreign object whose class is bound to a key is on the heap of its machine until a sweep takes it
off, and then waits for its finalizers (`Instance.Remains`).  As long as it does, its service keeps an
entry for it.  No step takes the entry away or changes it, save one that overwrites its payload, so
that the entry is always the first one with the payload that was assigned last (`Lives.record?_eq`).

`Instance.Lives` is such a stretch of steps, with the payloads that were assigned on the way.
-/

namespace ScriptHost.Machine.State

variable {m m' : State} {id : ObjectId} {d : Dead}

/-- The object with a number is on the heap, or has been swept. -/
def Keeps (m : State) (id : ObjectId) (d : Dead) : Prop := m.heap.remains? id = some d ∨ d ∈ m.swept

theorem Keeps.carries (h : m.Keeps id d) : m.Carries d := h.imp (fun hid => ⟨id, hid⟩) fun hd => hd

theorem keeps_congr (hheap : m'.heap = m.heap) (hswept : m'.swept = m.swept) (h : m.Keeps id d) :
    m'.Keeps id d := by
  rwa [Keeps, hheap, hswept]

/-- A machine that works keeps its foreign objects. -/
theorem Tidy.keeps_frame (t : m.Tidy) (hf : Frame m m') (h : m.Keeps id d) : m'.Keeps id d := by
  rwa [Keeps, (hf.heap t.numbered).remains? t.owned, hf.swept]

theorem Tidy.keeps_birth (t : m.Tidy) {owner : ObjectId} {block : Block}
    (hb : Birth m m' owner block) (hc : (m.heap.class? owner).isSome = true) (h : m.Keeps id d) :
    m'.Keeps id d := by
  obtain ⟨new, hnone, -, hold⟩ := t.remains?_birth hb hc
  rcases h with hid | hd
  · have hne : id ≠ new := by
      rintro rfl
      exact absurd (hnone.symm.trans hid) (by simp)
    exact Or.inl ((hold id hne).trans hid)
  · refine Or.inr ?_
    rwa [hb.swept]

/-- What leaves the heap waits among the swept objects. -/
theorem Tidy.keeps_loses (t : m.Tidy) {dead : List Dead} (hl : m.heap.Loses m'.heap dead)
    (hswept : m'.swept = dead ++ m.swept) (h : m.Keeps id d) : m'.Keeps id d := by
  rcases h with hid | hd
  · obtain ⟨owner, hf, hfinalizer⟩ := Heap.remains?_eq_some.1 hid
    rcases hl.lost id owner d.block hf with hkept | hdead
    · have hclass := t.owned id owner d.block hf
      refine Or.inl (Heap.remains?_eq_some.2 ⟨owner, hkept, hfinalizer.trans ?_⟩)
      exact (Heap.finalizer?_of_class hclass fun c =>
        hl.classes id owner d.block c hkept).symm
    · rw [← hfinalizer] at hdead
      refine Or.inr ?_
      rw [hswept]
      exact List.mem_append_left _ hdead
  · refine Or.inr ?_
    rw [hswept]
    exact List.mem_append_right _ hd

/-- An object that a sweep has removed from the heap is among the dead. -/
theorem Tidy.mem_dead_of_sweep (t : m.Tidy) (ho : m.heap.remains? id = some d)
    (hgone : m.sweep.2.heap.remains? id ≠ some d) (h : m.sweep.2.Keeps id d) : d ∈ m.sweep.1 := by
  refine (List.mem_append.1 (h.resolve_left hgone)).resolve_right fun hbefore => ?_
  exact t.waiting id d ho d hbefore rfl

/-- An object that is kept when a machine is emptied is among the dead. -/
theorem mem_dead_of_drain (hswept : m.swept = []) (h : m.drain.2.Keeps id d) : d ∈ m.drain.1 := by
  have hnone : m.drain.2.heap.remains? id = none := by
    have hget : m.drain.2.heap.get? id = none := by
      rw [Heap.get?, show m.drain.2.heap.objects = .empty from Heap.objects_drain m.heap]
      rfl
    rw [Heap.remains?, hget]
  have hwaits : d ∈ m.drain.1 ++ m.swept := h.resolve_left fun hid => by
    rw [hnone] at hid
    cases hid
  rwa [hswept, List.append_nil] at hwaits

/-- The machine lets go of the next swept object only. -/
theorem keeps_beginFinalizer {next : Dead} {rest : List Dead} (hswept : m.swept = next :: rest)
    (hne : d ≠ next) (h : m.Keeps id d) : (m.beginFinalizer next).Keeps id d := by
  refine h.imp (fun hid => hid) fun hd => ?_
  rw [hswept] at hd
  rw [State.beginFinalizer, hswept]
  exact (List.mem_cons.1 hd).resolve_left hne

end ScriptHost.Machine.State

namespace ScriptHost.Bridge

open Machine (State Dead Block ObjectId Key Frame)

variable {η : Type}

/-! ## Foreign objects -/

/-- A foreign object: where its data block lies, the service that the block is tagged with, and the
key to which its class is bound. -/
structure Instance where
  machine : Address
  id : ObjectId
  address : Address
  service : ServiceId
  key : Key

/-- The entry behind some assignments. -/
def Entry.after (e : Entry) (assigned : List Payload) : Entry :=
  assigned.foldl (fun e p => { e with holding := .value p }) e

/-- The payload that was assigned last is kept, the first one if there is none. -/
theorem Entry.payload_after (e : Entry) (assigned : List Payload) :
    (e.after assigned).holding.payload = assigned.getLast?.getD e.holding.payload := by
  rcases List.eq_nil_or_concat assigned with rfl | ⟨rest, p, rfl⟩
  · rfl
  · simp [Entry.after, Holding.payload]

/-- Assignments never change the tag. -/
theorem Entry.tag_after (e : Entry) (assigned : List Payload) : (e.after assigned).tag = e.tag := by
  unfold Entry.after
  induction assigned generalizing e with
  | nil => rfl
  | cons p rest ih => exact ih _

namespace Instance

variable (o : Instance) (w : World η)

/-- What a machine keeps of the object once it has left the heap. -/
def dead : Dead := ⟨⟨o.address, some o.service⟩, some o.key⟩

/-- The object is on the heap of its machine. -/
def OnHeap : Prop := (w.machine o.machine).heap.remains? o.id = some o.dead

/-- The object is on the heap of its machine, or waits for its finalizers. -/
def Remains : Prop := (w.machine o.machine).Keeps o.id o.dead

/-- What the service keeps for the object. -/
def record? : Option Entry := (w.service o.service).payloads.entries.find? o.address

/-- The finalizer of the binding of the class. -/
def classFinalizer? : Option Delegate :=
  ((w.service o.service).bindings.class? o.key).bind ClassBinding.finalizer?

variable {o w} {w' : World η}

theorem OnHeap.remains (h : o.OnHeap w) : o.Remains w := Or.inl h

theorem remains_of_machine (hmachine : w'.machine o.machine = w.machine o.machine)
    (h : o.Remains w) : o.Remains w' := by
  rwa [Remains, hmachine]

theorem remains_putMachine {a : Address} {m : State}
    (hkeeps : ∀ id d, (w.machine a).Keeps id d → m.Keeps id d) (h : o.Remains w) :
    o.Remains (w.putMachine a m) := by
  rcases w.machine_putMachine a o.machine m with ⟨hm, ha⟩ | hsame
  · rw [Remains, hm]
    rw [Remains, ha] at h
    exact hkeeps _ _ h
  · exact remains_of_machine hsame h

/-- **A foreign object that remains has an entry.** -/
theorem Remains.exists_entry {w : World (Host η)} (h : o.Remains w) (t : Tracking w) :
    ∃ e, o.record? w = some e := by
  obtain ⟨service, howner, -, htracked, -⟩ := t.attached o.machine o.dead h.carries
  obtain rfl := Option.some.inj howner
  exact Table.exists_find?_of_mem htracked

end Instance

/-! ## Stretches of a life -/

/-- What is bound to a key stays bound to it. -/
def World.Binds (service : ServiceId) (key : Key) (w w' : World η) : Prop :=
  ∀ binding, (w.service service).bindings.class? key = some binding →
    (w'.service service).bindings.class? key = some binding

namespace Instance

/-- A step during which an object remains and its entry stays. -/
structure Passes (o : Instance) (w w' : World (Host η)) : Prop where
  step : Step w w'
  remains : o.Remains w'
  entry : o.record? w' = o.record? w
  binds : World.Binds o.service o.key w w'

/-- The payload of an object is overwritten, at the address that a live machine tells for one of its
slots. -/
inductive Assigns (o : Instance) (p : Payload) (w : World (Host η)) : World (Host η) → Prop where
  | intro {vm : VmId} {a : Address} {payloads : Payloads} (live : w.LiveAt vm a)
      (service : (w.vm vm).service = o.service) (tells : Tells (w.machine a) o.address)
      (set : (w.service o.service).payloads.setValue w.typeNames o.address p = .ok payloads) :
      Assigns o p w (w.modifyService o.service fun service => { service with payloads })

/-- Steps during which an object remains, with the payloads that are assigned to it. -/
inductive Lives (o : Instance) (w : World (Host η)) : List Payload → World (Host η) → Prop where
  | start (h : o.Remains w) : Lives o w [] w
  | passes {assigned : List Payload} {w₁ w₂ : World (Host η)} (h : Lives o w assigned w₁)
      (h' : o.Passes w₁ w₂) : Lives o w assigned w₂
  | assigns {assigned : List Payload} {p : Payload} {w₁ w₂ : World (Host η)}
      (h : Lives o w assigned w₁) (h' : o.Assigns p w₁ w₂) : Lives o w (assigned ++ [p]) w₂

variable {o : Instance} {w w' w₁ w₂ w₃ : World (Host η)} {assigned assigned' : List Payload}
  {p : Payload}

/-! ### Assignments -/

theorem Assigns.step (h : o.Assigns p w w') : Step w w' := by
  cases h with
  | intro _ _ _ set => exact .serve fun x => keys_setValue set x

theorem Assigns.remains (h : o.Assigns p w w') (ho : o.Remains w) : o.Remains w' := by
  cases h with
  | intro => exact remains_of_machine rfl ho

theorem Assigns.entry (h : o.Assigns p w w') :
    o.record? w' = (o.record? w).map fun e => { e with holding := .value p } := by
  cases h with
  | intro _ _ _ set =>
    obtain ⟨e, hfind, -, rfl⟩ := setValue_eq set
    have hservice := World.mem_services_of_tracked (Table.mem_keys_of_find? hfind)
    rw [record?, World.service_modifyService_self hservice, record?, hfind]
    exact Table.find?_insert_self ..

theorem Assigns.binds (h : o.Assigns p w w') : World.Binds o.service o.key w w' := by
  cases h with
  | intro _ _ _ set =>
    obtain ⟨e, hfind, -, rfl⟩ := setValue_eq set
    have hservice := World.mem_services_of_tracked (Table.mem_keys_of_find? hfind)
    intro binding hbinding
    rwa [World.service_modifyService_self hservice]

/-! ### Lives -/

theorem Passes.lives (h : o.Passes w w') (ho : o.Remains w) : o.Lives w [] w' := .passes (.start ho) h

theorem Lives.trans (h : o.Lives w₁ assigned w₂) (h' : o.Lives w₂ assigned' w₃) :
    o.Lives w₁ (assigned ++ assigned') w₃ := by
  induction h' with
  | start =>
    rw [List.append_nil]
    exact h
  | passes _ hpasses ih => exact ih.passes hpasses
  | assigns _ hassigns ih =>
    rw [← List.append_assoc]
    exact ih.assigns hassigns

theorem Lives.steps (h : o.Lives w assigned w') : Steps w w' := by
  induction h with
  | start => exact .refl
  | passes _ hpasses ih => exact ih.tail hpasses.step
  | assigns _ hassigns ih => exact ih.tail hassigns.step

theorem Lives.remains (h : o.Lives w assigned w') : o.Remains w' := by
  induction h with
  | start h => exact h
  | passes _ hpasses => exact hpasses.remains
  | assigns _ hassigns ih => exact hassigns.remains ih

theorem Lives.remains_start (h : o.Lives w assigned w') : o.Remains w := by
  induction h with
  | start h => exact h
  | passes _ _ ih => exact ih
  | assigns _ _ ih => exact ih

/-- **The entry of an object is the first one, with the payload that was assigned last.** -/
theorem Lives.record?_eq (h : o.Lives w assigned w') :
    o.record? w' = (o.record? w).map (Entry.after · assigned) := by
  induction h with
  | start => simp [Entry.after]
  | passes _ hpasses ih => exact hpasses.entry.trans ih
  | assigns _ hassigns ih =>
    rw [hassigns.entry, ih, Option.map_map]
    refine congrArg (Option.map · _) (funext fun e => ?_)
    simp [Entry.after]

theorem Lives.binds (h : o.Lives w assigned w') : World.Binds o.service o.key w w' := by
  induction h with
  | start => exact fun _ h => h
  | passes _ hpasses ih => exact fun binding hb => hpasses.binds binding (ih binding hb)
  | assigns _ hassigns ih => exact fun binding hb => hassigns.binds binding (ih binding hb)

end Instance

/-! ## Work during which an object remains -/

section

variable {o : Instance} {w w' : World (Host η)} {a : Address}

/-- Nothing changes for services. -/
theorem Instance.Passes.of_services (hs : Step w w') (ho : o.Remains w')
    (hservices : w'.services = w.services) : o.Passes w w' := by
  refine ⟨hs, ho, ?_, fun binding hb => ?_⟩
  · rw [Instance.record?, Instance.record?, World.service, World.service, hservices]
  · rwa [World.service, hservices]

/-- A machine changes, and keeps its foreign objects. -/
theorem Instance.Passes.putMachine {m : State} (hs : Step w (w.putMachine a m))
    (hkeeps : ∀ id d, (w.machine a).Keeps id d → m.Keeps id d) (ho : o.Remains w) :
    o.Passes w (w.putMachine a m) :=
  .of_services hs (Instance.remains_putMachine hkeeps ho) rfl

/-- A service changes, but not what it keeps for the object. -/
theorem Instance.Passes.of_modify {service : ServiceId} {f : Service → Service} (hs : Step w w')
    (ho : o.Remains w') (hservices : w'.services = w.services.modify service f)
    (hentry : o.service = service → (f (w.service service)).payloads.entries.find? o.address =
      (w.service service).payloads.entries.find? o.address)
    (hbinds : ∀ key binding, (w.service service).bindings.class? key = some binding →
      (f (w.service service)).bindings.class? key = some binding) : o.Passes w w' := by
  have hw' : w'.service o.service = (w.modifyService service f).service o.service := by
    rw [World.service, hservices]
    rfl
  by_cases hsame : o.service = service
  · subst hsame
    by_cases hk : o.service ∈ w.services.keys
    · rw [World.service_modifyService_self hk] at hw'
      refine ⟨hs, ho, ?_, fun binding hb => ?_⟩
      · rw [Instance.record?, hw']
        exact hentry rfl
      · rw [hw']
        exact hbinds _ binding hb
    · refine .of_services hs ho (hservices.trans ?_)
      exact Table.modify_of_none (Table.find?_eq_none_iff.2 hk) f
  · rw [World.service_modifyService_ne w hsame] at hw'
    refine ⟨hs, ho, ?_, fun binding hb => ?_⟩
    · rw [Instance.record?, hw']
      rfl
    · rwa [hw']

end

/-- Where nothing is tracked, a new service tracks nothing either. -/
theorem World.service_found {w : World η} {service : ServiceId} (h : service ∉ w.services.keys)
    (s : ServiceId) :
    World.service { w with services := w.services.insert service .empty } s = w.service s := by
  by_cases hs : s = service
  · subst hs
    simp [World.service, Table.find?_insert_self, Table.find?_eq_none_iff.2 h]
  · simp [World.service, Table.find?_insert_ne _ _ hs]

/-- Bindings do not change when a payload is gained. -/
theorem Gains.bindings {w : World (Host η)} {service : ServiceId} {x : Address}
    {f : Service → Service} (h : Gains w service x f) :
    (f (w.service service)).bindings = (w.service service).bindings := by
  cases h with
  | conflict _ hf => rw [hf]
  | entry _ holding hf => rw [hf]

section

variable [Observer η] {P : VmId → Prop} {S : Powers} {o : Instance} {w w' : World (Host η)}
  {a : Address} {d : Dead} {rest : List Dead}

/-- **During a deed of the host an object remains**, and its entry stays or its payload is
overwritten. -/
theorem Deed.lives (h : Deed P S w w') (hs : Sound w) (t : Tracking w) (ho : o.Remains w) :
    ∃ assigned, o.Lives w assigned w' := by
  have hstep := h.step hs
  have hpasses : o.Passes w w' → ∃ assigned, o.Lives w assigned w' := fun h => ⟨[], h.lives ho⟩
  cases h with
  | idle | enter | use | listen => exact hpasses (.of_services hstep ho rfl)
  | @edit vm a m _ _ hedit =>
    exact hpasses (.putMachine hstep (fun _ _ => (t.tidy a).keeps_frame hedit.frame) ho)
  | enrol _ hentries hgrows =>
    exact hpasses (.of_modify hstep ho rfl (fun _ => by rw [hentries]) fun _ _ => hgrows.class?)
  | found hservice =>
    refine hpasses ⟨hstep, ho, ?_, fun binding hb => ?_⟩
    · rw [Instance.record?, World.service_found hservice]
      rfl
    · rwa [World.service_found hservice]
  | @adopt vm a x target =>
    have hput := Instance.remains_putMachine (a := a)
      (m := (w.machine a).storeHandle x target) (fun _ _ => State.keeps_congr rfl rfl) ho
    exact hpasses (.of_services hstep hput rfl)
  | @release m a =>
    have hput := Instance.remains_putMachine (a := a)
      (m := (w.machine a).releaseHandle m.address) (fun _ _ => State.keeps_congr rfl rfl) ho
    exact hpasses (.of_services hstep hput rfl)
  | @bear vm a x service owner index m f _ _ _ hb =>
    have hd := hb.delivery
    have hput := Instance.remains_putMachine (a := a) (m := m)
      (fun _ _ => (t.tidy a).keeps_birth hd.birth hd.isClass) ho
    refine hpasses (.of_modify hstep hput rfl (fun _ => ?_) fun key binding => ?_)
    · exact hb.gains.find?_ne (hd.address_ne ho.carries)
    · rw [hb.gains.bindings]
      exact fun h => h
  | @assign vm a x p payloads _ _ hl hx hset =>
    by_cases hself : o.service = (w.vm vm).service ∧ o.address = x
    · obtain ⟨hservice, rfl⟩ := hself
      rw [← hservice]
      refine ⟨[p], .assigns (.start ho) (.intro hl hservice.symm hx ?_)⟩
      rw [hservice]
      exact hset
    · obtain ⟨e, -, -, rfl⟩ := setValue_eq hset
      refine hpasses (.of_modify hstep ho rfl (fun hservice => ?_) fun _ _ h => h)
      exact Table.find?_insert_ne _ _ fun haddress => hself ⟨hservice, haddress⟩

/-- **During a chore an object remains**, and its entry stays or its payload is overwritten. -/
theorem Chore.lives {K : Regime η} (h : Chore K w w') (hs : Sound w) (t : Tracking w)
    (ho : o.Remains w) : ∃ assigned, o.Lives w assigned w' := by
  have hstep := h.step hs
  have hpasses : o.Passes w w' → ∃ assigned, o.Lives w assigned w' := fun h => ⟨[], h.lives ho⟩
  cases h with
  | deed h => exact h.lives hs t ho
  | watch | keep | misreport | retire => exact hpasses (.of_services hstep ho rfl)
  | create policy ha =>
    refine hpasses (.of_services hstep ?_ rfl)
    exact Instance.remains_of_machine (World.machine_withVm ha _ policy _) ho
  | @discard a report? _ hheap hswept =>
    have hne : o.machine ≠ a := by
      rintro rfl
      exact State.not_carries_of_empty hheap hswept _ ho.carries
    refine hpasses (.of_services hstep ?_ rfl)
    exact Instance.remains_of_machine (machine_discarded_ne hne report?) ho

omit [Observer η] in
/-- A machine works, and an object remains. -/
theorem Instance.passes_work {m : State} (t : Tracking w) (ha : a ∈ w.registered.keys)
    (hf : Frame (w.machine a) m) (ho : o.Remains w) : o.Passes w (w.putMachine a m) :=
  .putMachine (.work ha hf) (fun _ _ => (t.tidy a).keeps_frame hf) ho

omit [Observer η] in
/-- An object that is swept waits. -/
theorem Instance.passes_sweep (t : Tracking w) (ha : a ∈ w.natives.keys) (ho : o.Remains w) :
    o.Passes w (w.putMachine a (w.machine a).sweep.2) :=
  .putMachine (.sweep ha) (fun _ _ => (t.tidy a).keeps_loses
    (Machine.Heap.loses_collect (w.machine a).heap (w.machine a).roots) rfl) ho

omit [Observer η] in
/-- An object of a machine that is emptied waits. -/
theorem Instance.passes_drain (t : Tracking w) (ha : a ∈ w.natives.keys)
    (hreg : a ∉ w.registered.keys) (ho : o.Remains w) :
    o.Passes w (w.putMachine a (w.machine a).drain.2) :=
  .putMachine (.drain ha hreg) (fun _ _ => (t.tidy a).keeps_loses
    (Machine.Heap.loses_drain (w.machine a).heap) rfl) ho

omit [Observer η] in
/-- An object remains when the finalizers of another one have run. -/
theorem Instance.passes_buried (ha : a ∈ w.natives.keys) (ho : o.Remains w) :
    o.Passes w (w.buried a) :=
  .putMachine (.bury ha) (fun _ _ => State.keeps_congr rfl rfl) ho

omit [Observer η] in
/-- A finalizer takes the entry of its object out, if the class of the object has one. -/
theorem World.services_finalized {service : ServiceId} (howner : d.block.owner? = some service)
    (hpos : d.block.address ≠ 0) : (w.finalized a d).services = w.services ∨
      (w.finalized a d).services = w.services.modify service fun s =>
        { s with payloads := ((w.service service).payloads.take d.block.address).2 } := by
  obtain ⟨⟨address, owner?⟩, finalize?⟩ := d
  obtain rfl : owner? = some service := howner
  unfold World.finalized World.unload
  cases finalize? with
  | none => exact Or.inl rfl
  | some key =>
    refine Or.inr ?_
    simp only [Option.isSome_some, if_true, if_neg hpos]
    rfl

omit [Observer η] in
/-- **An object remains when another one is finalized**, and keeps its entry. -/
theorem Instance.passes_finalized (t : Tracking w) (ha : a ∈ w.natives.keys)
    (hswept : (w.machine a).swept = d :: rest) (hne : ¬ (o.machine = a ∧ o.dead = d))
    (ho : o.Remains w) : o.Passes w (w.finalized a d) := by
  have hcarried : (w.machine a).Carries d := Or.inr (hswept ▸ List.mem_cons_self)
  obtain ⟨service, howner, hpos, -, -⟩ := t.attached a d hcarried
  have hstep : Step w (w.finalized a d) := .finalize ha hswept
  have hremains : o.Remains (w.finalized a d) := by
    by_cases hm : o.machine = a
    · subst hm
      rw [Instance.Remains, machine_finalized_self ha]
      exact State.keeps_beginFinalizer hswept (fun hdead => hne ⟨rfl, hdead⟩) ho
    · exact Instance.remains_of_machine (machine_finalized_ne hm d) ho
  -- at one address there is one data block
  have haddress : o.address ≠ d.block.address := by
    intro haddress
    obtain hm : o.machine = a := t.apart o.machine a o.dead d ho.carries hcarried haddress
    refine hne ⟨hm, (t.tidy a).eq_of_address ?_ hcarried haddress⟩
    rw [← hm]
    exact ho.carries
  rcases w.services_finalized howner hpos with hsame | htaken
  · exact .of_services hstep hremains hsame
  · exact .of_modify hstep hremains htaken (fun _ => Table.find?_erase_ne _ haddress)
      fun _ _ h => h

end

/-! ## Births -/

/-- A foreign object is new on the heap, and no other one is. -/
structure Instance.Born (o : Instance) (w w' : World (Host η)) : Prop where
  absent : ¬ o.OnHeap w
  onHeap : o.OnHeap w'
  only : ∀ o' : Instance, o'.OnHeap w' → o' = o ∨ o'.OnHeap w

/-- Steps, with the foreign objects that are born on the way and the worlds in which their lives
begin. -/
inductive Traced (w : World (Host η)) : List (Instance × World (Host η)) → World (Host η) → Prop where
  | start : Traced w [] w
  | quiet {births : List (Instance × World (Host η))} {w₁ w₂ : World (Host η)}
      (h : Traced w births w₁) (step : Step w₁ w₂)
      (none : ∀ o : Instance, o.OnHeap w₂ → o.OnHeap w₁) : Traced w births w₂
  | born {births : List (Instance × World (Host η))} {w₁ w₂ : World (Host η)} {o : Instance}
      (h : Traced w births w₁) (step : Step w₁ w₂) (one : o.Born w₁ w₂) :
      Traced w (births ++ [(o, w₂)]) w₂

section

variable {w w' w₁ w₂ w₃ : World (Host η)} {a : Address} {d : Dead} {o : Instance}
  {births births' : List (Instance × World (Host η))}

theorem Traced.steps (h : Traced w births w') : Steps w w' := by
  induction h with
  | start => exact .refl
  | quiet _ hstep _ ih => exact ih.tail hstep
  | born _ hstep _ ih => exact ih.tail hstep

theorem Traced.trans (h : Traced w₁ births w₂) (h' : Traced w₂ births' w₃) :
    Traced w₁ (births ++ births') w₃ := by
  induction h' with
  | start =>
    rw [List.append_nil]
    exact h
  | quiet _ hstep hnone ih => exact ih.quiet hstep hnone
  | born _ hstep hone ih =>
    rw [← List.append_assoc]
    exact ih.born hstep hone

/-- A life begins on the way. -/
theorem Traced.steps_of_mem (h : Traced w births w') {b : Instance × World (Host η)}
    (hb : b ∈ births) : Steps w b.2 ∧ b.1.OnHeap b.2 ∧ Steps b.2 w' := by
  induction h with
  | start => exact absurd hb List.not_mem_nil
  | quiet _ hstep _ ih =>
    obtain ⟨hbefore, honHeap, hafter⟩ := ih hb
    exact ⟨hbefore, honHeap, hafter.tail hstep⟩
  | born h hstep hone ih =>
    rcases List.mem_append.1 hb with hb | hb
    · obtain ⟨hbefore, honHeap, hafter⟩ := ih hb
      exact ⟨hbefore, honHeap, hafter.tail hstep⟩
    · obtain rfl := List.mem_singleton.1 hb
      exact ⟨h.steps.tail hstep, hone.onHeap, .refl⟩

theorem Instance.onHeap_of_machine (hmachine : w'.machine o.machine = w.machine o.machine)
    (h : o.OnHeap w') : o.OnHeap w := by
  rwa [OnHeap, hmachine] at h

theorem Instance.onHeap_of_putMachine {m : State}
    (hm : ∀ id d, m.heap.remains? id = some d → (w.machine a).heap.remains? id = some d)
    (h : o.OnHeap (w.putMachine a m)) : o.OnHeap w := by
  rcases w.machine_putMachine a o.machine m with ⟨hmachine, ha⟩ | hsame
  · rw [OnHeap, hmachine] at h
    rw [OnHeap, ha]
    exact hm _ _ h
  · exact onHeap_of_machine hsame h

/-- The objects behind a delivery: the new one, if its class is bound to a key, and those that were
there. -/
theorem Delivery.born {vm : VmId} {x : Address} {service : ServiceId} {owner : ObjectId} {m : State}
    {f : Service → Service} (hd : Delivery w vm a x service owner m f) (r : Roster w)
    (t : Tracking w) :
    (∀ o : Instance, o.OnHeap (w.delivered a x service owner m f) → o.OnHeap w) ∨
      ∃ o : Instance, o.Born w (w.delivered a x service owner m f) := by
  obtain ⟨new, hnone, hnew, hold⟩ := (t.tidy a).remains?_birth hd.birth hd.isClass
  have hothers : ∀ o : Instance, o.OnHeap (w.delivered a x service owner m f) →
      (o.machine = a ∧ o.id = new) ∨ o.OnHeap w := by
    intro o ho
    by_cases hm : o.machine = a
    · by_cases hid : o.id = new
      · exact Or.inl ⟨hm, hid⟩
      · rw [Instance.OnHeap, hm, hd.machine_self r, hold _ hid] at ho
        rw [Instance.OnHeap, hm]
        exact Or.inr ho
    · exact Or.inr (Instance.onHeap_of_machine (hd.machine_ne hm) ho)
  cases hfinalizer : (w.machine a).heap.finalizer? owner with
  | none =>
    rw [hfinalizer] at hnew
    refine Or.inl fun o ho => (hothers o ho).resolve_left ?_
    rintro ⟨rfl, rfl⟩
    rw [Instance.OnHeap, hd.machine_self r, hnew] at ho
    cases ho
  | some key =>
    rw [hfinalizer] at hnew
    refine Or.inr ⟨⟨a, new, x, service, key⟩, fun habsent => ?_, ?_, fun o ho => ?_⟩
    · exact absurd (hnone.symm.trans habsent) (by simp)
    · rw [Instance.OnHeap, hd.machine_self r]
      exact hnew
    · refine (hothers o ho).imp_left fun hself => ?_
      obtain ⟨machine, id, address, service', key'⟩ := o
      obtain ⟨rfl, rfl⟩ := hself
      rw [Instance.OnHeap, hd.machine_self r, hnew] at ho
      cases ho
      rfl

/-- **At every step at most one foreign object is born.** -/
theorem Step.born (hs : Step w w') (r : Roster w) (t : Tracking w) :
    (∀ o : Instance, o.OnHeap w' → o.OnHeap w) ∨ ∃ o : Instance, o.Born w w' := by
  cases hs with
  | idle | watch | misreport | enter | use | serve | found | listen | retire =>
    exact Or.inl fun _ ho => ho
  | @work a _ _ hf =>
    refine Or.inl fun o => Instance.onHeap_of_putMachine fun id d hid => ?_
    rwa [(hf.heap (t.tidy a).numbered).remains? (t.tidy a).owned] at hid
  | create policy ha =>
    exact Or.inl fun o => Instance.onHeap_of_machine (World.machine_withVm ha _ _ o.machine)
  | @adopt vm a x target =>
    exact Or.inl fun o => Instance.onHeap_of_putMachine (a := a)
      (m := (w.machine a).storeHandle x target) fun _ _ hid => hid
  | @release h a =>
    exact Or.inl fun o => Instance.onHeap_of_putMachine (a := a)
      (m := (w.machine a).releaseHandle h.address) fun _ _ hid => hid
  | bear hd => exact hd.born r t
  | @sweep a =>
    exact Or.inl fun o => Instance.onHeap_of_putMachine fun _ _ hid =>
      (Machine.Heap.loses_collect (w.machine a).heap (w.machine a).roots).remains? (t.tidy a).owned hid
  | @drain a =>
    exact Or.inl fun o => Instance.onHeap_of_putMachine fun _ _ hid =>
      (Machine.Heap.loses_drain (w.machine a).heap).remains? (t.tidy a).owned hid
  | @finalize a d _ ha =>
    refine Or.inl fun o ho => ?_
    by_cases hm : o.machine = a
    · subst hm
      rw [Instance.OnHeap, machine_finalized_self ha] at ho
      exact ho
    · exact Instance.onHeap_of_machine (machine_finalized_ne hm d) ho
  | @bury a =>
    exact Or.inl fun o => Instance.onHeap_of_putMachine (a := a)
      (m := (w.machine a).endFinalizer) fun _ _ hid => hid
  | @discard a report? =>
    refine Or.inl fun o ho => ?_
    by_cases hm : o.machine = a
    · subst hm
      have hempty : (Machine.State.create 0).heap.remains? o.id = some o.dead := by
        rw [← machine_discarded_self (w := w) report?]
        exact ho
      exact absurd (Or.inl ⟨o.id, hempty⟩) (State.not_carries_create 0 o.dead)
    · exact Instance.onHeap_of_machine (machine_discarded_ne hm report?) ho

theorem Step.traced (hs : Step w w') (r : Roster w) (t : Tracking w) :
    ∃ births, Traced w births w' ∧ ∀ b ∈ births, b.2 = w' := by
  rcases hs.born r t with hnone | ⟨o, hone⟩
  · exact ⟨[], .quiet .start hs hnone, fun _ hb => absurd hb List.not_mem_nil⟩
  · refine ⟨[(o, w')], .born .start hs hone, fun b hb => ?_⟩
    rw [List.mem_singleton.1 hb]

end

end ScriptHost.Bridge
