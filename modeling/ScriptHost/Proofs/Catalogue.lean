import ScriptHost.Proofs.Keyed
import ScriptHost.Proofs.Lives
import ScriptHost.Proofs.Tending

/-!
# Keys that classes keep

A class of a program keeps the keys of its host functions as it was given them when it was declared,
and no work of a host declares a class or changes one.  What was bound under a key when a class was
declared is bound under it ever after, since a registry is only added to (`World.Advances`).  So in
every world the classes on the heaps of live machines keep only keys that are bound in the service of
their machine (`Catalogued`), as the keys of a registry are the numbers of its bindings in the order of
their registration.
-/

namespace ScriptHost.Machine

variable {m m' : State}

/-! ## Work that declares no class -/

theorem Heap.class?_set {h : Heap} {id id' : ObjectId} {o : Object} {c : Class}
    (ho : ∀ c, o ≠ .classDef c) (hc : (h.set id o).class? id' = some c) : h.class? id' = some c := by
  rw [Heap.class?_eq_some] at hc ⊢
  by_cases hid : id' = id
  · subst hid
    rw [Heap.get?, Heap.set, Table.find?_insert_self] at hc
    exact absurd (Option.some.inj hc) (ho c)
  · rwa [Heap.get?, Heap.set, Table.find?_insert_ne _ _ hid] at hc

theorem Heap.class?_release {h : Heap} {ids : List ObjectId} {id : ObjectId} {c : Class}
    (hc : (h.release ids).2.class? id = some c) : h.class? id = some c := by
  rw [Heap.class?_eq_some, Heap.get?_release] at hc
  split at hc
  · exact absurd hc (by simp)
  · exact Heap.class?_eq_some.2 hc

namespace State

/-- An object is replaced by one that is no class. -/
theorem oldClasses_set (m : State) (id : ObjectId) {o : Object} (ho : ∀ c, o ≠ .classDef c) :
    OldClasses m { m with heap := m.heap.set id o } :=
  fun _ _ => Heap.class?_set ho

theorem oldClasses_allocInto (m : State) (index : Int) {o : Object} (ho : ∀ c, o ≠ .classDef c) :
    OldClasses m (m.allocInto index o) :=
  (m.oldClasses_alloc ho).setSlot index _

theorem oldClasses_newForeign (m : State) (index classIndex : Int) (address : Nat) :
    OldClasses m (m.newForeign index classIndex address).2 := by
  unfold State.newForeign
  split
  · exact m.oldClasses_allocInto index fun _ => by simp
  · exact .refl m

theorem oldClasses_tagBlock (m : State) (address owner : Nat) :
    OldClasses m (m.tagBlock address owner) := by
  unfold State.tagBlock
  split
  · exact m.oldClasses_set _ fun _ => by simp
  · exact .refl m

end State

open State (OldClasses)

theorem Edit.oldClasses {q : Rights} (he : Edit q m m') : OldClasses m m' := by
  cases he with
  | ensureSlots | requestAbort => exact .of_heap rfl
  | setSlot index | getVariable _ _ index => exact (OldClasses.refl m).setSlot index _
  | newList index | newMap index => exact m.oldClasses_allocInto index fun _ => by simp
  | setSlotHandle index address =>
    unfold State.setSlotHandle
    split
    · exact (OldClasses.refl m).setSlot index _
    · exact (OldClasses.refl m).setSlot index _
  | getElement list index element =>
    unfold State.getElement
    split
    · split
      · exact (OldClasses.refl m).setSlot element _
      · exact .refl m
    · exact .refl m
  | setElement list index element =>
    unfold State.setElement
    split
    · split
      · exact m.oldClasses_set _ fun _ => by simp
      · exact .refl m
    · exact .refl m
  | insertElement list index element =>
    unfold State.insertElement
    split
    · split
      · exact m.oldClasses_set _ fun _ => by simp
      · exact .refl m
    · exact .refl m
  | getEntry map key value =>
    unfold State.getEntry
    split
    · exact (OldClasses.refl m).setSlot value _
    · exact .refl m
  | setEntry map key value =>
    unfold State.setEntry
    split
    · exact m.oldClasses_set _ fun _ => by simp
    · exact .refl m
  | dropEntry map key removed =>
    unfold State.dropEntry
    split
    · exact (m.oldClasses_set _ fun _ => by simp).setSlot removed _
    · exact .refl m

end ScriptHost.Machine

namespace ScriptHost.Bridge

open Machine (State Key Frame Running)
open Machine.State (OldClasses)

variable {η α : Type}

/-- **No work of a host declares a class.** -/
theorem Touch.oldClasses {q : Machine.Rights} {m m' : State} (h : Touch q m m') : OldClasses m m' := by
  cases h with
  | edit h => exact h.oldClasses
  | bear => exact (m.oldClasses_newForeign _ _ _).trans (State.oldClasses_tagBlock _ _ _)
  | sweep => exact fun _ _ => Machine.Heap.class?_release
  | nothing | storeHandle | releaseHandle | beginFinalizer | endFinalizer => exact .of_heap rfl

/-! ## Registries are only added to -/

/-- Machines stay with their services, and bindings are only added. -/
structure World.Advances (w w' : World η) : Prop where
  vms : w.nextVmId ≤ w'.nextVmId
  service : ∀ vm < w.nextVmId, (w'.vm vm).service = (w.vm vm).service
  grows : ∀ service, (w.service service).bindings.Grows (w'.service service).bindings

namespace World.Advances

variable {w w' w'' : World η}

theorem refl (w : World η) : w.Advances w :=
  ⟨Nat.le_refl _, fun _ _ => rfl, fun _ => .refl _⟩

theorem trans (h : w.Advances w') (h' : w'.Advances w'') : w.Advances w'' where
  vms := h.vms.trans h'.vms
  service vm hvm := (h'.service vm (hvm.trans_le h.vms)).trans (h.service vm hvm)
  grows service := (h.grows service).trans (h'.grows service)

/-- Nothing happens to the machines that are known, nor to services. -/
theorem of_eq (hnext : w'.nextVmId = w.nextVmId) (hvms : w'.vms = w.vms)
    (hservices : w'.services = w.services) : w.Advances w' where
  vms := hnext.ge
  service vm _ := by rw [World.vm, World.vm, hvms]
  grows service := by
    rw [World.service, World.service, hservices]
    exact .refl _

/-- What is known of one machine changes, but not its service. -/
theorem of_modify {vm : VmId} {f : VmRecord → VmRecord} (hf : ∀ r, (f r).service = r.service)
    (hnext : w'.nextVmId = w.nextVmId) (hvms : w'.vms = w.vms.modify vm f)
    (hservices : w'.services = w.services) : w.Advances w' := by
  have hmodify : w.Advances (w.modifyVm vm f) :=
    ⟨Nat.le_refl _, fun id _ => World.field_modifyVm w vm VmRecord.service hf id, fun _ => .refl _⟩
  exact hmodify.trans (.of_eq hnext hvms hservices)

theorem modifyService (w : World η) (service : ServiceId) {f : Service → Service}
    (hf : (w.service service).bindings.Grows (f (w.service service)).bindings) :
    w.Advances (w.modifyService service f) := by
  refine ⟨Nat.le_refl _, fun _ _ => rfl, fun service' => ?_⟩
  by_cases hsame : service' = service
  · subst hsame
    by_cases hk : service' ∈ w.services.keys
    · rwa [World.service_modifyService_self hk]
    · rw [World.service, World.service, World.modifyService,
        Table.modify_of_none (Table.find?_eq_none_iff.2 hk)]
      exact .refl _
  · rw [World.service_modifyService_ne w hsame]
    exact .refl _

/-- The bindings of the service of a machine are only added to. -/
theorem serviceOf (h : w.Advances w') {vm : VmId} (hvm : vm < w.nextVmId) :
    (w.serviceOf vm).bindings.Grows (w'.serviceOf vm).bindings := by
  rw [World.serviceOf, World.serviceOf, h.service vm hvm]
  exact h.grows _

end World.Advances

section

variable {w w' : World (Host η)} {vm : VmId} {a : Address}

theorem Roster.known_of_liveAt (h : Roster w) (hl : w.LiveAt vm a) : vm < w.nextVmId :=
  h.known vm (World.mem_vms_of_isAlive hl.1)

theorem Deed.advances [Observer η] {P : VmId → Prop} {S : Powers} (h : Deed P S w w') :
    w.Advances w' := by
  cases h with
  | idle | enter | use | edit => exact .of_eq rfl rfl rfl
  | enrol _ _ hgrows => exact .modifyService w _ hgrows
  | found h =>
    refine ⟨Nat.le_refl _, fun _ _ => rfl, fun service => ?_⟩
    rw [World.service_found h]
    exact .refl _
  | listen _ f =>
    exact .of_modify (f := fun r => { r with listeners := f r.listeners }) (fun _ => rfl) rfl rfl rfl
  | adopt =>
    exact .of_modify (f := fun r => { r with outstanding := r.outstanding ++ _ }) (fun _ => rfl)
      rfl rfl rfl
  | release =>
    exact .of_modify (f := fun r => { r with outstanding := r.outstanding.filter _ }) (fun _ => rfl)
      rfl rfl rfl
  | bear _ _ _ h =>
    have hgains := World.Advances.modifyService w _ (Bindings.Grows.of_eq h.gains.bindings)
    exact hgains.trans (.of_eq rfl rfl rfl)
  | assign => exact .modifyService w _ (.refl _)

theorem Chore.advances [Observer η] {K : Regime η} (h : Chore K w w') : w.Advances w' := by
  cases h with
  | deed h => exact h.advances
  | watch | keep | misreport | discard => exact .of_eq rfl rfl rfl
  | create policy _ _ =>
    refine ⟨Nat.le_succ _, fun vm hvm => ?_, fun _ => .refl _⟩
    rw [World.vm_withVm_ne w _ _ policy (Nat.ne_of_lt hvm)]
  | retire =>
    exact .of_modify (f := fun r => { r with isAlive := false }) (fun _ => rfl) rfl rfl rfl

/-- A finalizer takes a payload, and no binding. -/
theorem World.advances_finalized (w : World (Host η)) (a : Address) (d : Machine.Dead) :
    w.Advances (w.finalized a d) := by
  have hput : w.Advances (w.putMachine a ((w.machine a).beginFinalizer d)) := .of_eq rfl rfl rfl
  unfold World.finalized World.unload
  split
  · split
    · exact hput
    · split
      · exact hput
      · exact hput.trans (.modifyService _ _ (.refl _))
  · exact hput

theorem Sweeping.advances {l : Licence η} (h : Sweeping l w w') : w.Advances w' := by
  cases h with
  | sweep | drain | bury => exact .of_eq rfl rfl rfl
  | finalize => exact w.advances_finalized _ _

end

/-! ## Keys that are bound -/

/-- The keys that a class keeps are bound in a registry. -/
def Bindings.Binds (r : Bindings) (c : Machine.Class) : Prop :=
  c.Known (fun key => (r.method? key).isSome) (fun key => (r.class? key).isSome)

/-- The keys that the classes of a machine keep are bound in a registry. -/
def Bindings.BindsAll (r : Bindings) (m : State) : Prop :=
  ∀ id c, m.heap.class? id = some c → r.Binds c

section

variable {r r' : Bindings} {c : Machine.Class} {m m' : State}

theorem Bindings.Grows.isSome_class? (h : r.Grows r') {key : Key} (hk : (r.class? key).isSome) :
    (r'.class? key).isSome := by
  obtain ⟨b, hb⟩ := Option.isSome_iff_exists.1 hk
  rw [h.class? hb]
  rfl

theorem Bindings.Grows.isSome_method? (h : r.Grows r') {key : Key} (hk : (r.method? key).isSome) :
    (r'.method? key).isSome := by
  obtain ⟨b, hb⟩ := Option.isSome_iff_exists.1 hk
  rw [h.method? hb]
  rfl

theorem Bindings.Binds.grows (h : r.Binds c) (hg : r.Grows r') : r'.Binds c :=
  h.mono (fun _ => hg.isSome_method?) fun _ => hg.isSome_class?

theorem Bindings.BindsAll.grows (h : r.BindsAll m) (hg : r.Grows r') : r'.BindsAll m :=
  fun id c hc => (h id c hc).grows hg

theorem Bindings.BindsAll.of_oldClasses (h : r.BindsAll m) (hold : OldClasses m m') :
    r.BindsAll m' :=
  fun id c hc => h id c (hold id c hc)

/-- A new class keeps keys that are bound. -/
theorem Bindings.BindsAll.declare (h : r.BindsAll m) (hc : r.Binds c) (module name : String) :
    r.BindsAll (m.declare module name c) := by
  intro id c' hc'
  rcases Machine.Heap.class?_alloc hc' with hnew | hold
  · cases hnew
    exact hc
  · exact h id c' hold

/-- The classes of a new machine keep no keys. -/
theorem Bindings.bindsAll_create (r : Bindings) (userData : Nat) : r.BindsAll (.create userData) := by
  have hcore : ∀ name, r.Binds (State.coreClass name) := by
    refine fun name => ⟨fun key hmethod => ?_, fun key h => ?_, fun key h => ?_⟩
    · obtain ⟨isStatic, signature, hkey⟩ := hmethod
      rw [Machine.Class.method?_eq_none rfl rfl] at hkey
      contradiction
    · contradiction
    · contradiction
  intro id c hc
  rcases Machine.Heap.class?_alloc hc with hfiber | hc
  · cases hfiber
    exact hcore _
  · rcases Machine.Heap.class?_alloc hc with hsystem | hc
    · cases hsystem
      exact hcore _
    · cases hc

end

/-- The keys of a registry are the numbers of its bindings, and all keys that the classes of live
machines keep are among those of the services of the machines. -/
structure Catalogued (w : World (Host η)) : Prop where
  listed : ∀ service, ∃ items, (w.service service).bindings.Lists items
  binds : ∀ vm a, w.LiveAt vm a → (w.serviceOf vm).bindings.BindsAll (w.machine a)

section

variable {w w' : World (Host η)}

theorem Catalogued.start (typeNames : TypeNames) (placement : Placement) (own : η) :
    Catalogued (World.start typeNames placement own) where
  listed _ := ⟨[], Bindings.lists_empty⟩
  binds vm a hl := absurd hl.1 (by simp [World.start, World.empty, World.vm, Table.find?_empty,
    VmRecord.unknown])

/-- Work during which registries are only added to, and no class is declared. -/
theorem Catalogued.of_advances (h : Catalogued w) (r : Roster w) (ha : w.Advances w')
    (hold : ∀ vm a, w'.LiveAt vm a →
      (w.LiveAt vm a ∧ OldClasses (w.machine a) (w'.machine a)) ∨ w'.machine a = .create 0) :
    Catalogued w' where
  listed service := by
    obtain ⟨items, hitems⟩ := h.listed service
    obtain ⟨more, hmore⟩ := hitems.grows (ha.grows service)
    exact ⟨_, hmore⟩
  binds vm a hl := by
    rcases hold vm a hl with ⟨hl, hclasses⟩ | hblank
    · exact ((h.binds vm a hl).of_oldClasses hclasses).grows (ha.serviceOf (r.known_of_liveAt hl))
    · rw [hblank]
      exact Bindings.bindsAll_create _ 0

theorem Chore.catalogued [Observer η] {K : Regime η} (hc : Chore K w w') (hs : Sound w)
    (h : Catalogued w) : Catalogued w' :=
  h.of_advances hs.roster hc.advances fun _ _ hl =>
    (hc.touch hs hl).imp (fun ht => ⟨ht.1, ht.2.oldClasses⟩) And.right

theorem Sweeping.catalogued {l : Licence η} (hc : Sweeping l w w') (hs : Sound w)
    (h : Catalogued w) : Catalogued w' :=
  h.of_advances hs.roster hc.advances fun _ _ hl =>
    Or.inl ⟨(hc.touch hs hl).1, (hc.touch hs hl).2.oldClasses⟩

end

/-- The keys that classes keep are bound, whatever the host does. -/
def Regime.cataloguing : Regime η :=
  { Licence.free with
    pre := Catalogued, rel := fun _ w w' => w.Advances w', ends := fun _ _ => True }

theorem lawful_cataloguing [Observer η] : (Regime.cataloguing : Regime η).Lawful where
  refl _ w := .refl w
  trans := World.Advances.trans
  weaken _ _ := trivial
  append _ _ := trivial
  leave h := h
  chore hs hp h := ⟨h.catalogued hs hp, fun _ => h.advances⟩
  sweeping hs hp h := h.catalogued hs hp

theorem sweeps_cataloguing : (Regime.cataloguing : Regime η).Sweeps :=
  fun _ _ _ _ h _ => h.advances

end ScriptHost.Bridge
