import ScriptHost.Proofs.Blind

/-!
# Operations that run no program, on both sides

Every operation that runs no program is blind.  An accessor is its checks, its entry point, and what it
makes of the result, and each of the three is blind; so are the services and the creation of machines.
A new foreign object has the same number and the same address in both worlds, and its payload is
tracked in both or in neither, since what was lost is tracked at other addresses.
-/

namespace ScriptHost.Bridge

open Machine (State Frame ObjectId Block Value)
open Run (Joint Level joint_pure joint_fault joint_halt joint_bind joint_get joint_gets joint_modify
  joint_modifyGet joint_ofExcept joint_attempt)

variable {η σ φ α β γ : Type} [Observer η] {C : Comparison η σ} {active : List Address} {a : Address}

/-! ## Entry points -/

theorem blind_slotBytes (index : Nat) :
    C.Blind active (Native.slotBytes a index : Run (World (Host η)) φ (List UInt8)) := by
  refine blind_bind (blind_readNative fun h => ?_) fun bytes? => blind_gets fun r => ?_
  · rw [State.slotBytes?, State.slotBytes?, h.slot]
  · rw [r.hasFault, r.hasFault]

/-- An entry point does the same to machines that match, and tells the same of them. -/
theorem blindly_call {e : EntryPoint γ} (he : e.Plain) :
    C.Blindly active (e.Shows C) (e.call a : Act (Host η) γ) := by
  cases e with
  | slotBool i =>
    change C.Blind active (readNative a fun m => m.slotBool i)
    refine blind_readNative fun h => ?_
    rw [State.slotBool, State.slotBool, h.slot]
  | slotDouble i =>
    change C.Blind active (readNative a fun m => m.slotDouble i)
    refine blind_readNative fun h => ?_
    rw [State.slotDouble, State.slotDouble, h.slot]
  | slotBytes i => exact blind_slotBytes i
  | setSlot i v =>
    exact blind_changeNative (fun m => m.frame_setSlot i v)
      fun h => h.setSlot i fun id hid => absurd (he.symm.trans hid) (by simp)
  | slotHandle i => exact blind_slotHandle i
  | newList i =>
    exact blind_changeNative (fun m => m.frame_newList i)
      fun h => h.allocInto i rfl fun _ hid => absurd hid List.not_mem_nil
  | listCount i => exact blind_nativeListCount i
  | getElement i index element =>
    exact blind_changeNative (fun m => m.frame_getElement i index element)
      fun h => h.getElement i index element
  | setElement i index element =>
    exact blind_changeNative (fun m => m.frame_setElement i index element)
      fun h => h.setElement i index element
  | insertElement i index element =>
    exact blind_changeNative (fun m => m.frame_insertElement i index element)
      fun h => h.insertElement i index element
  | newMap i =>
    exact blind_changeNative (fun m => m.frame_newMap i)
      fun h => h.allocInto i rfl fun _ hid => absurd hid List.not_mem_nil
  | mapCount i => exact blind_nativeMapCount i
  | containsKey i key =>
    change C.Blind active (readNative a fun m => m.containsKey i key)
    refine blind_readNative fun h => ?_
    rw [State.containsKey, State.containsKey, h.slotMap?, h.slot]
  | getEntry i key value =>
    exact blind_changeNative (fun m => m.frame_getEntry i key value) fun h => h.getEntry i key value
  | setEntry i key value =>
    exact blind_changeNative (fun m => m.frame_setEntry i key value) fun h => h.setEntry i key value
  | dropEntry i key removed =>
    exact blind_changeNative (fun m => m.frame_dropEntry i key removed)
      fun h => h.dropEntry i key removed
  | slotForeign i => exact blindly_slotForeign i

/-! ## Accessors -/

/-- An accessor is blind if its checks are, and what it makes of the result. -/
theorem blind_accessor {acc : Accessor (Host η) β} (hchecks : C.Blind active acc.checks)
    (hentry : acc.entry.Plain)
    (hfinish : ∀ result, acc.entry.Shows C result → C.Blind active (acc.finish result)) :
    C.Blind active acc.run := by
  refine blind_bind hchecks fun found => ?_
  cases found with
  | ok a => exact (blindly_call hentry).bind hfinish
  | error answer => exact blind_pure answer

theorem blind_decoded (bytes : List UInt8) :
    C.Blind active (Slot.decoded bytes : Act (Host η) String) := by
  unfold Slot.decoded
  split
  · exact blind_pure _
  · exact blind_fault _

/-- The payload of a block that was not lost is the same in both worlds. -/
theorem Comparison.Relates.find?_entries {w w' : World (Host η)} (r : C.Relates active w w')
    (vm : VmId) {x : Address} (hx : ¬ C.hidden x) :
    (w'.serviceOf vm).payloads.entries.find? x = (w.serviceOf vm).payloads.entries.find? x := by
  rw [World.serviceOf, World.serviceOf, r.vm]
  exact (r.services _).entries x hx

theorem blind_objectAt (s : Slot) (t : PayloadType) {block : Address} (hb : ¬ C.hidden block) :
    C.Blind active (s.objectAt t block : Act (Host η) t.Carrier) := by
  refine blind_bind (blind_gets fun r => r.typeNames) fun names w w' r => Run.joint_gets_of ?_
  have hobject : (w'.serviceOf s.vm).payloads.object names block t =
      (w.serviceOf s.vm).payloads.object names block t := by
    unfold Payloads.object Payloads.entry
    rw [r.find?_entries s.vm hb]
  rw [hobject]
  exact blind_bind (blind_ofExcept _) (fun _ => blind_pure _) r

theorem blind_valueAt (s : Slot) (t : PayloadType) {block : Address} (hb : ¬ C.hidden block) :
    C.Blind active (s.valueAt t block : Act (Host η) t.Carrier) := by
  refine blind_bind (blind_gets fun r => r.typeNames) fun names w w' r => Run.joint_gets_of ?_
  have hvalue : (w'.serviceOf s.vm).payloads.value names block t =
      (w.serviceOf s.vm).payloads.value names block t := by
    unfold Payloads.value Payloads.entry
    rw [r.find?_entries s.vm hb]
  rw [hvalue]
  exact blind_ofExcept _ r

theorem blind_isAt (s : Slot) (t : PayloadType) {block : Address} (hb : ¬ C.hidden block) :
    C.Blind active (do return (← s.payloads).is block t : Act (Host η) Bool) := by
  refine fun w w' r => Run.joint_gets_of ?_
  have his : (w'.serviceOf s.vm).payloads.is block t = (w.serviceOf s.vm).payloads.is block t := by
    unfold Payloads.is Payloads.tag?
    rw [r.find?_entries s.vm hb]
  rw [his]
  exact joint_pure r trivial

/-- The slot, list, map and foreign accessors are blind. -/
theorem blind_of_accessor? {x : Access β} {acc : Accessor (Host η) β} (h : x.accessor? = some acc) :
    C.Blind active acc.run := by
  cases x with
  | setBool | setDouble | setInt | setFloat | setNull | setBytes | setString | setNewList
  | setNewMap =>
    cases h
    exact blind_accessor (blind_passing (blind_checked _ _)) (by constructor) fun _ _ => blind_pure _
  | getBool | getDouble | getBytes | listCount | mapCount | getInt | getFloat =>
    cases h
    exact blind_accessor (blind_passing (blind_holding _ _ _)) trivial fun _ _ => blind_pure _
  | getString =>
    cases h
    exact blind_accessor (blind_passing (blind_holding _ _ _)) trivial fun _ _ => blind_decoded _
  | getOptionalString s =>
    cases h
    refine blind_accessor (blind_holdingText s) trivial fun bytes _ => ?_
    change C.Blind active (some <$> Slot.decoded bytes)
    rw [map_eq_pure_bind]
    exact blind_bind (blind_decoded _) fun text => blind_pure _
  | getListElement | setListElement | insertInList =>
    cases h
    exact blind_accessor (blind_passing (blind_listPosition _ _ _ _ _)) trivial
      fun _ _ => blind_pure _
  | mapContainsKey | getMapValue | setMapValue | removeMapValue =>
    cases h
    exact blind_accessor (blind_passing (blind_mapOperands _ _ _ _)) trivial fun _ _ => blind_pure _
  | getForeignPtr =>
    cases h
    exact blind_accessor (blind_passing (blind_holding _ _ _)) trivial fun _ _ => blind_pure _
  | getForeignObject s t =>
    cases h
    exact blind_accessor (blind_passing (blind_holding _ _ _)) trivial
      fun _ hb => blind_objectAt s t hb
  | getForeignStruct s t =>
    cases h
    exact blind_accessor (blind_passing (blind_holding _ _ _)) trivial
      fun _ hb => blind_valueAt s t hb
  | isForeign s t =>
    cases h
    exact blind_accessor (blind_holdingForeign s) trivial fun _ hb => blind_isAt s t hb
  | ensureSlots | slotCount | hasModule | hasVariable | getVariable | abortFiber
  | abortFiberWithMessage | slotType | isNull => cases h

/-- **Every operation on slots and variables is blind.** -/
theorem blind_access (x : Access β) : C.Blind active (x.run : Act (Host η) β) := by
  cases hacc : (x.accessor? : Option (Accessor (Host η) β)) with
  | some acc =>
    rw [Access.run_eq hacc]
    exact blind_of_accessor? hacc
  | none =>
    have hslotType : ∀ s : Slot, C.Blind active (s.slotType : Act (Host η) SlotType) := fun s =>
      blind_bind (blind_checked _ _) fun a => blind_nativeSlotType s.index
    cases x with
    | ensureSlots vm count => exact blind_ensureSlots vm count
    | slotCount vm => exact blind_bind (blind_live _ _) fun a => blind_nativeSlotCount
    | hasModule vm module => exact blind_hasModule vm module
    | hasVariable vm module name => exact blind_hasVariable vm module name
    | getVariable vm module name s => exact blind_getVariable vm module name s
    | abortFiber vm s => exact blind_abortFiber vm s
    | abortFiberWithMessage vm message =>
      refine blind_bind (blind_ensureSlots vm 1) fun _ => ?_
      have htext : C.Blind active ((Slot.mk vm 0).setString message : Act (Host η) Unit) := by
        have hrun := Access.run_eq (η := Host η)
          (x := .setString ⟨vm, 0⟩ message) rfl
        change (Slot.mk vm 0).setString message = _ at hrun
        rw [hrun]
        exact blind_of_accessor? (x := .setString ⟨vm, 0⟩ message) rfl
      exact blind_bind htext fun _ => blind_abortFiber vm _
    | slotType s => exact hslotType s
    | isNull s => exact blind_bind (hslotType s) fun t => blind_pure _
    | _ => exact absurd hacc (by simp [Access.accessor?])

/-! ## Services -/

/-- A payload is attached to both, or to none, at an address that was not lost. -/
theorem Comparison.Services.insert {s s' : Service} (h : C.Services s s') (x : Address) (e : Entry) :
    C.Services { s with payloads := { s.payloads with entries := s.payloads.entries.insert x e } }
      { s' with payloads := { s'.payloads with entries := s'.payloads.entries.insert x e } } := by
  refine ⟨h.bindings, h.finalizers, fun y hy => ?_⟩
  by_cases hyx : y = x
  · subst hyx
    rw [Table.find?_insert_self, Table.find?_insert_self]
  · rw [Table.find?_insert_ne _ _ hyx, Table.find?_insert_ne _ _ hyx, h.entries y hy]

/-- Whether and how the value of a payload changes depends on its entry alone. -/
theorem setValue_congr {p p' : Payloads} {x : Address} (h : p'.entries.find? x = p.entries.find? x)
    (names : TypeNames) (v : Payload) :
    (∃ e, p.setValue names x v = .error e ∧ p'.setValue names x v = .error e) ∨
      ∃ e, p.setValue names x v = .ok { p with entries := p.entries.insert x e } ∧
        p'.setValue names x v = .ok { p' with entries := p'.entries.insert x e } := by
  unfold Payloads.setValue Payloads.entry
  rw [h]
  cases p.entries.find? x with
  | none => exact Or.inl ⟨_, rfl, rfl⟩
  | some e =>
    dsimp only [bind, Except.bind]
    cases e.expectTag names x v.type with
    | error failure => exact Or.inl ⟨failure, rfl, rfl⟩
    | ok =>
      dsimp only
      cases e.expectKind x .value with
      | error failure => exact Or.inl ⟨failure, rfl, rfl⟩
      | ok => exact Or.inr ⟨_, rfl, rfl⟩

theorem Comparison.Relates.serviceOf {w w' : World (Host η)} (r : C.Relates active w w') (vm : VmId) :
    C.Services (w.serviceOf vm) (w'.serviceOf vm) := by
  rw [World.serviceOf, World.serviceOf, r.vm]
  exact r.services _

/-- The value of a payload changes where it was not lost. -/
theorem blind_assignAt (s : Slot) (p : Payload) {block : Address} (hb : ¬ C.hidden block) :
    C.Blind active (s.assignAt p block : Act (Host η) Unit) := by
  refine fun w w' r => joint_get ?_
  have hservices := r.serviceOf s.vm
  rw [r.typeNames]
  rcases setValue_congr (hservices.entries block hb) w.typeNames p with
    ⟨e, hset, hset'⟩ | ⟨e, hset, hset'⟩
  · rw [hset, hset']
    exact joint_fault r e
  · rw [hset, hset']
    have hinsert := hservices.insert block e
    unfold World.serviceOf at hinsert ⊢
    rw [r.vm] at hinsert ⊢
    refine joint_modify ?_
    rw [r.vm]
    exact r.modifyService hinsert

/-- A payload is attached to a data block that was not lost, in both worlds or in neither. -/
theorem blind_attach (s : Slot) (holding : Holding) {block : Address} (hb : ¬ C.hidden block) :
    C.Blind active (s.attach block holding : Act (Host η) Address) := by
  refine fun w w' r => joint_get ?_
  have hservices := r.services (w.vm s.vm).service
  have hfind := hservices.entries block hb
  have hmem : block ∈ (w'.service (w.vm s.vm).service).payloads.entries.keys ↔
      block ∈ (w.service (w.vm s.vm).service).payloads.entries.keys := by
    rw [← Table.contains_iff, ← Table.contains_iff, Table.contains, Table.contains, hfind]
  dsimp only
  rw [r.typeNames, r.vm]
  unfold Payloads.add
  by_cases hin : block ∈ (w.service (w.vm s.vm).service).payloads.entries.keys
  · rw [Table.tryAdd_of_mem _ hin, Table.tryAdd_of_mem _ (hmem.2 hin)]
    exact joint_fault r _
  · rw [Table.tryAdd_of_not_mem _ hin, Table.tryAdd_of_not_mem _ fun h => hin (hmem.1 h)]
    refine joint_bind (joint_modify (r.modifyService (hservices.insert block _)))
      fun _ t t' rt _ => ?_
    exact blind_bind (blind_log _ _) (fun _ => blind_pure _) rt

/-- A service is made at the next address. -/
theorem blind_newService : C.Blind active (newService : Run (World (Host η)) φ ServiceId) := by
  intro w w' r
  unfold Joint
  change Level _ _ (.value (w.placement.place w.serial w.taken), { w with
      serial := w.serial + 1
      services := w.services.insert (w.placement.place w.serial w.taken) .empty })
    (.value (w'.placement.place w'.serial w'.taken), { w' with
      serial := w'.serial + 1
      services := w'.services.insert (w'.placement.place w'.serial w'.taken) .empty })
  rw [r.place_eq.1, r.place_eq.2, r.serial_eq]
  refine .same ?_ fun _ _ => trivial
  have hfresh : C.sequence w.serial ∉ w.services.keys := fun hin =>
    r.not_mem_taken.1 (World.mem_taken_of_service hin)
  have hservice : ∀ u : World (Host η), C.sequence w.serial ∉ u.services.keys → ∀ id,
      ({ u with
          serial := w.serial + 1
          services := u.services.insert (C.sequence w.serial) .empty } : World (Host η)).service id =
        u.service id := by
    intro u hu id
    by_cases hid : id = C.sequence w.serial
    · subst hid
      rw [World.service, World.service, Table.find?_insert_self, Table.find?_eq_none_iff.2 hu]
      rfl
    · rw [World.service, World.service, Table.find?_insert_ne _ _ hid]
  exact {
    same := by
      obtain ⟨_, _, _, _, rfl⟩ := r.same
      exact ⟨_, _, _, _, rfl⟩
    placement := r.placement
    roster := ((Step.found hfresh).roster r.roster).congr rfl rfl rfl rfl rfl rfl
    managed' := r.managed'
    natives := r.natives
    running := r.running
    machines := fun a ha => (r.machines a ha).mono (Nat.le_succ _)
    serviceKeys := fun id => by rw [Table.mem_keys_insert, Table.mem_keys_insert, r.serviceKeys]
    services := fun id => by
      rw [hservice w hfresh, hservice w' fun h => hfresh ((r.serviceKeys _).1 h)]
      exact r.services id
    used := fun x hx => by
      rw [Table.mem_keys_insert] at hx
      rcases hx with hx | rfl | hx
      · exact (r.used x (Or.inl hx)).mono (Nat.le_succ _)
      · exact Comparison.used_succ _
      · exact (r.used x (Or.inr hx)).mono (Nat.le_succ _)
    hidden := fun x hx => (r.hidden x hx).mono (Nat.le_succ _)
    kept := fun a id h => (r.kept a id h).mono (Nat.le_succ _)
    view := r.view
    handles := r.handles }

/-- The bindings of a service change alike. -/
theorem blind_enrol {service : ServiceId} {g : Bindings → β × Bindings} :
    C.Blind active (Run.modifyGet fun w =>
      ((g (w.service service).bindings).1, w.modifyService service fun s =>
        { s with bindings := (g (w.service service).bindings).2 }) :
      Run (World (Host η)) φ β) := by
  refine blind_modifyGet fun r => ?_
  have h := r.services service
  refine ⟨by rw [h.bindings], r.modifyService ?_⟩
  rw [h.bindings]
  exact ⟨rfl, h.finalizers, h.entries⟩

theorem blind_registerClass (service : ServiceId) (binding : ClassBinding) :
    C.Blind active (registerClass service binding : Run (World (Host η)) φ Machine.Key) := by
  refine blind_bind (blind_enrol (g := Compartment.classes.register binding)) fun result => ?_
  dsimp only
  split
  · exact blind_bind (blind_log _ _) fun _ => blind_pure _
  · exact blind_pure _

theorem blind_registerMethod (service : ServiceId) (binding : MethodBinding) :
    C.Blind active (registerMethod service binding : Run (World (Host η)) φ Machine.Key) := by
  refine blind_bind (blind_enrol (g := Compartment.methods.register binding)) fun result => ?_
  dsimp only
  split
  · exact blind_bind (blind_log _ _) fun _ => blind_pure _
  · exact blind_pure _

theorem blind_registerFinalizer (service : ServiceId) (t : PayloadType) (finalizer : Delegate) :
    C.Blind active (registerFinalizer service t finalizer : Run (World (Host η)) φ Unit) := by
  refine blind_modify fun r => r.modifyService ?_
  have h := r.services service
  refine ⟨h.bindings, ?_, h.entries⟩
  exact congrArg (fun table => table.insert t finalizer) h.finalizers

theorem blind_lookupVm (service : ServiceId) (a : Address) :
    C.Blind active (lookupVm service a : Run (World (Host η)) φ (Option Vm)) := by
  refine blind_gets fun r => ?_
  rw [r.registered]
  split
  · rw [r.vm]
  · rfl

theorem blind_modifyListeners (vm : VmId) (f : Listeners → Listeners) :
    C.Blind active (Vm.modifyListeners vm f : Run (World (Host η)) φ Unit) :=
  blind_modify fun r => r.modifyVm vm (fun _ => rfl) (fun _ => rfl) fun _ => rfl

/-! ## Machines -/

/-- Where nothing lay, all objects are kept. -/
theorem Comparison.Relates.kept_of_not_used {w w' : World (Host η)} (r : C.Relates active w w')
    (id : ObjectId) : C.kept (C.sequence w.serial) id :=
  Classical.byContradiction fun h => r.not_used (r.kept _ id h)

/-- Two blank machines match. -/
theorem Comparison.machines_create {serial : Nat} {x : Address} (h : ∀ id, C.kept x id) :
    C.Machines serial x (.create 0) (.create 0) := by
  have hlies : C.Lies serial x (.create 0) := by
    refine ⟨fun y hy => absurd hy List.not_mem_nil, fun id owner b hb => ?_⟩
    rw [State.foreign?_create] at hb
    exact absurd hb (by simp)
  have hbounded : (State.create 0).Bounded (C.kept x) :=
    ⟨fun v _ id _ => h id, fun id _ r _ => h r⟩
  have hnumbered := State.numbered_create 0
  exact ⟨⟨hbounded, rfl, ⟨rfl, fun _ _ => rfl, fun id hid => absurd (h id) hid, hnumbered, hnumbered,
    fun id _ => h id⟩, rfl, rfl, rfl⟩, hlies, hlies⟩

/-- A machine is made at the next address. -/
theorem Comparison.Relates.withVm {w w' : World (Host η)} (r : C.Relates active w w')
    {service : ServiceId} (hservice : service ∈ w.services.keys) (policy : LeakPolicy)
    (lastVm? : Option Address) : C.Relates active
      { w.withVm (C.sequence w.serial) service policy with serial := w.serial + 1, lastVm? }
      { w'.withVm (C.sequence w.serial) service policy with serial := w.serial + 1, lastVm? } := by
  let x := C.sequence w.serial
  have hfresh : x ∉ w.natives.keys := fun h => r.not_mem_taken.1 (World.mem_taken_of_native h)
  have hfresh' : x ∉ w'.natives.keys := fun h => r.not_mem_taken.2 (World.mem_taken_of_native h)
  have hservice' : service ∈ w'.services.keys := (r.serviceKeys _).2 hservice
  exact {
    same := by
      obtain ⟨_, _, _, _, rfl⟩ := r.same
      exact ⟨_, _, _, _, rfl⟩
    placement := r.placement
    roster := (r.roster.withVm policy hfresh hservice).congr rfl rfl rfl rfl rfl rfl
    managed' := (r.roster'.withVm policy hfresh' hservice').managed
    natives := fun a => by
      change a ∈ (w'.natives.insert x _).keys ↔ a ∈ (w.natives.insert x _).keys
      rw [Table.mem_keys_insert, Table.mem_keys_insert, r.natives]
    running := fun a ha => Table.mem_keys_insert.2 (Or.inr (r.running a ha))
    machines := fun a ha => by
      have hmachine : (w.withVm x service policy).machine a = w.machine a :=
        World.machine_withVm hfresh service policy a
      have hmachine' : (w'.withVm x service policy).machine a = w'.machine a :=
        World.machine_withVm hfresh' service policy a
      change C.Machines (w.serial + 1) a ((w.withVm x service policy).machine a)
        ((w'.withVm x service policy).machine a)
      rw [hmachine, hmachine']
      rcases Table.mem_keys_insert.1 ha with rfl | ha
      · rw [World.machine_of_not_mem hfresh, World.machine_of_not_mem hfresh']
        exact Comparison.machines_create r.kept_of_not_used
      · exact (r.machines a ha).mono (Nat.le_succ _)
    serviceKeys := r.serviceKeys
    services := r.services
    used := fun y hy => by
      rcases hy with hy | hy
      · rcases Table.mem_keys_insert.1 hy with rfl | hy
        · exact Comparison.used_succ _
        · exact (r.used y (Or.inl hy)).mono (Nat.le_succ _)
      · exact (r.used y (Or.inr hy)).mono (Nat.le_succ _)
    hidden := fun y hy => (r.hidden y hy).mono (Nat.le_succ _)
    kept := fun a id h => (r.kept a id h).mono (Nat.le_succ _)
    view := r.view
    handles := r.handles }

/-- A machine that is refused, or given out although it is in the table already, ends the creation in
both worlds. -/
theorem joint_create_of_clash {w w' t t' : World (Host η)} {made? : Option Address}
    (service : ServiceId) (config : VmConfig)
    (ht : (Native.newVm : Act (Host η) (Option Address)) w = (.value made?, t))
    (ht' : (Native.newVm : Act (Host η) (Option Address)) w' = (.value made?, t'))
    (r : C.Relates active t t') (hclash : ∀ a, made? = some a → a ∈ t.registered.keys) :
    Joint (C.Relates active) (fun _ => True) (Vm.create service config)
      (Vm.create service config : Act (Host η) Vm) w w' := by
  unfold Joint Vm.create
  rw [Run.bind_of_value ht, Run.bind_of_value ht']
  cases made? with
  | none => exact joint_fault r _
  | some a =>
    have hin : a ∈ t.registered.keys := hclash a rfl
    have hin' : a ∈ t'.registered.keys := r.registered ▸ hin
    refine joint_bind (V := (· = none)) (joint_modifyGet ?_ ?_ ?_) fun id? u u' ru hid => ?_
    · dsimp only
      rw [Table.tryAdd_of_mem _ hin, Table.tryAdd_of_mem _ hin']
      rfl
    · dsimp only
      rw [Table.tryAdd_of_mem _ hin, Table.tryAdd_of_mem _ hin']
      exact r
    · dsimp only
      rw [Table.tryAdd_of_mem _ hin]
      rfl
    · rw [hid]
      exact blind_fatal _ ru

/-- A machine is created in both worlds, at the same address, or in neither. -/
theorem joint_create {w w' : World (Host η)} (r : C.Relates active w w') {service : ServiceId}
    (config : VmConfig) (hservice : service ∈ w.services.keys)
    (hlast : (!w.hasFault .sameVm || w.lastVm?.all w.registered.contains) = true) :
    Joint (C.Relates active) (fun _ => True) (Vm.create service config)
      (Vm.create service config : Act (Host η) Vm) w w' := by
  have hnew := newVm_eq (φ := HostError) w
  have hnew' := newVm_eq (φ := HostError) w'
  rw [r.hasFault, r.hasFault, r.lastVm?] at hnew'
  cases hnull : w.hasFault .nullVm with
  | true =>
    rw [hnull, if_pos rfl] at hnew hnew'
    exact joint_create_of_clash service config hnew hnew' r fun a ha => absurd ha (by simp)
  | false =>
    cases hagain : w.hasFault .sameVm with
    | true =>
      rw [hnull, hagain, if_neg Bool.false_ne_true, if_pos rfl] at hnew hnew'
      refine joint_create_of_clash service config hnew hnew' r fun a ha => ?_
      rw [hagain, ha] at hlast
      exact Table.contains_iff.1 hlast
    | false =>
      have hfresh : ∀ u : World (Host η), Roster u → u.placement.place u.serial u.taken ∉
          u.registered.keys := fun u hu hin =>
        u.placement.place_fresh _ _ (World.mem_taken_of_native (hu.native _ hin))
      have hcreate := create_eq service config rfl hagain hnull (hfresh w r.roster)
      have hcreate' := create_eq (w := w') service config rfl (by rw [r.hasFault, hagain])
        (by rw [r.hasFault, hnull]) (hfresh w' r.roster')
      unfold Joint
      rw [hcreate, hcreate', r.place_eq.1, r.place_eq.2, r.nextVmId, r.serial_eq]
      refine .same ?_ fun _ _ => trivial
      exact (r.withVm hservice config.policy (some (C.sequence w.serial))).withHost
        (C.sight.log _ _ r.view) r.handles

/-! ## Foreign objects -/

/-- A new foreign object is kept, and its data block lies at the next address. -/
theorem Comparison.Lies.bear {serial : Nat} {m : State} (l : C.Lies serial a m)
    (hkept : C.kept a (m.heap.lastId + 1)) {index classIndex : Int} {owner : ObjectId}
    (hc : m.foreignClass? classIndex = some owner)
    (hfresh : C.sequence serial ∉ m.heap.blockAddresses)
    (hhidden : ¬ C.hidden (C.sequence serial)) (service : ServiceId) :
    C.Lies (serial + 1) a ((m.newForeign index classIndex (C.sequence serial)).2.tagBlock
      (C.sequence serial) service) := by
  obtain ⟨hhandles, -, -, -, hheap⟩ := State.newForeign_tagged hc hfresh index service
  refine ⟨fun x hx => ?_, fun id owner' b hb => ?_⟩
  · rw [hhandles] at hx
    exact (l.handle x hx).mono (Nat.le_succ _)
  · rw [hheap, Machine.Heap.foreign?] at hb
    by_cases hid : id = m.heap.lastId + 1
    · subst hid
      rw [Machine.Heap.alloc, Machine.Heap.get?, Table.find?_insert_self] at hb
      cases hb
      exact ⟨Comparison.used_succ serial, iff_of_false hhidden fun h => h hkept⟩
    · rw [Machine.Heap.get?_alloc_of_ne _ _ hid] at hb
      exact (l.block id owner' b hb).imp_left (.mono (Nat.le_succ _))

/-- **The same object is made on both machines.** -/
theorem Comparison.Machines.newForeign {serial : Nat} {m m' : State} (h : C.Machines serial a m m')
    {classIndex : Int} {owner : ObjectId} (hc : m.foreignClass? classIndex = some owner)
    (hfresh : C.sequence serial ∉ m.heap.blockAddresses)
    (hfresh' : C.sequence serial ∉ m'.heap.blockAddresses)
    (hhidden : ¬ C.hidden (C.sequence serial)) (index : Int) (service : ServiceId) :
    C.Machines (serial + 1) a
      ((m.newForeign index classIndex (C.sequence serial)).2.tagBlock (C.sequence serial) service)
      ((m'.newForeign index classIndex (C.sequence serial)).2.tagBlock (C.sequence serial)
        service) := by
  have hc' : m'.foreignClass? classIndex = some owner := (h.alike.foreignClass? _).trans hc
  have hkept : C.kept a (m.heap.lastId + 1) := h.alike.heap.fresh _ (Nat.lt_succ_self _)
  have hkept' : C.kept a (m'.heap.lastId + 1) := h.alike.heap.lastId.symm ▸ hkept
  exact ⟨h.alike.bear hc hfresh hfresh' _ _, h.lies.bear hkept hc hfresh hhidden _,
    h.lies'.bear hkept' hc' hfresh' hhidden _⟩

/-- Both machines are entered, and make no data block. -/
theorem Comparison.Relates.withoutBlock {w w' : World (Host η)} (r : C.Relates active w w')
    (c : NativeCall) : C.Relates active { w with calls := c :: w.calls, lastBlock? := none }
      { w' with calls := c :: w'.calls, lastBlock? := none } := by
  refine r.congr ?_ rfl (Nat.le_refl _) (r.roster.congr rfl rfl rfl rfl rfl rfl) rfl rfl rfl rfl
    r.view r.handles
  obtain ⟨_, _, _, _, rfl⟩ := r.same
  exact ⟨_, _, _, _, rfl⟩

/-- Both machines make a data block at the same address. -/
theorem Comparison.Relates.withBlock {w w' : World (Host η)} (r : C.Relates active w w') (x : Address)
    {m m' : State} (h : C.Machines (w.serial + 1) a m m') :
    C.Relates active (w.withBlock a x m) (w'.withBlock a x m') := by
  have hidle := r.idle (Nat.le_succ _) (.enter a :: w.calls) (.enter a :: w'.calls) w.lastVm?
    w.lastHandle? (some x) w.freeReport?
  have hput := hidle.putMachine fun _ => h
  unfold World.withBlock
  obtain ⟨_, _, _, _, rfl⟩ := r.same
  exact hput

omit [Observer η] in
/-- A data block that a machine has made is tagged with the service of the machine. -/
theorem tagNew_of_placed {w : World (Host η)} {x : Address} {m : State} (s : Slot)
    (index classIndex : Nat) (hn : a ∈ w.natives.keys) (hx : x ∉ w.taken)
    (h : (Native.newForeign a index classIndex : Act (Host η) (Option Address)) w =
      (.value (some x), w.withBlock a x m)) :
    (Native.newForeign a index classIndex >>= s.tagNew : Act (Host η) Address) w =
      (.value x, w.withBlock a x (m.tagBlock x (w.vm s.vm).service)) := by
  have htag := writeTag_withBlock (φ := HostError) (w.vm s.vm).service m hn
    fun b hb => World.not_mem_blockAddresses hb hx
  exact (Run.bind_of_value h _).trans
    (Run.bind_of_value htag fun _ => (pure x : Act (Host η) Address))

/-- **A new foreign object is the same in both worlds**, and its data block is none that was lost. -/
theorem blindly_tagNew (s : Slot) (index classIndex : Nat) :
    C.Blindly active (fun x => ¬ C.hidden x)
      (Native.newForeign a index classIndex >>= s.tagNew : Act (Host η) Address) := by
  intro w w' r
  have hhidden : ¬ C.hidden (C.sequence w.serial) := fun h => r.not_used (r.hidden _ h)
  have hnew := newForeign_eq (φ := HostError) (hasFault_of_roster r.roster rfl) a index classIndex
  have hnew' := newForeign_eq (φ := HostError) (hasFault_of_roster r.roster' rfl) a index classIndex
  rw [r.hasFault, r.read a fun h => h.foreignClass? (classIndex : Int)] at hnew'
  unfold Joint
  cases hnull : w.hasFault .nullForeign with
  | true =>
    rw [hnull, if_pos rfl] at hnew hnew'
    rw [Run.bind_of_value hnew, Run.bind_of_value hnew']
    exact joint_fault r _
  | false =>
    rw [hnull, if_neg Bool.false_ne_true] at hnew hnew'
    cases hcls : (w.machine a).foreignClass? (classIndex : Int) with
    | none =>
      rw [hcls] at hnew hnew'
      rw [Run.bind_of_value hnew, Run.bind_of_value hnew']
      exact joint_fault (r.withoutBlock _) _
    | some owner =>
      rw [hcls] at hnew hnew'
      dsimp only at hnew hnew'
      rw [r.place_eq.1] at hnew
      rw [r.place_eq.2] at hnew'
      have ha : a ∈ w.natives.keys := by
        refine Decidable.byContradiction fun ha => ?_
        rw [World.machine_of_not_mem ha] at hcls
        exact absurd hcls (by simp [State.foreignClass?, State.slot_create, Value.object?])
      have ha' : a ∈ w'.natives.keys := (r.natives a).2 ha
      rw [tagNew_of_placed s index classIndex ha r.not_mem_taken.1 hnew,
        tagNew_of_placed s index classIndex ha' r.not_mem_taken.2 hnew', r.vm]
      have hmachines := (r.machines a ha).newForeign hcls
        (World.not_mem_blockAddresses ha r.not_mem_taken.1)
        (World.not_mem_blockAddresses ha' r.not_mem_taken.2) hhidden index (w.vm s.vm).service
      exact .same (r.withBlock _ hmachines) fun x hx => Outcome.value.inj hx ▸ hhidden

theorem blind_deliver (s cls : Slot) (holding : Holding) :
    C.Blind active (s.deliver cls a holding : Act (Host η) Address) := by
  have hrun : (s.deliver cls a holding : Act (Host η) Address) =
      (Native.newForeign a s.index cls.index >>= s.tagNew) >>= fun block =>
        s.attach block holding := by
    unfold Slot.deliver
    rw [bind_assoc]
  rw [hrun]
  exact (blindly_tagNew s s.index cls.index).bind fun block hb => blind_attach s holding hb

/-- **A foreign object with a payload is made in both worlds or in neither.** -/
theorem blind_setNewForeign (s cls : Slot) (operation : String) (holding : Holding) :
    C.Blind active (Operation.recordingBlock s cls (do
      s.attach (← s.newForeign cls operation) holding) : Act (Host η) Address) := by
  intro w w' r
  rw [recordingBlock_eq]
  refine joint_get ?_
  refine joint_bind (blind_ensureSameVm _ _ _ r) fun _ u u' ru _ => ?_
  refine joint_bind (blind_checked _ _ ru) fun a t t' rt _ => ?_
  refine joint_bind (blind_checked _ _ rt) fun _ v v' rv _ => ?_
  refine joint_bind (blind_attempt (blind_deliver s cls holding) rv) fun result x x' rx _ => ?_
  -- which blocks are strays is not compared
  have hrecord : ∀ (service service' : ServiceId) (finalizer? finalizer?' : Option Machine.Key),
      C.Relates active (x.recordBlock service finalizer? result)
        (x'.recordBlock service' finalizer?' result) := by
    intro service service' finalizer? finalizer?'
    unfold World.recordBlock
    split
    · exact rx.withHost rx.view rx.handles
    · exact rx.withHost rx.view rx.handles
    · exact rx
  exact joint_bind (joint_modify (hrecord _ _ _ _)) fun _ y y' ry _ => joint_ofExcept ry result

end ScriptHost.Bridge
