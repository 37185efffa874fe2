import ScriptHost.Proofs.Finalizers
import ScriptHost.Proofs.Pairing

/-!
# Payloads are finalized once

A payload is attached to a new foreign object (`exists_instance_of_attaching`).  As long as the object
remains, its service keeps an entry for it, with the payload that was assigned last.  Once a sweep has
taken the object off the heap, its finalizers run with that entry, in the same collection and once
(`Setting.payloads_finalized`).

Nothing else calls them: only collections and ends of machines call finalizers at all
(`run_withFinalizers`), each of them goes through the objects that it has swept, which have different
addresses, and an address belongs to a swept object again only if a new object was born there
(`Steps.births`).
-/

namespace ScriptHost.Machine

variable {ε : Type}

/-! ## Runs call no finalizers -/

/-- Two hosts that differ in their finalizers only are the same for a run. -/
theorem pairedRuns_finalize (cb : Callbacks ε) (finalize : Block → Key → Call ε Unit) :
    PairedRuns (fun _ x y => x = y) (fun _ x y => x = y) { cb with finalize } cb where
  pure _ := rfl
  raise _ _ := rfl
  bind hx hf := by rw [hx, funext hf]
  machine := rfl
  own _ := rfl
  declared _ _ _ := rfl
  reading _ _ _ := rfl
  pinning h := h
  bindPinning hx hf := by rw [hx, funext hf]
  pin _ := rfl
  withPins h := by rw [h]
  write _ := rfl
  resolve _ _ := rfl
  load _ := rfl
  bindClass _ _ := rfl
  bindMethod _ := rfl
  execute _ _ := rfl
  allocate _ _ := rfl
  refuse _ := rfl
  exhausted := rfl
  report _ := rfl
  recover hx hrefused := by rw [hx, funext hrefused]

/-- **A run of a program calls no finalizer.** -/
theorem interpret_finalize (cb : Callbacks ε) (finalize : Block → Key → Call ε Unit) (depth : Nat)
    (module source : String) :
    interpret { cb with finalize } depth module source = interpret cb depth module source := by
  have hrun := paired_runModule (pairedRuns_finalize cb finalize).assembled depth module source
  unfold interpret
  rw [hrun]
  rfl

/-- **A call of a method calls no finalizer.** -/
theorem callHandle_finalize (cb : Callbacks ε) (finalize : Block → Key → Call ε Unit)
    (address : Nat) : callHandle { cb with finalize } address = callHandle cb address := by
  have hinvoke := paired_invoke (pairedRuns_finalize cb finalize).toPaired
  unfold callHandle callMethod
  simp only [hinvoke]
  rfl

end ScriptHost.Machine

namespace ScriptHost.Bridge

open Machine (State Dead Block ObjectId Key)

variable {η β : Type} [Observer η]

/-- An engine with other finalizers. -/
def Engine.withFinalizers (e : Engine (Host η))
    (ofClass : Delegate → Finalized → Effect (Host η) Unit)
    (ofType : Delegate → Payload → Effect (Host η) Unit) : Engine (Host η) :=
  ⟨{ e.delegates with classFinalizer := ofClass, typedFinalizer := ofType }, e.importDepth⟩

/-- The operations that collect garbage or end a machine. -/
def Operation.collects : Operation η β → Bool
  | .collectGarbage _ | .dispose _ | .drop _ => true
  | _ => false

/-- What runs a machine without finalizers runs it with any. -/
theorem onMachine_withFinalizers {α φ : Type} (e : Engine (Host η))
    (ofClass : Delegate → Finalized → Effect (Host η) Unit)
    (ofType : Delegate → Payload → Effect (Host η) Unit) (a : Address)
    {x : Machine.Callbacks (World (Host η)) → Machine.Call (World (Host η)) α}
    (hx : ∀ cb finalize, x { cb with finalize } = x cb) :
    (onMachine (e.withFinalizers ofClass ofType).delegates a x : Run (World (Host η)) φ α) =
      onMachine e.delegates a x := by
  funext w
  have hcallbacks : x (callbacksOf (e.withFinalizers ofClass ofType).delegates w a) =
      x (callbacksOf e.delegates w a) := by
    unfold callbacksOf
    split
    · split
      · exact hx (callbacks e.delegates a)
          fun block key => atHost a (Trampoline.finalize (e.withFinalizers ofClass ofType).delegates block key)
      · rfl
    · exact hx (callbacks e.delegates a)
        fun block key => atHost a (Trampoline.finalize (e.withFinalizers ofClass ofType).delegates block key)
  unfold onMachine
  rw [hcallbacks]

theorem Vm.interpret_withFinalizers (e : Engine (Host η))
    (ofClass : Delegate → Finalized → Effect (Host η) Unit)
    (ofType : Delegate → Payload → Effect (Host η) Unit) (vm : VmId) (module source : String) :
    Vm.interpret (e.withFinalizers ofClass ofType) vm module source =
      Vm.interpret e vm module source := by
  have hrun : ∀ a, (onMachine (e.withFinalizers ofClass ofType).delegates a
      (fun cb => Machine.interpret cb e.importDepth module source) : Act (Host η) _) =
        onMachine e.delegates a fun cb => Machine.interpret cb e.importDepth module source :=
    fun a => onMachine_withFinalizers e ofClass ofType a fun cb finalize =>
      Machine.interpret_finalize cb finalize e.importDepth module source
  unfold Vm.interpret
  simp only [← hrun]
  rfl

theorem Vm.call_withFinalizers (e : Engine (Host η))
    (ofClass : Delegate → Finalized → Effect (Host η) Unit)
    (ofType : Delegate → Payload → Effect (Host η) Unit) (vm : VmId) (method : CallHandle) :
    Vm.call (e.withFinalizers ofClass ofType) vm method = Vm.call e vm method := by
  have hrun : ∀ a handle, (onMachine (e.withFinalizers ofClass ofType).delegates a
      (fun cb => Machine.callHandle cb handle) : Act (Host η) _) =
        onMachine e.delegates a fun cb => Machine.callHandle cb handle :=
    fun a handle => onMachine_withFinalizers e ofClass ofType a fun cb finalize =>
      Machine.callHandle_finalize cb finalize handle
  unfold Vm.call
  simp only [hrun]

/-- **Only collections and ends of machines call finalizers**: any other operation does the same
whatever the finalizers are. -/
theorem run_withFinalizers (op : Operation η β) (h : op.collects = false)
    (engines : List Address → Engine (Host η)) (active : List Address)
    (ofClass : Delegate → Finalized → Effect (Host η) Unit)
    (ofType : Delegate → Payload → Effect (Host η) Unit) :
    op.run (fun l => (engines l).withFinalizers ofClass ofType) active = op.run engines active := by
  cases op with
  | collectGarbage | dispose | drop => exact absurd h (by simp [Operation.collects])
  | interpret vm module source =>
    exact congrArg (Run.gets _ >>= ·) (funext fun a =>
      Vm.interpret_withFinalizers (engines (a :: active)) ofClass ofType vm module source)
  | call vm method =>
    exact congrArg (Run.gets _ >>= ·) (funext fun a =>
      Vm.call_withFinalizers (engines (a :: active)) ofClass ofType vm method)
  | _ => rfl

/-! ## Addresses are used again for new objects only -/

section

omit [Observer η]

/-- A data block is born at an address. -/
def Births (x : Address) (w w' : World (Host η)) : Prop :=
  ∃ vm a service owner m f, Delivery w vm a x service owner m f ∧
    w' = w.delivered a x service owner m f

variable {w w' : World (Host η)} {a b : Address} {d : Dead}

/-- A machine changes, and carries what it did. -/
theorem carries_of_putMachine {m : State} (hm : ∀ d, m.Carries d ↔ (w.machine a).Carries d)
    (h : ((w.putMachine a m).machine b).Carries d) : (w.machine b).Carries d := by
  rcases w.machine_putMachine a b m with ⟨hb, rfl⟩ | hb
  · rw [hb] at h
    exact (hm d).1 h
  · rwa [hb] at h

/-- **A data block that a machine carries was there before, or is born.** -/
theorem Step.births (hs : Step w w') (r : Roster w) (t : Tracking w)
    (h : (w'.machine b).Carries d) : (w.machine b).Carries d ∨ Births d.block.address w w' := by
  cases hs with
  | idle | watch | misreport | enter | use | serve | found | listen | retire => exact Or.inl h
  | @work a _ _ hf => exact Or.inl (carries_of_putMachine ((t.tidy a).carries_frame hf) h)
  | create policy ha =>
    rw [World.machine_withVm ha] at h
    exact Or.inl h
  | @adopt vm a x target =>
    exact Or.inl (carries_of_putMachine (a := a) (m := (w.machine a).storeHandle x target)
      (State.carries_congr rfl rfl) h)
  | @release m a =>
    exact Or.inl (carries_of_putMachine (a := a) (m := (w.machine a).releaseHandle m.address)
      (State.carries_congr rfl rfl) h)
  | @bear vm a x service owner m f hd =>
    rcases (hd.carries r (t.tidy a) b d).1 h with ⟨rfl, rfl⟩ | hold
    · exact Or.inr ⟨vm, b, service, owner, m, f, hd, rfl⟩
    · exact Or.inl hold
  | @sweep a =>
    have hl := Machine.Heap.loses_collect (w.machine a).heap (w.machine a).roots
    exact Or.inl (carries_of_putMachine ((t.tidy a).carries_loses hl rfl) h)
  | @drain a =>
    have hl := Machine.Heap.loses_drain (w.machine a).heap
    exact Or.inl (carries_of_putMachine ((t.tidy a).carries_loses hl rfl) h)
  | finalize ha hswept => exact Or.inl ((t.carries_finalized ha hswept b d).1 h).1
  | @bury a =>
    exact Or.inl (carries_of_putMachine (a := a) (m := (w.machine a).endFinalizer)
      (State.carries_congr rfl rfl) h)
  | @discard a report? =>
    have hcarried : ((w.discarded a report?).machine b).Carries d := h
    by_cases hb : b = a
    · rw [hb, machine_discarded_self] at hcarried
      exact absurd hcarried (State.not_carries_create 0 d)
    · rw [machine_discarded_ne hb] at hcarried
      exact Or.inl hcarried

/-- **Where no data block lies, there is one later only if it has been born there.** -/
theorem Steps.births (hs : Steps w w') (s : Sound w) (t : Tracking w)
    (h : (w'.machine b).Carries d) (hnone : ¬ (w.machine b).Carries d) :
    ∃ u u', Steps w u ∧ Births d.block.address u u' ∧ Steps u' w' := by
  induction hs with
  | refl => exact absurd h hnone
  | @tail w₁ w₂ hfirst hlast ih =>
    rcases hlast.births (Steps.sound hfirst s).roster (Steps.tracking hfirst s t) h with hbefore | hborn
    · obtain ⟨u, u', hu, hborn, hu'⟩ := ih hbefore
      exact ⟨u, u', hu, hborn, hu'.tail hlast⟩
    · exact ⟨w₁, w₂, hfirst, hborn, .refl⟩

/-- Only a machine that is in memory has objects to finalize. -/
theorem mem_natives_of_swept {rest : List Dead} (hswept : (w.machine a).swept = d :: rest) :
    a ∈ w.natives.keys := by
  by_contra hnone
  rw [World.machine_of_not_mem hnone] at hswept
  cases hswept

/-- **An object that has been finalized is gone for good**: a data block that lies at its address once
its finalizers have begun is that of another object, which was born since. -/
theorem births_of_finalized {o : Instance} {rest : List Dead} (s : Sound w) (t : Tracking w)
    (hswept : (w.machine o.machine).swept = o.dead :: rest)
    (hs : Steps (w.finalized o.machine o.dead) w') (h : (w'.machine b).Carries d)
    (haddress : d.block.address = o.address) :
    ∃ u u', Steps (w.finalized o.machine o.dead) u ∧ Births o.address u u' ∧ Steps u' w' := by
  have hn := mem_natives_of_swept hswept
  have hstep : Step w (w.finalized o.machine o.dead) := .finalize hn hswept
  rw [← haddress]
  refine hs.births (hstep.sound s) (hstep.tracking s.roster t) h fun hcarried => ?_
  exact ((t.carries_finalized hn hswept b d).1 hcarried).2 haddress

end

/-! ## Attaching -/

/-- Makes an instance of a foreign class with a payload. -/
def Operation.attaching (s cls : Slot) : Holding → Operation η Address
  | .object shared => .setNewForeignObject s cls shared
  | .value payload => .setNewForeignStruct s cls payload

/-- A foreign object with a payload is made. -/
structure Instance.Attached (o : Instance) (holding : Holding) (w w' : World (Host η)) : Prop where
  absent : ¬ o.OnHeap w
  onHeap : o.OnHeap w'
  entry : o.record? w' = some (holding.entry w.typeNames)

/-- **Attaching a payload makes a foreign object**, with an entry for the payload. -/
theorem exists_instance_of_attaching {w w' : World (Host η)} (hs : Sound w) (t : Tracking w)
    {engines : List Address → Engine (Host η)} {active : List Address} {s cls : Slot}
    {holding : Holding} {x : Address} {key : Key}
    (h : (Operation.attaching s cls holding).run engines active w = (.value x, w'))
    (hkey : w.slotFinalizer? cls = some key) :
    ∃ id, Instance.Attached ⟨w.addressOf s.vm, id, x, (w.vm s.vm).service, key⟩ holding w w' := by
  obtain ⟨a, owner, hl, hcls, hclass, hbirth, hservices⟩ :
      ∃ a owner, w.LiveAt s.vm a ∧ cls.vm = s.vm ∧
        (w.machine a).foreignClass? cls.index = some owner ∧
        Machine.Birth (w.machine a) (w'.machine a) owner ⟨x, some (w.vm s.vm).service⟩ ∧
        w'.services = (w.attached (w.vm s.vm).service x (holding.entry w.typeNames)).services := by
    cases holding with
    | object => exact birth_of_setNewForeign hs h
    | value => exact birth_of_setNewForeign hs h
  obtain rfl : w.addressOf s.vm = a := hl.2
  obtain ⟨id, hnone, hnew, -⟩ :=
    (t.tidy _).remains?_birth hbirth (isSome_class?_of_foreignClass? hclass)
  have hfinalizer : (w.machine (w.addressOf s.vm)).heap.finalizer? owner = some key := by
    rw [World.slotFinalizer?, hcls] at hkey
    simpa [hclass] using hkey
  rw [hfinalizer] at hnew
  refine ⟨id, fun habsent => ?_, hnew, ?_⟩
  · exact absurd (hnone.symm.trans habsent) (by simp)
  · have hservice : w'.service (w.vm s.vm).service =
        (w.attached (w.vm s.vm).service x (holding.entry w.typeNames)).service
          (w.vm s.vm).service := by
      rw [World.service, hservices]
      rfl
    have hk : (w.vm s.vm).service ∈ w.services.keys := hs.roster.served s.vm hl.1
    rw [Instance.record?, hservice, World.attached, World.service_modifyService_self hk]
    exact Table.find?_insert_self ..

/-! ## Collections and ends of machines -/

namespace Setting

variable {s : Setting η} {w w' : World (Host η)} {active : List Address} {depth : Nat} {o : Instance}

/-- **An object that a collection sweeps is finalized in this collection.** -/
theorem ends_of_collectGarbage {vm : VmId} (hsteps : Steps s.start w) (hw : Steady active w)
    (hrun : (Operation.collectGarbage vm).run (s.code.engines s.importDepth depth) active w =
      (.value (), w')) (hm : o.machine = w.addressOf vm) (ho : o.OnHeap w)
    (hswept : ¬ o.OnHeap (w.putMachine o.machine (w.machine o.machine).sweep.2)) :
    o.Ends s.code s.importDepth w w' := by
  have k : (Regime.faring s.code s.importDepth).Lawful := lawful_faring
  have ht : Tracking w := tracking_of_steps hsteps
  have hcollect : Vm.collectGarbage
      (s.code.engines s.importDepth depth (w.addressOf vm :: active)) vm w = (.value (), w') := hrun
  cases halive : (w.vm vm).isAlive with
  | false =>
    cases (Run.bind_of_fault (live_of_dead halive "collect_garbage") _).symm.trans hcollect
  | true =>
    have hl : w.LiveAt vm (w.addressOf vm) := ⟨halive, rfl⟩
    rw [← hm] at hl hcollect
    let w₀ := w.note (.enter o.machine)
    obtain ⟨hmoves, ht₀, -⟩ := k.moves_of_deeds active (deeds_enter trivial hl) hw ht
    obtain ⟨-, hw₀, -⟩ := hmoves hw
    have hn : o.machine ∈ w₀.natives.keys := hw.sound.roster.mem_natives hl
    have hreg : o.machine ∈ w₀.registered.keys := hw.sound.roster.mem_registered hl
    have hrest : w₀.machine o.machine = w.machine o.machine := rfl
    have hstart : world o.machine ⟨w₀.machine o.machine, w₀⟩ = w₀ := world_machine _ _
    have hlive : live vm "collect_garbage" w = (.value o.machine, w) := by
      rw [live_of_alive hl.1, hl.2]
    have hon := (Run.bind_of_value hlive _).symm.trans hcollect
    obtain ⟨-, hgoes⟩ := within_collectGarbage k
      (lays_engines s.code s.importDepth depth (List.mem_cons_self (l := active)))
      List.mem_cons_self (r := ⟨w₀.machine o.machine, w₀⟩)
      (by rw [hstart]; exact hw₀.cons hn) (by rw [hstart]; exact ht₀)
      (by rw [hstart]; exact hreg) (fun _ _ => trivial)
    change onMachine _ _ _ w₀ = _ at hon
    rw [onMachine_eq hw₀.sound.roster, Run.widen] at hon
    rcases hcollected : Machine.collectGarbage
        (callbacks (s.code.engines s.importDepth depth (o.machine :: active)).delegates o.machine)
        ⟨w₀.machine o.machine, w₀⟩ with ⟨_ | e | halt, t⟩
    · rw [hcollected] at hon hgoes
      obtain rfl : world o.machine t = w' := congrArg Prod.snd hon
      obtain ⟨-, -, heach⟩ := hgoes rfl
      rw [hstart] at heach
      have hpasses := Instance.passes_sweep (o := o) ht₀ hn ho.remains
      refine (ends_of_each heach ?_ hpasses.remains).of_lives
        (.passes (.passes (.start ho.remains) (.of_services (.enter hl) ho.remains rfl)) hpasses)
      have hremains := hpasses.remains
      rw [Instance.Remains, World.machine_putMachine_self hn] at hremains
      refine (ht₀.tidy o.machine).mem_dead_of_sweep ho (fun honHeap => hswept ?_) hremains
      rw [Instance.OnHeap, World.machine_putMachine_self (w := w) hn]
      exact honHeap
    · exact e.elim
    · rw [hcollected] at hon
      cases hon

/-- A machine that has been freed had no handle any more. -/
theorem settled_of_shutdown {e : Engine (Host η)} {vm : VmId} {a : Address} {P : VmId → Prop}
    {S : Powers} (hs : Sound w) (hP : P vm) (hl : w.LiveAt vm a)
    (hrun : (Vm.shutdown e vm : Act (Host η) Unit) w = (.value (), w')) :
    ∃ w₁, (Vm.settleLeaks vm : Act (Host η) Unit) w = (.value (), w₁) ∧ Deeds P S w w₁ ∧
      (w₁.vm vm).outstanding = [] := by
  by_cases hout : (w.vm vm).outstanding = []
  · exact ⟨w, settleLeaks_of_nil hout, Deeds.refl w, hout⟩
  cases hpolicy : (w.vm vm).policy with
  | panic =>
    cases (shutdown_of_halt hl (settleLeaks_of_panic hout hpolicy)).symm.trans hrun
  | forceRelease =>
    obtain ⟨w₁, hsettled, hdeeds, hnil, -⟩ := settleLeaks_of_forceRelease hs hP hl hpolicy
    exact ⟨w₁, hsettled, hdeeds, hnil⟩

/-- **The objects of a machine are finalized when it ends.** -/
theorem ends_of_shutdown {vm : VmId} (hsteps : Steps s.start w) (hw : Steady active w)
    (hl : w.LiveAt vm o.machine) (ha : o.machine ∉ active)
    (hrun : (Vm.shutdown (s.code.engines s.importDepth depth (o.machine :: active)) vm :
      Act (Host η) Unit) w = (.value (), w')) (ho : o.Remains w) :
    o.Ends s.code s.importDepth w w' := by
  have k : (Regime.faring s.code s.importDepth).Lawful := lawful_faring
  have ht : Tracking w := tracking_of_steps hsteps
  have hlays := lays_engines s.code s.importDepth depth (List.mem_cons_self (a := o.machine) (l := active))
  obtain ⟨w₁, hsettled, hdeeds, hout⟩ := settled_of_shutdown
    (P := (Regime.faring s.code s.importDepth).allows)
    (S := (Regime.faring s.code s.importDepth).powers) hw.sound trivial hl hrun
  obtain ⟨hends, hemptied, -⟩ :=
    shutdown_ends k hlays ha trivial hw ht hl hsettled hdeeds hout hrun
  obtain ⟨hmoves, ht₁, hsettling⟩ := k.moves_of_deeds active hdeeds hw ht
  obtain ⟨-, hw₁, -⟩ := hmoves hw
  have hl₁ : w₁.LiveAt vm o.machine := ((hdeeds.calm hw.sound).2.live vm _).2 hl
  have hretire : Step w₁ (w₁.retired vm o.machine) := .retire hl₁ hout
  obtain ⟨w₂, heach, -, hlast, -⟩ := hemptied.value rfl
  refine (hsettling.remaining o ho).ends (.head hretire hends) fun ho₁ => ?_
  have hretired : o.Passes w₁ (w₁.retired vm o.machine) := .of_services hretire ho₁ rfl
  have hwr := hw₁.retired hl₁ hout
  have hn : o.machine ∈ (w₁.retired vm o.machine).natives.keys := hwr.native _ List.mem_cons_self
  have hreg : o.machine ∉ (w₁.retired vm o.machine).registered.keys :=
    fun hin => (Table.mem_keys_erase.1 hin).1 rfl
  have hdrained := Instance.passes_drain (hretire.tracking hw₁.sound.roster ht₁) hn hreg
    hretired.remains
  refine .of_lives (.passes (.passes (.start ho₁) hretired) hdrained)
    ((ends_of_each heach ?_ hdrained.remains).trans hlast.steps)
  have hremains := hdrained.remains
  rw [Instance.Remains, World.machine_putMachine_self hn] at hremains
  exact State.mem_dead_of_drain (hw₁.quiet o.machine ha).1 hremains

/-! ## Payloads -/

/-- What is true of the payloads of a host in a world of rest, while the machines at the addresses
`active` run. -/
structure FinalizesPayloads (s : Setting η) (depth : Nat) (active : List Address)
    (w : World (Host η)) : Prop where
  /-- A payload is attached to a new foreign object.  The class of the object is bound to a key if its
  binder answered with the key of a binding. -/
  attaches : ∀ (slot cls : Slot) (holding : Holding) (x : Address) (key : Key) (w' : World (Host η)),
    (Operation.attaching slot cls holding).run (s.code.engines s.importDepth depth) active w =
      (.value x, w') → w.slotFinalizer? cls = some key →
        ∃ id, Instance.Attached ⟨w.addressOf slot.vm, id, x, (w.vm slot.vm).service, key⟩ holding w w'
  /-- As long as an object remains it has an entry, with the payload that was assigned last, and what
  is bound to the key of its class stays bound to it. -/
  current : ∀ (o : Instance) (assigned : List Payload) (w₁ w₂ : World (Host η)), Steps w w₁ →
    o.Lives w₁ assigned w₂ → World.Binds o.service o.key w₁ w₂ ∧
      ∃ e e', o.record? w₁ = some e ∧ o.record? w₂ = some e' ∧ e'.tag = e.tag ∧
        e'.holding.payload = assigned.getLast?.getD e.holding.payload
  /-- Whatever the host does, foreign objects fare as they should. -/
  attends : ∀ {α : Type} (p : Program η α),
    Attends s.code s.importDepth
      ((p.run (s.code.engines s.importDepth depth) active w).1.isFinal = true) w
      (p.run (s.code.engines s.importDepth depth) active w).2
  /-- An object that a collection sweeps is finalized in this collection. -/
  collects : ∀ (vm : VmId) (o : Instance) (w' : World (Host η)),
    (Operation.collectGarbage vm).run (s.code.engines s.importDepth depth) active w =
      (.value (), w') → o.machine = w.addressOf vm → o.OnHeap w →
        ¬ o.OnHeap (w.putMachine o.machine (w.machine o.machine).sweep.2) →
          o.Ends s.code s.importDepth w w'
  /-- The objects of a machine are finalized when it ends. -/
  disposes : ∀ (vm : Vm) (op : Operation η Unit) (o : Instance) (w' : World (Host η)),
    op = .dispose vm ∨ op = .drop vm → vm.isRoot = true → w.LiveAt vm.id o.machine →
      o.machine ∉ active → op.run (s.code.engines s.importDepth depth) active w = (.value (), w') →
        o.Remains w → o.Ends s.code s.importDepth w w'
  /-- Other operations call no finalizers. -/
  others : ∀ {β : Type} (op : Operation η β), op.collects = false → ∀ ofClass ofType,
    op.run (fun l => (s.code.engines s.importDepth depth l).withFinalizers ofClass ofType) active w =
      op.run (s.code.engines s.importDepth depth) active w
  /-- What lies at the address of an object once its finalizers have begun was born since. -/
  once : ∀ (o : Instance) (rest : List Dead) (w₁ w₂ : World (Host η)) (b : Address) (d : Dead),
    Steps w w₁ → (w₁.machine o.machine).swept = o.dead :: rest →
      Steps (w₁.finalized o.machine o.dead) w₂ → (w₂.machine b).Carries d →
        d.block.address = o.address → ∃ u u', Steps (w₁.finalized o.machine o.dead) u ∧
          Births o.address u u' ∧ Steps u' w₂

/-- **Every payload is finalized once**, in the collection that sweeps its object or at the end of its
machine, whatever runs in between. -/
theorem payloads_finalized (s : Setting η) (depth : Nat) (hsteps : Steps s.start w)
    (hw : Steady active w) : s.FinalizesPayloads depth active w := by
  have ht : Tracking w := tracking_of_steps hsteps
  refine ⟨fun slot cls holding x key w' hrun hkey => ?_, fun o assigned w₁ w₂ hw₁ hlives => ?_,
    fun p => ?_,
    fun vm o w' hrun hm ho hgone => ?_, fun vm op o w' hop hroot hl ha hrun ho => ?_,
    fun op hop ofClass ofType => ?_, fun o rest w₁ w₂ b d hw₁ hswept hw₂ hc haddress => ?_⟩
  · exact exists_instance_of_attaching hw.sound ht hrun hkey
  · obtain ⟨e, he⟩ := hlives.remains_start.exists_entry (tracking_of_steps (hsteps.trans hw₁))
    refine ⟨hlives.binds, e, e.after assigned, he, ?_, e.tag_after assigned,
      e.payload_after assigned⟩
    rw [hlives.record?_eq, he]
    rfl
  · let K := Regime.faring s.code s.importDepth
    have hwithin : Run.Within (K.Moves active) (K.Reaches active)
        (p.run (s.code.engines s.importDepth depth) active) w :=
      within_program sustained_faring (serves_faring s.code s.importDepth depth) p p.obeys_free w
    cases hend : (p.run (s.code.engines s.importDepth depth) active w).1.isFinal with
    | true =>
      rw [eq_self_iff_true]
      exact (hwithin.1 hw ht).2
    | false => exact (hwithin.2 hend hw ht).2.2.weaken
  · exact ends_of_collectGarbage hsteps hw hrun hm ho hgone
  · have hshutdown : (Vm.shutdown (s.code.engines s.importDepth depth (o.machine :: active)) vm.id :
        Act (Host η) Unit) w = (.value (), w') := by
      obtain ⟨id, isRoot⟩ := vm
      obtain rfl : isRoot = true := hroot
      rw [← hl.2]
      rcases hop with rfl | rfl
      · exact hrun
      · exact hrun
    exact ends_of_shutdown hsteps hw hl ha hshutdown ho
  · rw [run_withFinalizers op hop]
  · exact births_of_finalized (hw₁.sound hw.sound) (tracking_of_steps (hsteps.trans hw₁)) hswept hw₂ hc
      haddress

end Setting

/-! ## A payload and its finalizers -/

/-- A host that makes an object at a class with a finalizer, and drops it. -/
def Program.forget : Program Unit Vm :=
  .ask .newService fun service =>
  .ask (.registerClass service ⟨1, some 2⟩) fun _ =>
  .ask (.registerFinalizer service .word 3) fun _ =>
  .ask (.create service ⟨none, none, none, none⟩) fun vm =>
  .ask (.listen vm.id fun l => { l with bindClass? := some 4 }) fun _ =>
  .ask (.interpret vm.id "main" "foreign class F \x7b\x7d") fun _ =>
  .ask (.access (.ensureSlots vm.id 2)) fun _ =>
  .ask (.access (.getVariable vm.id "main" "F" ⟨vm.id, 0⟩)) fun _ =>
  .ask (.setNewForeignStruct ⟨vm.id, 1⟩ ⟨vm.id, 0⟩ ⟨.word, (7 : UInt32)⟩) fun _ =>
  .ask (.access (.setNull ⟨vm.id, 1⟩)) fun _ => .done vm

namespace Setting

/-- A host that binds all classes to its first binding. -/
def binding : Setting Unit :=
  { silent with code := { silent.code with bindClass := fun _ _ _ _ => .done (some 1) } }

/-- The world of the object that was dropped. -/
def forgotten : World (Host Unit) := (binding.run .forget).2

theorem forgotten_eq :
    ((binding.run .forget).1.isFinal, forgotten.addressOf 1, forgotten.natives.keys,
      (forgotten.machine 2).heap.remains? 4, (forgotten.machine 2).sweep.2.heap.remains? 4,
      (Vm.collectGarbage (binding.code.engines 1 1 [2]) 1 forgotten).1) =
        (false, 2, [2], some ⟨⟨3, some 1⟩, some 1⟩, none, .value ()) := by
  cbv

/-- The object is finalized when garbage is collected. -/
theorem payloads_finalized_forgotten :
    ∃ w', (Operation.collectGarbage 1).run (binding.code.engines 1 1) [] forgotten = (.value (), w') ∧
      Instance.Ends ⟨2, 4, 3, 1, 1⟩ binding.code 1 forgotten w' := by
  have hend : (binding.run .forget).1.isFinal = false := congrArg (·.1) forgotten_eq
  have haddress : forgotten.addressOf 1 = 2 := congrArg (·.2.1) forgotten_eq
  have hkeys : forgotten.natives.keys = [2] := congrArg (·.2.2.1) forgotten_eq
  have hremains : (forgotten.machine 2).heap.remains? 4 = some ⟨⟨3, some 1⟩, some 1⟩ :=
    congrArg (·.2.2.2.1) forgotten_eq
  have hgone : (forgotten.machine 2).sweep.2.heap.remains? 4 = none :=
    congrArg (·.2.2.2.2.1) forgotten_eq
  have hrun : (Operation.collectGarbage 1).run (binding.code.engines 1 1) [] forgotten =
      (.value (), (Vm.collectGarbage (binding.code.engines 1 1 [2]) 1 forgotten).2) := by
    change Vm.collectGarbage (binding.code.engines 1 1 [forgotten.addressOf 1]) 1 forgotten = _
    rw [haddress]
    exact Prod.ext (congrArg (·.2.2.2.2.2) forgotten_eq) rfl
  refine ⟨_, hrun, (binding.payloads_finalized 1 (binding.steps_run .forget)
    (binding.steady_run .forget hend)).collects 1 _ _ hrun haddress.symm hremains fun hkept => ?_⟩
  have hnative : 2 ∈ forgotten.natives.keys := by
    rw [hkeys]
    exact List.mem_singleton_self 2
  have hswept : ((forgotten.putMachine 2 (forgotten.machine 2).sweep.2).machine 2).heap.remains? 4 =
      some ⟨⟨3, some 1⟩, some 1⟩ := hkept
  rw [World.machine_putMachine_self hnative, hgone] at hswept
  cases hswept

end Setting

end ScriptHost.Bridge
