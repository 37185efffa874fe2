import ScriptHost.Proofs.Retention

/-!
# Runs give back the slots of their callers

A run of a program, and a call of a method, may enter and leave frames and pin and forget values at
any depth, with functions of the host in between that do the same on the same machine.  In the end the
saved frames and the pins are what they were (`State.Kept`), whatever the host does.  The slots are
what they were too (`State.Returned`), since functions write the slots of their own frames: these are
forgotten when the frame is left, and the slots of the caller come back from the saved frames.

Listeners are called on the slots of the caller.  So the slots are given back as they were only if
listeners leave them (`Considerate`); a call of a method that succeeds then writes the first one.
-/

namespace ScriptHost.Machine

variable {ε α : Type}

namespace State

/-- The slots, and what belongs to the running evaluation, are what they were. -/
structure Returned (m m' : State) : Prop extends Kept m m' where
  slots : m'.slots = m.slots

/-- The slots are what they were, and values may have been pinned. -/
structure ReturnedAbove (m m' : State) : Prop extends Above m m' where
  slots : m'.slots = m.slots

theorem Returned.refl (m : State) : Returned m m := ⟨.refl m, rfl⟩

theorem Returned.trans {m₁ m₂ m₃ : State} (h : Returned m₁ m₂) (h' : Returned m₂ m₃) :
    Returned m₁ m₃ :=
  ⟨h.toKept.trans h'.toKept, h'.slots.trans h.slots⟩

theorem Above.pin (m : State) (values : List Value) :
    Above m { m with pins := values ++ m.pins } :=
  ⟨⟨values, rfl⟩, rfl⟩

theorem Above.kept_unpinTo {m m' : State} (h : Above m m') : Kept m (m'.unpinTo m.pins.length) := by
  rw [h.unpinTo]
  exact ⟨rfl, h.savedFrames⟩

/-- Behind a function that leaves the saved frames alone, the slots of its caller come back. -/
theorem Kept.leaveFrame {m m' : State} {frame : List Value} (h : Kept (m.enterFrame frame) m') :
    Returned m m'.leaveFrame := by
  have hsaved : m'.savedFrames = m.slots :: m.savedFrames := h.savedFrames
  refine ⟨⟨h.pins, ?_⟩, ?_⟩
  · change m'.savedFrames.tail = m.savedFrames
    rw [hsaved]
    rfl
  · change m'.savedFrames.headD [] = m.slots
    rw [hsaved]
    rfl

end State

open State (Kept Above Returned ReturnedAbove)

/-- Saved frames and pins are kept at any depth. -/
theorem balanced_kept : Balanced Kept Kept Above where
  refl := .refl
  trans _ _ _ := .trans
  own h := ⟨h.pins, h.savedFrames⟩
  call h := h.leaveFrame.toKept
  pinning h := h.above
  transPinning _ _ _ := .trans
  pin := .pin
  unpin h := h.kept_unpinTo

/-- So are the slots, where functions may write those of their frames. -/
theorem balanced_returned : Balanced Returned Kept ReturnedAbove where
  refl := .refl
  trans _ _ _ := .trans
  own h := ⟨⟨h.pins, h.savedFrames⟩, h.slots⟩
  call h := h.leaveFrame
  pinning h := ⟨h.toKept.above, h.slots⟩
  transPinning _ _ _ h h' := ⟨h.toAbove.trans h'.toAbove, h'.slots.trans h.slots⟩
  pin m values := ⟨.pin m values, rfl⟩
  unpin h := ⟨h.toAbove.kept_unpinTo, h.slots⟩

/-- A call of the host that leaves the slots as they are. -/
def LeavesSlots (Ok : Running ε → Prop) (x : Call ε α) : Prop :=
  ∀ r v t, Ok r → x r = (.value v, t) → t.machine.slots = r.machine.slots

/-- A host whose listeners leave the slots as they are. -/
structure Reserved (Ok : Running ε → Prop) (cb : Callbacks ε) : Prop where
  write : ∀ text, LeavesSlots Ok (cb.write text)
  report : ∀ diagnostic, LeavesSlots Ok (cb.report diagnostic)
  resolve : ∀ f, cb.resolve? = some f → ∀ importer name, LeavesSlots Ok (f importer name)
  load : ∀ name, LeavesSlots Ok (cb.load name)
  bindClass : ∀ module className, LeavesSlots Ok (cb.bindClass module className)
  bindMethod : ∀ name, LeavesSlots Ok (cb.bindMethod name)

section

variable {Ok : Running ε → Prop} {L S : Running ε → Running ε → Prop} {U : State → State → Prop}
  {cb : Callbacks ε}

theorem LeavesSlots.leads {x : Call ε α} (h : LeavesSlots Ok x) (hx : Leads Ok L S Kept x)
    (hc : Run.Contained x) : Leads Ok L S Returned x := by
  intro r
  obtain ⟨hends, hgoes⟩ := hx r
  refine ⟨hends, fun hend hok => ?_⟩
  obtain ⟨hl, hok', hk⟩ := hgoes hend hok
  refine ⟨hl, hok', hk, ?_⟩
  rcases hxr : x r with ⟨v | e | w, t⟩
  · exact h r v t hok hxr
  · exact e.elim
  · rw [hxr] at hend
    exact absurd (hc r w t hxr) (by simp [hend])

/-- **A machine gives back the slots of its callers** if its listeners leave them. -/
theorem Steered.returned (p : Steered Ok L S Kept Kept U cb) (h : Reserved Ok cb) :
    Steered Ok L S Returned Kept ReturnedAbove cb where
  span := p.span
  balanced := balanced_returned
  work := p.work
  write text := (h.write text).leads (p.write text) (p.contained.write text)
  report diagnostic := (h.report diagnostic).leads (p.report diagnostic)
    (p.contained.report diagnostic)
  resolve f hf importer name := (h.resolve f hf importer name).leads (p.resolve f hf importer name)
    (p.contained.resolve f hf importer name)
  load name := (h.load name).leads (p.load name) (p.contained.load name)
  bindClass module className := (h.bindClass module className).leads
    (p.bindClass module className) (p.contained.bindClass module className)
  bindMethod name := (h.bindMethod name).leads (p.bindMethod name) (p.contained.bindMethod name)
  execute := p.execute
  allocate := p.allocate
  contained := p.contained

end

end ScriptHost.Machine

namespace ScriptHost.Bridge

open Machine (State Running Callbacks Reserved LeavesSlots Steered)
open Machine.State (Kept Above Returned)

variable {η φ α β : Type}

/-! ## Listeners -/

/-- Work behind which the slots of the machine at `a` are what they were. -/
def SparesSlots (a : Address) (x : Run (World η) φ α) (w : World η) : Prop :=
  ∀ v w', x w = (.value v, w') → (w'.machine a).slots = (w.machine a).slots

/-- Listeners of the machine `vm` at `a` that leave its slots as they are. -/
structure Considerate (vm : VmId) (a : Address) (active : List Address) (d : Delegates (Host η)) :
    Prop where
  write : ∀ f text w, Steady active w → w.LiveAt vm a → SparesSlots a (d.write f vm text) w
  error : ∀ f diagnostic w, Steady active w → w.LiveAt vm a →
    SparesSlots a (d.error f vm diagnostic) w
  resolve : ∀ f importer name w, Steady active w → w.LiveAt vm a →
    SparesSlots a (d.resolve f vm importer name) w
  load : ∀ f name w, Steady active w → w.LiveAt vm a → SparesSlots a (d.load f vm name) w
  bindClass : ∀ f module name w, Steady active w → w.LiveAt vm a →
    SparesSlots a (d.bindClass f vm module name) w
  bindMethod : ∀ f name w, Steady active w → w.LiveAt vm a →
    SparesSlots a (d.bindMethod f vm name) w

section

variable {vm : VmId} {a : Address} {active : List Address} {d : Delegates (Host η)} {w : World η}

theorem spares_pure (v : α) : SparesSlots a (pure v : Run (World η) φ α) w := by
  intro v' w' h
  cases h
  rfl

theorem spares_bind {x : Run (World η) φ α} {f : α → Run (World η) φ β} (hx : SparesSlots a x w)
    (hf : ∀ v w', SparesSlots a (f v) w') : SparesSlots a (x >>= f) w := by
  intro v w' h
  obtain ⟨u, t, hu, ht⟩ := Run.value_of_bind h
  exact (hf u t v w' ht).trans (hx u t hu)

theorem spares_gets_bind {g : World η → α} {f : α → Run (World η) φ β}
    (hf : SparesSlots a (f (g w)) w) : SparesSlots a (Run.gets g >>= f) w :=
  hf

/-- Work of the host in the middle of a run. -/
theorem leavesSlots_atHost {Ok : Running (World (Host η)) → Prop} {x : Effect (Host η) α}
    (hOk : ∀ r, Ok r → Working vm a active r)
    (hx : ∀ r, Ok r → (world a r).registered.find? a = some vm → SparesSlots a x (world a r)) :
    LeavesSlots Ok (atHost a x) := by
  intro r v t hok h
  have hr := hOk r hok
  have hreg : (world a r).registered.find? a = some vm :=
    (hr.steady.sound.roster.registered a vm).2 hr.live
  have hspares := hx r hok hreg
  unfold atHost at h
  rw [show r.host.putMachine a r.machine = world a r from rfl] at h
  rcases hsealed : x.sealed (world a r) with ⟨outcome, w'⟩
  rw [hsealed] at h
  cases h
  rw [← hr.machine]
  exact hspares v w' (Run.value_of_sealed hsealed)

variable [Observer η]

theorem spares_log (level : LogLevel) (text : String) :
    SparesSlots a (log level text : Run (World η) φ Unit) w := by
  intro v w' h
  cases h
  rfl

theorem spares_lookup {callback : String} {f : Option VmId → Effect η α}
    (hreg : w.registered.find? a = some vm) (hf : SparesSlots a (f (some vm)) w) :
    SparesSlots a (Trampoline.lookup a callback >>= f) w := by
  intro v w' h
  rw [Trampoline.lookup_bind hreg] at h
  exact hf v w' h

/-- **A machine whose listeners leave its slots is one that reserves them.** -/
theorem reserved_callbacks (h : Considerate vm a active d) :
    Reserved (Working vm a active) (callbacks d a) where
  write text := by
    refine leavesSlots_atHost (fun _ => id) fun r hr hreg => spares_lookup hreg (spares_gets_bind ?_)
    split
    · exact spares_pure _
    · exact h.write _ _ _ hr.steady hr.live
  report diagnostic := by
    refine leavesSlots_atHost (fun _ => id) fun r hr hreg => spares_lookup hreg (spares_gets_bind ?_)
    split
    · exact h.error _ _ _ hr.steady hr.live
    · exact spares_log _ _
  resolve f hf importer name := by
    cases hf
    refine leavesSlots_atHost (fun _ => id) fun r hr hreg => spares_lookup hreg (spares_gets_bind ?_)
    split
    · exact spares_pure _
    · exact h.resolve _ _ _ _ hr.steady hr.live
  load name := by
    refine leavesSlots_atHost (fun _ => id) fun r hr hreg => spares_lookup hreg (spares_gets_bind ?_)
    split
    · refine spares_bind (h.load _ _ _ hr.steady hr.live) fun source? w' => ?_
      split
      · exact spares_pure _
      · split
        · exact spares_pure _
        · exact spares_bind (spares_log _ _) fun _ w' => spares_pure _
    · exact spares_pure _
  bindClass module className := by
    refine leavesSlots_atHost (fun _ => id) fun r hr hreg => spares_lookup hreg (spares_gets_bind ?_)
    split
    · exact spares_pure _
    · refine spares_bind (h.bindClass _ _ _ _ hr.steady hr.live) fun key? w' => ?_
      split
      · exact spares_pure _
      · refine spares_gets_bind ?_
        split
        · exact spares_pure _
        · exact spares_bind (spares_log _ _) fun _ w' => spares_pure _
  bindMethod name := by
    refine leavesSlots_atHost (fun _ => id) fun r hr hreg => spares_lookup hreg (spares_gets_bind ?_)
    split
    · exact spares_pure _
    · refine spares_bind (h.bindMethod _ _ _ hr.steady hr.live) fun key? w' => ?_
      split
      · exact spares_pure _
      · refine spares_gets_bind ?_
        split
        · exact spares_pure _
        · exact spares_bind (spares_log _ _) fun _ w' => spares_pure _

end

/-! ## Runs -/

theorem tends_kept : Tends (fun _ => True) Kept where
  refl := .refl
  trans _ _ _ := .trans
  touch h := ⟨id, h.kept⟩
  create := trivial

section

variable [Observer η] {vm : VmId} {a : Address} {active : List Address} {d : Delegates (Host η)}

/-- **Saved frames and pins are kept by all work of a host.** -/
theorem upheld_kept (vm : VmId) (a : Address) : (Regime.relating vm a Kept : Regime η).Upheld :=
  upheld_relating tends_kept Machine.balanced_kept fun m v => (State.writes_setSlot m 0 v).rewrites.kept

theorem steered_kept (h : (Regime.relating vm a Kept).Behaved active d) (ha : a ∈ active) :
    Steered (Working vm a active) (Passes active a) (Leaves vm a active fun _ => True) Kept Kept Above
      (callbacks d a) :=
  steered_relating tends_kept Machine.balanced_kept ha h

end

namespace Setting

variable [Observer η] (s : Setting η) {vm : VmId} {a : Address} {active : List Address}

/-- **Runs and calls give back what they found**, however they end.  A run of a program leaves the
saved frames, the pins and the slots as they were, and so does a call of a method that does not
succeed.  One that succeeds leaves the saved frames and the pins, and the slots but for the first one,
which is the value of the method.  Nothing is asked of methods and allocators; the listeners of the
machine leave its slots. -/
theorem slots_returned (depth : Nat) {r : Running (World (Host η))} (ha : a ∈ active)
    (hw : Steady active (world a r)) (hl : (world a r).LiveAt vm a)
    (hd : Considerate vm a active (s.code.engines s.importDepth depth active).delegates) :
    let cb := callbacks (s.code.engines s.importDepth depth active).delegates a
    (∀ nesting module source result t,
      Machine.interpret cb nesting module source r = (.value result, t) →
        Returned r.machine t.machine) ∧
    ∀ handle result t, Machine.callHandle cb handle r = (.value result, t) →
      (result ≠ .success → Returned r.machine t.machine) ∧
      (result = .success → Kept r.machine t.machine ∧ ∃ signature arity v u,
        r.machine.handles.find? handle = some (.method signature arity) ∧
        Machine.invoke cb signature (r.machine.slots.take (arity + 1)) r.called = (.value v, u) ∧
        t.machine.slots = r.machine.slots.set 0 v) := by
  have hserves := serves_engines (upheld_kept vm a) s.code.obeys_free s.importDepth depth
  have hok : Working vm a active r := ⟨hw, hl⟩
  intro cb
  have p : Steered (Working vm a active) (Passes active a) (Leaves vm a active fun _ => True) Returned Kept
      State.ReturnedAbove cb :=
    (steered_kept (hserves.behaved active) ha).returned (reserved_callbacks hd)
  refine ⟨fun nesting module source result t ht => ?_, fun handle result t ht => ?_⟩
  · obtain ⟨-, -, hreturned⟩ :=
      (Machine.lasting_interpret p hok nesting module source).value result t ht
    exact hreturned
  · have hcalled := Machine.called_callHandle p hok handle
    rw [ht] at hcalled
    refine ⟨fun hne => (hcalled.failure result rfl hne).2.2, ?_⟩
    rintro rfl
    obtain ⟨signature, arity, v, u, hfind, hinvoke, ⟨-, -, hreturned⟩, rfl⟩ := hcalled.success rfl
    refine ⟨hreturned.toKept.trans (State.writes_setSlot u.machine 0 v).rewrites.kept,
      signature, arity, v, u, hfind, hinvoke, ?_⟩
    change u.machine.slots.set 0 v = _
    rw [hreturned.slots]

/-- A host whose method makes room, writes into it, and writes a result. -/
def scribbling : Setting Unit :=
  { silent with
    code := { silent.code with
      method := fun _ vm =>
        .ask (.access (.ensureSlots vm 3)) fun _ =>
        .ask (.access (.setBool ⟨vm, 2⟩ false)) fun _ =>
        .ask (.access (.setBool ⟨vm, 0⟩ true)) fun _ => .done (.ok ()) } }

/-- A host that makes a machine and a handle of a method, and has a method. -/
def lending : Program Unit Vm :=
  .ask .newService fun service =>
  .ask (.registerMethod service ⟨1, none⟩) fun _ =>
  .ask (.create service ⟨none, none, none, none⟩) fun vm =>
  .ask (.makeCallHandle vm.id "f()") fun _ => .done vm

/-- The world of the machine. -/
def lent : World (Host Unit) := (scribbling.run lending).2

theorem lent_eq :
    ((scribbling.run lending).1.isFinal, (lent.vm 1).isAlive, (lent.vm 1).address,
      (lent.machine 2).handles.find? 3) = (false, true, 2, some (.method "f()" 0)) := by
  cbv

/-- A class with the method `f()`. -/
def lentClass : Machine.Class :=
  ⟨"A", "main", false, [], .empty, Table.empty.insert "f()" 1, none, none⟩

/-- The machine with the class in the first of two slots. -/
def lentMachine : State :=
  let allocated := (lent.machine 2).alloc (.classDef lentClass)
  (allocated.2.ensureSlots 2).setSlot 0 (.object allocated.1)

theorem frame_lentMachine : Machine.Frame (lent.machine 2) lentMachine :=
  ((State.frame_alloc (lent.machine 2) rfl).trans (State.frame_ensureSlots _ 2)).trans
    (State.frame_setSlot _ 0 _)

theorem considerate_scribbling :
    Considerate 1 2 [2] (scribbling.code.engines 1 1 [2]).delegates where
  write _ _ _ _ _ := spares_pure _
  error _ _ _ _ _ := spares_pure _
  resolve _ _ _ _ _ _ := spares_pure _
  load _ _ _ _ _ := spares_pure _
  bindClass _ _ _ _ _ _ := spares_pure _
  bindMethod _ _ _ _ _ := spares_pure _

theorem callHandle_lent :
    (Machine.callHandle (callbacks (scribbling.code.engines 1 1 [2]).delegates 2) 3
      ⟨lentMachine, lent⟩).1 = .value .success := by
  cbv

/-- The method writes three slots of its frame, and of those of its caller only the first changes. -/
theorem slots_returned_call :
    let d := (scribbling.code.engines 1 1 [2]).delegates
    let r : Running (World (Host Unit)) := ⟨lentMachine, lent⟩
    Steady [2] (world 2 r) ∧ (world 2 r).LiveAt 1 2 ∧ Considerate 1 2 [2] d ∧
      ∃ v t, Machine.callHandle (callbacks d 2) 3 r = (.value .success, t) ∧
        Kept lentMachine t.machine ∧ t.machine.slots = [v, .null] := by
  intro d r
  have hend : (scribbling.run lending).1.isFinal = false := congrArg (·.1) lent_eq
  have hl : lent.LiveAt 1 2 := ⟨congrArg (·.2.1) lent_eq, congrArg (·.2.2.1) lent_eq⟩
  have hsteady : Steady [] lent := scribbling.steady_run lending hend
  have hstart : Working 1 2 [2] ⟨lent.machine 2, lent⟩ := by
    constructor
    · rw [world_machine]
      exact hsteady.cons (hsteady.sound.roster.mem_natives hl)
    · rw [world_machine]
      exact hl
  obtain ⟨hw, hlive⟩ : Working 1 2 [2] r := (hstart.of_frame frame_lentMachine).2
  have hcall : Machine.callHandle (callbacks d 2) 3 r =
      (.value .success, (Machine.callHandle (callbacks d 2) 3 r).2) := Prod.ext callHandle_lent rfl
  obtain ⟨-, hcalls⟩ :=
    scribbling.slots_returned 1 List.mem_cons_self hw hlive considerate_scribbling
  obtain ⟨hkept, signature, arity, v, u, -, -, hslots⟩ := (hcalls 3 _ _ hcall).2 rfl
  have hfound : lentMachine.slots = [.object 3, .null] := by cbv
  refine ⟨hw, hlive, considerate_scribbling, v, _, hcall, hkept, ?_⟩
  rw [hslots]
  exact congrArg (·.set 0 v) hfound

end Setting

end ScriptHost.Bridge
