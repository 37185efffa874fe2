import ScriptHost.Proofs.Checks
import ScriptHost.Proofs.Resolution

/-!
# Work that asks a machine not to abort

A machine keeps the error with which it was last asked to abort, one for all calls of host functions
that are under way.  What it waits with stays as long as nobody asks it again and no host function of
its own comes back: entry points, collections and runs of other machines leave it alone.

To say that nobody asks, a program is muted: it ends the process where it would be heard
(`Program.muted`).  The functions of a host are hushed for a machine if all of their programs are
muted, apart from the own methods and allocators of the machine, which become whatever is given
(`Code.hushed`).  Either these are as they were, and the machine waits with no error; then it does so
again behind each of them.  Or they are barred, and never come back.  In both cases a muted program
leaves the machine waiting with what it waited with (`within_muted`).
-/

namespace ScriptHost.Machine

open Run (Within)

variable {ε α : Type}

/-! ## Confined calls of the host -/

open Classical in
/-- A call that is made where `P` holds, and ends the process elsewhere. -/
noncomputable def confine (P : Running ε → Prop) (x : Call ε α) : Call ε α := fun r =>
  if P r then x r else (.halt .exhausted, r)

section

variable {P : Running ε → Prop} {x : Call ε α} {r : Running ε}

theorem confine_of (h : P r) : confine P x r = x r := if_pos h

theorem confine_of_not (h : ¬ P r) : confine P x r = (.halt .exhausted, r) := if_neg h

theorem contained_confine (h : Run.Contained x) : Run.Contained (confine P x) := by
  intro s w t hrun
  by_cases hP : P s
  · rw [confine_of hP] at hrun
    exact h s w t hrun
  · rw [confine_of_not hP] at hrun
    cases hrun
    rfl

theorem leads_confine {Ok : Running ε → Prop} {L S : Running ε → Running ε → Prop}
    {K : State → State → Prop} (span : Route Ok L S)
    (h : ∀ r, P r → Within (fun r t => Ok r → L r t ∧ Ok t ∧ K r.machine t.machine)
      (fun r t => Ok r → S r t) x r) : Leads Ok L S K (confine P x) := by
  intro r
  by_cases hP : P r
  · rw [Within, confine_of hP]
    exact h r hP
  · rw [Within, confine_of_not hP]
    exact ⟨span.stop, fun hend => absurd hend (by simp [Outcome.isFinal])⟩

end

/-- Callbacks that end the process where `Ok` does not hold, and at keys that are not known. -/
noncomputable def Callbacks.confined (cb : Callbacks ε) (Ok : Running ε → Prop)
    (methods classes : Running ε → Key → Prop) : Callbacks ε where
  write text := confine Ok (cb.write text)
  report diagnostic := confine Ok (cb.report diagnostic)
  resolve? := cb.resolve?.map fun f importer name => confine Ok (f importer name)
  load name := confine Ok (cb.load name)
  bindClass module className := confine Ok (cb.bindClass module className)
  bindMethod name := confine Ok (cb.bindMethod name)
  execute key := confine (fun r => Ok r ∧ methods r key) (cb.execute key)
  allocate key := confine (fun r => Ok r ∧ classes r key) (cb.allocate key)
  finalize := cb.finalize

/-- Where `Ok` holds, a confined host is the same at known keys. -/
theorem agreeOnKnown_confined (cb : Callbacks ε) (Ok : Running ε → Prop)
    (methods classes : Running ε → Key → Prop) :
    AgreeOnKnown Ok methods classes (cb.confined Ok methods classes) cb where
  write _ _ hok := confine_of hok
  report _ _ hok := confine_of hok
  resolve importer name r hok := by
    unfold resolveModule Callbacks.confined
    cases cb.resolve? with
    | none => rfl
    | some f =>
      have hsame : (confine Ok (f (Text.strip importer) (Text.strip name))).widen r =
          ((f (Text.strip importer) (Text.strip name)).widen : Eval ε (Option String)) r := by
        rw [Run.widen, Run.widen, confine_of hok]
      change Run.bind _ _ r = Run.bind _ _ r
      rw [Run.bind, Run.bind, hsame]
  load _ _ hok := confine_of hok
  bindClass _ _ _ hok := confine_of hok
  bindMethod _ _ hok := confine_of hok
  execute key r hok hkey := confine_of (P := fun r => Ok r ∧ methods r key) ⟨hok, hkey⟩
  allocate key r hok hkey := confine_of (P := fun r => Ok r ∧ classes r key) ⟨hok, hkey⟩

/-! ## What a machine waits with -/

/-- A machine that waits with `c` goes on doing so. -/
def Awaits (c : Option Value) (m m' : State) : Prop := m.abortRequest? = c → m'.abortRequest? = c

theorem Awaits.of_eq {c : Option Value} {m m' : State} (h : m'.abortRequest? = m.abortRequest?) :
    Awaits c m m' := fun hc => h.trans hc

theorem Awaits.trans {c : Option Value} ⦃m₁ m₂ m₃ : State⦄ (h : Awaits c m₁ m₂)
    (h' : Awaits c m₂ m₃) : Awaits c m₁ m₃ := fun hc => h' (h hc)

/-- Behind a host function a machine waits with nothing. -/
theorem balanced_awaits (c : Option Value) :
    Balanced (Awaits c) (fun _ _ => c = none) (Awaits c) where
  refl _ := .of_eq rfl
  trans := Awaits.trans
  own h := .of_eq h.abortRequest?
  call h _ := h.symm
  pinning h := h
  transPinning := Awaits.trans
  pin _ _ := .of_eq rfl
  unpin h := h

theorem awaits_setSlot (c : Option Value) (m : State) (v : Value) : Awaits c m (m.setSlot 0 v) :=
  .of_eq (m.writes_setSlot 0 v).abortRequest?

/-- Lasting work may be replaced by work that does the same. -/
theorem Lasting.congr {φ : Type} {Ok : Running ε → Prop} {L S : Running ε → Running ε → Prop}
    {K : State → State → Prop} {F : φ → Prop} {x y : Run (Running ε) φ α} {r : Running ε}
    (h : Lasting Ok L S K F x r) (hxy : y r = x r) : Lasting Ok L S K F y r where
  value v t hy := h.value v t (hxy.symm.trans hy)
  fault e t hy := h.fault e t (hxy.symm.trans hy)
  halt w t hy := h.halt w t (hxy.symm.trans hy)

/-! ## Ways to run -/

/-- What a host lets a machine run: a program, or the method of a handle. -/
inductive Start where
  | interpret (depth : Nat) (module source : String)
  | call (handle : Nat)

/-- Runs what a host has asked for. -/
def Start.run (cb : Callbacks ε) : Start → Call ε InterpretResult
  | interpret depth module source => Machine.interpret cb depth module source
  | call handle => Machine.callHandle cb handle

theorem lasting_start {Ok : Running ε → Prop} {L S : Running ε → Running ε → Prop}
    {K M U : State → State → Prop} {cb : Callbacks ε} (p : Steered Ok L S K M U cb)
    (hset : ∀ m v, K m (m.setSlot 0 v)) (x : Start) {r : Running ε} (hok : Ok r) :
    Lasting Ok L S K (fun _ => True) (x.run cb) r := by
  cases x with
  | interpret depth module source => exact lasting_interpret p hok depth module source
  | call handle => exact lasting_callHandle p hok hset handle

end ScriptHost.Machine

namespace ScriptHost.Bridge

open Machine (State Key Frame Running Call Callbacks Awaits Balanced Steered Start Value)
open Run (Within within_seq)

variable {η α β : Type}

/-! ## Operations that ask to abort -/

section

variable [Observer η] {P : VmId → Prop} {S : Powers} {vm : VmId} {w : World (Host η)}

/-- A machine is asked to abort by the last step of the operation that asks: one that is refused comes
to nothing. -/
def Asked (P : VmId → Prop) (S : Powers) (w : World (Host η))
    (p : Outcome HostError β × World (Host η)) : Prop :=
  (∃ v, p.1 = .value v) ∨ ∃ e, p.1 = .fault e ∧ Deeds P S w p.2

theorem asked_bind {x : Act (Host η) α} {f : α → Act (Host η) β} (hx : IsDeed P S x)
    (hhalt : ∀ h, (x w).1 ≠ .halt h)
    (hf : ∀ v t, x w = (.value v, t) → Deeds P S w t → Asked P S t (f v t)) :
    Asked P S w ((x >>= f) w) := by
  have hgoes := (hx w).2
  rcases hxw : x w with ⟨v | e | h, t⟩
  · rw [hxw] at hgoes
    rw [Run.bind_of_value hxw]
    refine (hf v t hxw (hgoes rfl)).imp_right ?_
    rintro ⟨e, he, hd⟩
    exact ⟨e, he, (hgoes rfl).trans hd⟩
  · rw [hxw] at hgoes
    rw [Run.bind_of_fault hxw]
    exact Or.inr ⟨e, rfl, hgoes rfl⟩
  · exact absurd (congrArg Prod.fst hxw) (hhalt h)

theorem asked_abortFiber (hP : P vm) (s : Slot) (w : World (Host η)) :
    Asked P S w (Vm.abortFiber vm s w) := by
  have hend : ∀ a t, Asked P S t (changeNative a (fun m => m.requestAbort s.index) t :
      Outcome HostError Unit × World (Host η)) := fun _ _ => Or.inl ⟨(), rfl⟩
  by_cases hvm : s.vm = vm
  · have hsame : s.ensureSameVm vm "abort_fiber" w = (.value (), w) := by
      unfold Slot.ensureSameVm
      rw [if_pos hvm]
      rfl
    unfold Vm.abortFiber
    rw [Run.bind_of_value hsame]
    exact asked_bind (deed_checked' s (hvm.symm ▸ hP) _) (looks_checked s _ w).2
      fun a t _ _ => hend a t
  · have hother : s.ensureSameVm vm "abort_fiber" w =
        (.fault (.crossVmMisuse "abort_fiber" (w.addressOf vm) (w.addressOf s.vm)), w) := by
      unfold Slot.ensureSameVm
      rw [if_neg hvm]
      rfl
    refine Or.inr ⟨_, congrArg Prod.fst (Run.bind_of_fault hother _), ?_⟩
    rw [Vm.abortFiber, Run.bind_of_fault hother]
    exact .refl w

theorem asked_access {x : Access β} (hP : P x.vm) (hx : x.request? = some vm)
    (hd : ∀ s, x.destination? = some s → (S.rights s.vm).writes s.index) (w : World (Host η)) : Asked P S w (x.run w) := by
  cases x with
  | abortFiber vm' s => exact asked_abortFiber hP s w
  | abortFiberWithMessage vm' message =>
    have hwrites : ∀ (y : Act (Host η) Address) (f : Address → State → State), Looks y →
        ∀ t h, ((y >>= fun a => changeNative a (f a) : Act (Host η) Unit) t).1 ≠ .halt h := by
      intro y f hy t h hrun
      rcases hyt : y t with ⟨a | e | h', u⟩
      · rw [Run.bind_of_value hyt] at hrun
        cases hrun
      · rw [Run.bind_of_fault hyt] at hrun
        cases hrun
      · exact absurd (congrArg Prod.fst hyt) ((hy t).2 h')
    refine asked_bind (deed_ensureSlots hP 1) (hwrites _ _ (looks_live vm' _) w) fun _ t _ _ => ?_
    refine asked_bind (deed_setSlot ⟨vm', 0⟩ hP _ rfl (hd _ rfl)) (hwrites _ _ (looks_checked _ _) t)
      fun _ t _ _ => ?_
    exact asked_abortFiber hP _ t
  | _ => cases hx

end

/-! ## Programs that nobody hears -/

/-- A program that ends the process once it has asked `vm` to abort.  A request that is refused is
none. -/
def Program.muted (vm : VmId) : Program η α → Program η α
  | .done v => .done v
  | .stop h => .stop h
  | .perform op next => .perform op fun
    | .value v =>
      if op.request? = some vm then .stop (.fatal "asked to abort") else (next (.value v)).muted vm
    | outcome => (next outcome).muted vm

/-- The end of the process, instead of a program. -/
def Program.barred (_ : Program η α) : Program η α := .stop (.fatal "barred")

/-- Code that asks `vm` to abort nowhere but in the own methods and allocators of the machine, which
become `own`. -/
def Code.hushed (code : Code η) (vm : VmId)
    (own : Program η (Except HostError Unit) → Program η (Except HostError Unit)) : Code η where
  write f id text := (code.write f id text).muted vm
  error f id diagnostic := (code.error f id diagnostic).muted vm
  resolve f id importer name := (code.resolve f id importer name).muted vm
  load f id name := (code.load f id name).muted vm
  bindClass f id module name := (code.bindClass f id module name).muted vm
  bindMethod f id name := (code.bindMethod f id name).muted vm
  method f id := if id = vm then own (code.method f id) else (code.method f id).muted vm
  allocator f id := if id = vm then own (code.allocator f id) else (code.allocator f id).muted vm
  classFinalizer f object := (code.classFinalizer f object).muted vm
  typedFinalizer f payload := (code.typedFinalizer f payload).muted vm

/-! ## The regime of a machine that waits -/

/-- The machine `vm` at `a` is not asked to abort, and goes on waiting with `c`. -/
def Regime.patient (vm : VmId) (a : Address) (c : Option Value) : Regime η :=
  { Licence.free with
    rights := rightsAt vm ⟨False, fun _ => True⟩
    pre := Catalogued
    rel := fun _ w w' => w.nextVmId ≤ w'.nextVmId ∧ (vm < w.nextVmId → w'.LiveAt vm a →
      w.LiveAt vm a ∧ Awaits c (w.machine a) (w'.machine a))
    ends := fun _ _ => True }

section

variable [Observer η] {vm : VmId} {a : Address} {c : Option Value}

theorem lawful_patient : (Regime.patient vm a c : Regime η).Lawful where
  refl _ w := ⟨Nat.le_refl _, fun _ hl => ⟨hl, .of_eq rfl⟩⟩
  trans h h' := by
    refine ⟨h.1.trans h'.1, fun hvm hl => ?_⟩
    obtain ⟨hmid, hawaits'⟩ := h'.2 (hvm.trans_le h.1) hl
    obtain ⟨hstart, hawaits⟩ := h.2 hvm hmid
    exact ⟨hstart, hawaits.trans hawaits'⟩
  weaken _ _ := trivial
  append _ _ := trivial
  leave h := h
  chore hs hp h := by
    refine ⟨h.catalogued hs hp, fun _ => ⟨(h.step hs).nextVmId_le, fun hvm hl => ?_⟩⟩
    rcases h.touch hs hl with ⟨hold, htouch⟩ | ⟨hnew, -⟩
    · exact ⟨hold, .of_eq (htouch.abortRequest? fun hrequests => hrequests rfl)⟩
    · exact absurd hnew (Nat.ne_of_lt hvm)
  sweeping hs hp h := h.catalogued hs hp

omit [Observer η] in
theorem sweeps_patient : (Regime.patient vm a c : Regime η).Sweeps := by
  refine fun w w' hs _ h _ => ⟨h.step.nextVmId_le, fun _ hl => ?_⟩
  obtain ⟨hold, htouch⟩ := h.touch hs hl
  exact ⟨hold, .of_eq (htouch.abortRequest? id)⟩

/-! ### Runs among confined calls of the host -/

variable {base : World (Host η)} {id : VmId} {b : Address} {active : List Address}
  {d : Delegates (Host η)} {r t : Running (World (Host η))}

/-- The callbacks of a machine, as far as it serves its classes. -/
noncomputable def served (d : Delegates (Host η)) (base : World (Host η)) (id : VmId) (b : Address)
    (active : List Address) : Callbacks (World (Host η)) :=
  (callbacks d b).confined (Serving base id b active)
    (fun r key => ((bindingsOf id b r).method? key).isSome)
    (fun r key => ((bindingsOf id b r).class? key).isSome)

/-- A machine that serves its classes runs among its callbacks as far as it does. -/
theorem run_served (hb : b ∈ active) (h : Regime.cataloguing.Behaved active d)
    (hr : Serving base id b active r) (x : Start) :
    x.run (served d base id b active) r = x.run (callbacks d b) r := by
  obtain ⟨hinterpret, hcall⟩ := (hr.resolution (keyed_callbacks base hb h) hb).runs
    (served d base id b active) (Machine.agreeOnKnown_confined _ _ _ _)
  cases x with
  | interpret depth module source => exact (hinterpret depth module source).1
  | call handle => exact (hcall handle).1

variable (base id) in
/-- The machine `id` at `b` runs among listeners that do not ask `vm` to abort, and keeps `R` if its own
functions keep `M`.  `L` holds meanwhile, if it holds where the machine works by itself. -/
theorem steered_served (L : Running (World (Host η)) → Running (World (Host η)) → Prop)
    {R M U : State → State → Prop} (hb : b ∈ active)
    (hcat : Regime.cataloguing.Behaved active d) (h : (Regime.patient vm a c).Listens active d)
    (span : Route (Working id b active) L fun _ _ => True) (balanced : Balanced R M U)
    (work : ∀ {r m}, Working id b active r → Frame r.machine m → L r { r with machine := m })
    (hkeep : ∀ {r t}, Working id b active r → Working id b active t →
      (Regime.patient vm a c).rel active (world b r) (world b t) → L r t ∧ R r.machine t.machine)
    (hexecute : ∀ key r t, Serving base id b active r →
      ((bindingsOf id b r).method? key).isSome → Working id b active t →
        (callbacks d b).execute key r = (.value (), t) → L r t ∧ M r.machine t.machine)
    (hallocate : ∀ key r t, Serving base id b active r →
      ((bindingsOf id b r).class? key).isSome → Working id b active t →
        (callbacks d b).allocate key r = (.value (), t) → L r t ∧ M r.machine t.machine) :
    Steered (Working id b active) L (fun _ _ => True) R M U (served d base id b active) := by
  have k : (Regime.patient vm a c : Regime η).Lawful := lawful_patient
  have hlistens : ∀ {β : Type} {x : Effect (Host η) β},
      (∀ w, (Regime.patient vm a c).Owns w b → Within ((Regime.patient vm a c).Moves active)
        ((Regime.patient vm a c).Reaches active) x w) →
      Machine.Leads (Working id b active) L (fun _ _ => True) R
        (Machine.confine (Serving base id b active) (atHost b x)) := by
    intro β x hx
    refine Machine.leads_confine span fun r hr => (within_atHost hx r).mono (fun {t} ht hok => ?_)
      fun _ _ => trivial
    obtain ⟨hmoves, -, hrel⟩ := ht hr.mem_registered (hr.owns (l := .free) trivial) hr.steady
      hr.catalogued
    have hworking := hok.of_passes hb hmoves
    exact ⟨(hkeep hok hworking hrel).1, hworking, (hkeep hok hworking hrel).2⟩
  -- methods and allocators come back where the machine still runs
  have hfunctions : ∀ {x : Call (World (Host η)) Unit} {known : Running (World (Host η)) → Prop},
      (∀ r, Within (Regime.cataloguing.Turns b active) (Regime.cataloguing.Ends b active) x r) →
      Run.Contained x →
      (∀ r t, Serving base id b active r → known r → Working id b active t →
        x r = (.value (), t) → L r t ∧ M r.machine t.machine) →
      Machine.Leads (Working id b active) L (fun _ _ => True) M
        (Machine.confine (fun r => Serving base id b active r ∧ known r) x) := by
    intro x known hx hc hback
    refine Machine.leads_confine span fun r hr => ⟨fun _ => trivial, fun hend hok => ?_⟩
    have hworking : Working id b active (x r).2 := (hr.1.of_turns hb ((hx r).2 hend)).1.toWorking
    rcases hrun : x r with ⟨_ | e | w, t⟩
    · rw [hrun] at hworking
      obtain ⟨hl, hm⟩ := hback r t hr.1 hr.2 hworking hrun
      exact ⟨hl, hworking, hm⟩
    · exact e.elim
    · rw [hrun] at hend
      exact absurd (hc r w t hrun) (by simp [hend])
  have hhosted : Machine.Hosted (Regime.cataloguing.Turns b active)
      (Regime.cataloguing.Ends b active) (callbacks d b) := hosted_callbacks lawful_cataloguing hcat
  exact
    { span := span
      balanced := balanced
      work := fun hok hm => ⟨work hok hm.toFrame, (hok.of_frame hm.toFrame).2⟩
      write := fun text => hlistens fun _ ho => within_write k h ho (some text)
      report := fun diagnostic => hlistens fun _ ho => within_error k h ho diagnostic
      resolve := fun f hf importer name => by
        cases hf
        exact hlistens fun _ ho => within_resolve k h ho (some importer) (some name)
      load := fun name => hlistens fun _ ho => within_load k h ho (some name)
      bindClass := fun module className => hlistens fun _ ho => within_bindClass k h ho module className
      bindMethod := fun name => hlistens fun _ ho => within_bindMethod k h ho name
      execute := fun key => hfunctions (hhosted.execute key) (contained_atHost b _) (hexecute key)
      allocate := fun key => hfunctions (hhosted.allocate key) (contained_atHost b _) (hallocate key)
      contained :=
        { write := fun _ => Machine.contained_confine (contained_atHost b _)
          report := fun _ => Machine.contained_confine (contained_atHost b _)
          resolve := fun f hf importer name => by
            cases hf
            exact Machine.contained_confine (contained_atHost b _)
          load := fun _ => Machine.contained_confine (contained_atHost b _)
          bindClass := fun _ _ => Machine.contained_confine (contained_atHost b _)
          bindMethod := fun _ => Machine.contained_confine (contained_atHost b _)
          execute := fun _ => Machine.contained_confine (contained_atHost b _)
          allocate := fun _ => Machine.contained_confine (contained_atHost b _) } }

/-! ### Hushed functions -/

/-- Functions of a host that do not ask `vm` to abort, apart from the own methods and allocators of the
machine.  These may do so if it waits with no error, and do not come back otherwise. -/
structure Hushed (vm : VmId) (a : Address) (c : Option Value) (active : List Address)
    (d : Delegates (Host η)) : Prop where
  catalogued : Regime.cataloguing.Behaved active d
  living : (Regime.living vm a).Behaved active d
  listens : (Regime.patient vm a c).Listens active d
  method : ∀ f id w, id ≠ vm → Within ((Regime.patient vm a c).Moves active)
    ((Regime.patient vm a c).Reaches active) (d.method f id) w
  allocator : ∀ f id w, id ≠ vm → Within ((Regime.patient vm a c).Moves active)
    ((Regime.patient vm a c).Reaches active) (d.allocator f id) w
  own : c = none ∨ ∀ f w, (d.method f vm w).1.isFinal = true ∧ (d.allocator f vm w).1.isFinal = true

variable (vm) in
/-- Whatever becomes of the result of a function that does not come back, the process is at its end. -/
theorem isFinal_settled {x : Act (Host η) Unit} (hx : (x (world a r)).1.isFinal = true)
    (what : String) :
    (atHost a (do Trampoline.settle vm (← Run.attempt x) what) r).1.isFinal = true := by
  rcases hrun : x (world a r) with ⟨v | e | halt, t⟩
  · rw [hrun] at hx
    cases hx
  · rw [hrun] at hx
    cases hx
  · rw [hrun] at hx
    have hattempt : (x.attempt : Effect (Host η) (Except HostError Unit)) (world a r) =
        (.halt halt, t) := by
      rw [Run.attempt, hrun]
    have hsettled : ((do Trampoline.settle vm (← Run.attempt x) what : Effect (Host η) Unit).sealed
        (world a r)).1 = .halt halt := by
      rw [Run.sealed, Run.bind_of_halt hattempt]
      cases halt with
      | panic => cases hx
      | fatal | exhausted => rfl
    rw [(world_atHost _ r).1, hsettled]
    exact (isFinal_halt halt).trans hx

/-- **A run of the machine itself leaves it waiting as it did.** -/
theorem lasting_own (h : Hushed vm a c active d) (ha : a ∈ active)
    (hr : Serving base vm a active r) (x : Start) :
    Machine.Lasting (Working vm a active) (fun _ _ => True) (fun _ _ => True) (Awaits c)
      (fun _ => True) (x.run (callbacks d a)) r := by
  have hfunction : ∀ {x : Act (Host η) Unit} {what : String} {r t : Running (World (Host η))},
      (c = none ∨ (x (world a r)).1.isFinal = true) →
      (atHost a (do Trampoline.settle vm (← Run.attempt x) what) r) = (.value (), t) →
      c = none := by
    intro x what r t hown hrun
    refine hown.resolve_right fun hfinal => ?_
    have hend := isFinal_settled vm hfinal what
    rw [hrun] at hend
    cases hend
  have p := steered_served base vm (fun _ _ => True) ha h.catalogued
    h.listens ⟨fun _ => trivial, fun _ => trivial, fun _ _ => trivial, fun _ _ => trivial⟩
    (Machine.balanced_awaits c) (fun _ _ => trivial)
    (fun hr ht hrel => ⟨trivial, by
      have hawaits := (hrel.2 hr.known ht.live).2
      rwa [hr.machine, ht.machine] at hawaits⟩)
    (fun key r t hr hkey _ hrun => by
      obtain ⟨f, hf⟩ := Option.isSome_iff_exists.1 hkey
      rw [hr.execute hf] at hrun
      exact ⟨trivial, hfunction (h.own.imp_right fun hown => (hown _ _).1) hrun⟩)
    fun key r t hr hkey _ hrun => by
      obtain ⟨f, hf⟩ := Option.isSome_iff_exists.1 hkey
      rw [hr.allocate hf] at hrun
      exact ⟨trivial, hfunction (h.own.imp_right fun hown => (hown _ _).2) hrun⟩
  exact (Machine.lasting_start p (Machine.awaits_setSlot c) x hr.toWorking).congr
    (run_served ha h.catalogued hr x).symm

/-- **A run of another machine leaves the machine waiting as it did.** -/
theorem lasting_other (h : Hushed vm a c active d) (hb : b ∈ active) (hid : id ≠ vm)
    (hr : Serving base id b active r) (x : Start) :
    Machine.Lasting (Working id b active)
      (fun r t => (Regime.patient vm a c).rel active (world b r) (world b t)) (fun _ _ => True)
      (fun _ _ => True) (fun _ => True) (x.run (callbacks d b)) r := by
  have k : (Regime.patient vm a c : Regime η).Lawful := lawful_patient
  have hcalls : ∀ {x : Effect (Host η) Unit} {r t : Running (World (Host η))},
      Serving base id b active r →
      Within ((Regime.patient vm a c).Moves active) ((Regime.patient vm a c).Reaches active) x
        (world b r) → atHost b x r = (.value (), t) →
      (Regime.patient vm a c).rel active (world b r) (world b t) := by
    intro x r t hr hx hrun
    have hgoes := hx.2
    rw [value_of_atHost hrun] at hgoes
    exact (hgoes rfl hr.steady hr.catalogued).2.2
  have hself : ∀ {r : Running (World (Host η))} {id'}, Serving base id b active r →
      (world b r).registered.find? b = some id' → id' ≠ vm := by
    intro r id' hr hfind
    rw [hr.find?] at hfind
    cases hfind
    exact hid
  have p := steered_served base id
    (fun r t => (Regime.patient vm a c).rel active (world b r) (world b t)) hb h.catalogued
    h.listens ⟨fun r => k.refl active _, fun _ => trivial, k.trans, fun _ _ => trivial⟩
    balanced_trivial
    (fun {r m} hr hm => by
      rw [world_put b r m]
      refine ⟨Nat.le_refl _, fun _ hl => ⟨hl, ?_⟩⟩
      have hne : a ≠ b := by
        rintro rfl
        exact hid (hr.steady.sound.roster.eq_of_liveAt hr.live hl)
      rw [World.machine_putMachine_ne _ hne]
      exact .of_eq rfl)
    (fun _ _ hrel => ⟨hrel, trivial⟩)
    (fun key r t hr _ _ hrun => ⟨hcalls hr (within_execute k
      (fun f id' hfind => h.method f id' _ (hself hr hfind))
      (fun id' hfind => ⟨trivial, fun heq => hself hr hfind heq, fun _ => trivial⟩) key) hrun, trivial⟩)
    fun key r t hr _ _ hrun => ⟨hcalls hr (within_allocate k
      (fun f id' hfind => h.allocator f id' _ (hself hr hfind))
      (fun id' hfind => ⟨trivial, fun heq => hself hr hfind heq, fun _ => trivial⟩) key) hrun, trivial⟩
  exact (Machine.lasting_start p (fun _ _ => trivial) x hr.toWorking).congr
    (run_served hb h.catalogued hr x).symm

/-- **Runs among hushed functions leave a machine waiting as it did**, whichever machine runs. -/
theorem within_start (h : Hushed vm a c active d) (hb : b ∈ active) (x : Start)
    (r : Running (World (Host η))) :
    Within ((Regime.patient vm a c).Turns b active) ((Regime.patient vm a c).Ends b active)
      (x.run (callbacks d b)) r := by
  have hcat : Within (Regime.cataloguing.Turns b active) (Regime.cataloguing.Ends b active)
      (x.run (callbacks d b)) r := by
    cases x with
    | interpret depth module source =>
      exact upheld_cataloguing.runs.interpret hb h.catalogued depth module source r
    | call handle => exact upheld_cataloguing.runs.call trivial hb h.catalogued handle r
  refine ⟨hcat.1, fun hend hreg ho hw hp => ?_⟩
  obtain ⟨hmoves, hp', -⟩ := hcat.2 hend hreg ho hw hp
  refine ⟨hmoves, hp', (hmoves hw).1.nextVmId_le, fun hvm hl => ?_⟩
  obtain ⟨id, hfind⟩ := Table.exists_find?_of_mem hreg
  have hlive : (world b r).LiveAt id b := (hw.sound.roster.registered b id).1 hfind
  have hr : Serving (world b r) id b active r := ⟨⟨hw, hlive⟩, hp, .refl _⟩
  by_cases hid : id = vm
  · subst hid
    by_cases hba : b = a
    · subst hba
      have hlasting := lasting_own h hb hr x
      rcases hrun : x.run (callbacks d b) r with ⟨v | e | halt, t⟩
      · obtain ⟨-, ht, hawaits⟩ := hlasting.value v t hrun
        rw [hrun] at hl
        exact ⟨hlive, by rwa [hr.machine, ht.machine]⟩
      · exact e.elim
      · rw [hrun] at hend
        exact absurd (hlasting.halt halt t hrun).1 (by simp [hend])
    · -- a machine keeps its address, so it is at `a` before the run if it is so behind it
      have hliving : Within ((Regime.living id a).Turns b active) ((Regime.living id a).Ends b active)
          (x.run (callbacks d b)) r := by
        cases x with
        | interpret depth module source =>
          exact (upheld_living id a).runs.interpret hb h.living depth module source r
        | call handle => exact (upheld_living id a).runs.call trivial hb h.living handle r
      obtain ⟨-, -, -, hback⟩ := hliving.2 hend hreg ho hw fun _ => trivial
      exact absurd (hlive.2.symm.trans (hback hvm hl).1.2) hba
  · have hlasting := lasting_other h hb hid hr x
    rcases hrun : x.run (callbacks d b) r with ⟨v | e | halt, t⟩
    · rw [hrun] at hl
      exact (hlasting.value v t hrun).1.2 hvm hl
    · exact e.elim
    · rw [hrun] at hend
      exact absurd (hlasting.halt halt t hrun).1 (by simp [hend])

/-! ### Muted programs -/

variable {engines : List Address → Engine (Host η)} {code : Code η} {importDepth : Nat}
  {own : Program η (Except HostError Unit) → Program η (Except HostError Unit)}

/-- An operation that asks is refused, or the program goes on no more. -/
theorem within_asking {op : Operation η β} {g : Outcome HostError β → Effect (Host η) α}
    {w : World (Host η)} (hreq : op.request? = some vm)
    (hvalue : ∀ v t, g (.value v) t = (.halt (.fatal "asked to abort"), t))
    (hfault : ∀ e t, Within ((Regime.patient vm a c).Moves active)
      ((Regime.patient vm a c).Reaches active) (g (.fault e)) t) :
    Within ((Regime.patient vm a c).Moves active) ((Regime.patient vm a c).Reaches active)
      ((op.run engines active).observed >>= g) w := by
  have k : (Regime.patient vm a c : Regime η).Lawful := lawful_patient
  cases op with
  | access x =>
    have hfree : Within (Regime.free.Moves active) (Regime.free.Reaches active)
        (x.run : Act (Host η) β) w :=
      within_deed Regime.lawful_free
          (deed_access x trivial (fun _ _ => trivial) fun _ _ => trivial) w
    have hasked : Asked (fun _ => True) (Regime.patient vm a c : Regime η).powers w (x.run w) :=
      asked_access trivial hreq (fun _ _ _ => trivial) w
    rcases hrun : (x.run : Act (Host η) β) w with ⟨v | e | halt, t⟩
    · have hobserved : (((Operation.access x).run engines active).observed :
          Effect (Host η) (Outcome HostError β)) w = (.value (.value v), t) := by
        rw [Run.observed, show (Operation.access x).run engines active w = _ from hrun]
      rw [Within, Run.bind_of_value hobserved, hvalue]
      rw [Within, hrun] at hfree
      exact ⟨fun hw _ => ⟨(hfree.1 hw trivial).1, trivial⟩,
        fun hend => absurd hend (by simp [Outcome.isFinal])⟩
    · have hobserved : (((Operation.access x).run engines active).observed :
          Effect (Host η) (Outcome HostError β)) w = (.value (.fault e), t) := by
        rw [Run.observed, show (Operation.access x).run engines active w = _ from hrun]
      rw [hrun] at hasked
      obtain ⟨v, hv⟩ | ⟨_, -, hdeeds⟩ := hasked
      · cases hv
      · have hmoves := k.moves_of_deeds active hdeeds
        rw [Within, Run.bind_of_value hobserved]
        exact ⟨k.span.append hmoves (hfault e t).1, fun hend => k.span.trans hmoves ((hfault e t).2 hend)⟩
    · rw [hrun] at hasked
      obtain ⟨v, hv⟩ | ⟨_, he, -⟩ := hasked
      · cases hv
      · cases he
  | _ => cases hreq

/-- A muted program leaves the machine waiting as it did, if machines do. -/
theorem within_muted_of_drives (h : (Regime.patient vm a c : Regime η).Drives engines)
    (p : Program η α) :
    ∀ w, Within ((Regime.patient vm a c).Moves active) ((Regime.patient vm a c).Reaches active)
      ((p.muted vm).run engines active) w := by
  have k : (Regime.patient vm a c : Regime η).Lawful := lawful_patient
  induction p with
  | done v => exact fun w => within_return k v w
  | stop halt => exact fun w => Run.within_halt k.span halt w
  | perform op next ih =>
    intro w
    have hwatch : Calm w w.watch := (Step.watch w).calm (Gentle.of_eq rfl rfl fun _ _ => Iff.rfl)
    rw [Program.muted]
    refine within_seq k.span (k.within_of_moves fun _ _ =>
      k.moves_of_chore (.watch w) (hwatch.moves active)) ?_
    intro _ t
    refine Run.within_get_bind ?_
    split
    · next hop =>
      by_cases hreq : op.request? = some vm
      · refine within_asking hreq (fun v t => ?_) fun e t => ih (.fault e) t
        dsimp only
        rw [if_pos hreq]
        rfl
      · refine within_seq k.span (Run.within_observed (h.operation k op (Licence.permits_free op)
          ⟨fun vm' hvm' heq => hreq (heq ▸ hvm'), fun _ _ _ => trivial⟩ hop)) fun outcome t => ?_
        cases outcome with
        | value v =>
          dsimp only
          rw [if_neg hreq]
          exact ih (.value v) t
        | fault e => exact ih (.fault e) t
        | halt halt => exact ih (.halt halt) t
    · exact Run.within_halt k.span _ t

/-- The functions of hushed code are hushed, if programs that are muted leave the machine waiting and
those that are barred end the process. -/
theorem hushed_delegates (code : Code η) (run : {α : Type} → Program η α → Effect (Host η) α)
    (hown : c = none ∨ own = Program.barred)
    (hcat : Regime.cataloguing.Behaved active ((code.hushed vm own).delegates run))
    (hliving : (Regime.living vm a).Behaved active ((code.hushed vm own).delegates run))
    (hmuted : ∀ {α : Type} (p : Program η α) w, Within ((Regime.patient vm a c).Moves active)
      ((Regime.patient vm a c).Reaches active) (run (p.muted vm)) w)
    (hbarred : ∀ {α : Type} (p : Program η α) w, (run p.barred w).1.isFinal = true) :
    Hushed vm a c active ((code.hushed vm own).delegates run) := by
  have k : (Regime.patient vm a c : Regime η).Lawful := lawful_patient
  have hother : ∀ (p p' : Program η (Except HostError Unit)) {id : VmId} (w : World (Host η)),
      id ≠ vm → Within ((Regime.patient vm a c).Moves active)
        ((Regime.patient vm a c).Reaches active)
        (do Run.ofExcept (← (run (if id = vm then p' else p.muted vm)).widen) : Act (Host η) Unit)
        w := by
    intro p p' id w hid
    rw [if_neg hid]
    exact within_seq k.span (Run.within_widen (hmuted p w)) fun result t =>
      Run.within_ofExcept k.span result t
  have hself : ∀ (p p' : Program η (Except HostError Unit)) (w : World (Host η)),
      ((do Run.ofExcept (← (run (if vm = vm then p.barred else p')).widen) : Act (Host η) Unit)
        w).1.isFinal = true := by
    intro p p' w
    rw [if_pos rfl]
    have hfinal := hbarred p w
    rcases hrun : run p.barred w with ⟨v | e | halt, t⟩
    · rw [hrun] at hfinal
      cases hfinal
    · exact e.elim
    · have hwiden : ((run p.barred).widen : Act (Host η) (Except HostError Unit)) w =
          (.halt halt, t) := by
        rw [Run.widen, hrun]
      rw [hrun] at hfinal
      rw [Run.bind_of_halt hwiden]
      exact (isFinal_halt halt).trans hfinal
  exact
    { catalogued := hcat
      living := hliving
      listens :=
        { write := fun _ _ _ w _ => hmuted _ w
          error := fun _ _ _ w _ => hmuted _ w
          resolve := fun _ _ _ _ w _ => hmuted _ w
          load := fun _ _ _ w _ => hmuted _ w
          bindClass := fun _ _ _ _ w _ => hmuted _ w
          bindMethod := fun _ _ _ w _ => hmuted _ w }
      method := fun f id w hid => hother (code.method f id) _ w hid
      allocator := fun f id w hid => hother (code.allocator f id) _ w hid
      own := hown.imp_right fun hbar f w => by
        subst hbar
        exact ⟨hself (code.method f vm) _ w, hself (code.allocator f vm) _ w⟩ }

/-- Machines leave a machine waiting as it did, as long as they run among hushed functions. -/
theorem drives_hushed (hown : c = none ∨ own = Program.barred) (depth : Nat) :
    (Regime.patient vm a c : Regime η).Drives ((code.hushed vm own).engines importDepth depth) := by
  have k : (Regime.patient vm a c : Regime η).Lawful := lawful_patient
  have hcat : ∀ depth active, Regime.cataloguing.Behaved active
      ((code.hushed vm own).engines importDepth depth active).delegates := fun depth =>
    (serves_engines upheld_cataloguing (Code.obeys_free _) importDepth depth).behaved
  have hliving : ∀ depth active, (Regime.living vm a).Behaved active
      ((code.hushed vm own).engines importDepth depth active).delegates := fun depth =>
    (serves_engines (upheld_living vm a) (Code.obeys_free _) importDepth depth).behaved
  -- machines keep the regime among functions whose programs do
  have hlevel : ∀ depth, (∀ active, Hushed vm a c active
        ((code.hushed vm own).engines importDepth depth active).delegates) →
      (∀ active, (Regime.patient vm a c).Finalizers active
        ((code.hushed vm own).engines importDepth depth active).delegates) →
      (Regime.patient vm a c).Drives ((code.hushed vm own).engines importDepth depth) :=
    fun depth h hfinalizers =>
      { interpret := fun {_ active} hb depth module source r =>
          within_start (h active) hb (.interpret depth module source) r
        call := fun _ {_ active} hb handle r => within_start (h active) hb (.call handle) r
        gathers := fun _ active => k.gathers_of_sweeps sweeps_patient (hfinalizers active) }
  induction depth with
  | zero =>
    exact hlevel 0 (fun active => hushed_delegates code (fun _ => Run.halt .exhausted) hown
      (hcat 0 active) (hliving 0 active) (fun _ w => Run.within_halt k.span _ w) fun _ _ => rfl)
      fun active => ⟨fun _ _ w => Run.within_halt k.span _ w, fun _ _ w => Run.within_halt k.span _ w⟩
  | succ depth ih =>
    have hmuted : ∀ {active : List Address} {α : Type} (p : Program η α) w,
        Within ((Regime.patient vm a c).Moves active) ((Regime.patient vm a c).Reaches active)
          ((p.muted vm).run ((code.hushed vm own).engines importDepth depth) active) w :=
      fun p w => within_muted_of_drives ih p w
    exact hlevel (depth + 1) (fun active => hushed_delegates code
      (fun p => p.run ((code.hushed vm own).engines importDepth depth) active) hown
      (hcat (depth + 1) active) (hliving (depth + 1) active) hmuted fun _ _ => rfl)
      fun active => ⟨fun _ _ w => hmuted _ w, fun _ _ w => hmuted _ w⟩

/-- **A muted program leaves a machine waiting with what it waited with**, if it waits with no error, or
if its own methods and allocators are barred. -/
theorem within_muted (hown : c = none ∨ own = Program.barred) (depth : Nat) (p : Program η α)
    (w : World (Host η)) :
    Within ((Regime.patient vm a c).Moves active) ((Regime.patient vm a c).Reaches active)
      ((p.muted vm).run ((code.hushed vm own).engines importDepth depth) active) w :=
  within_muted_of_drives (drives_hushed hown depth) p w

end

end ScriptHost.Bridge
