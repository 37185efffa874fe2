import Mathlib
import ScriptHost.Proofs.Disposal

/-!
# Host programs keep regimes

An operation that a licence permits leads from rest to rest and keeps what its regime says: deeds do
so at once, and operations that let a machine run by way of its callbacks, which are programs again.
So the claim for programs and the claim for callbacks are proved together, by induction on how deep
callbacks nest (`serves_engines`) and, inside, on the program (`within_program`).

Where everything may be done, the world behind any program is reached by steps from the beginning
(`Setting.steps_run`), and unless the process has ended no object waits for its finalizer
(`Setting.steady_run`).
-/

namespace ScriptHost.Bridge

open Machine (Frame State Running Call Callbacks Hosted Rights)
open Run (Within within_seq)

variable {η φ α β : Type}

/-! ## Runs of machines -/

section

variable {active : List Address} {a : Address} {vm : VmId} {w w' : World (Host η)}

theorem Steady.cons (hw : Steady active w) (ha : a ∈ w.natives.keys) : Steady (a :: active) w := by
  refine ⟨hw.sound, fun b hb => ?_,
    fun b hb => (hw.listed b hb).imp_right (List.mem_cons_of_mem _),
    fun b hb => hw.quiet b fun hin => hb (List.mem_cons_of_mem _ hin)⟩
  rcases List.mem_cons.1 hb with rfl | hb
  · exact ha
  · exact hw.native b hb

/-- A machine that finds itself as it was may as well not have run. -/
theorem moves_of_cons (ha : a ∈ w.registered.keys) (h : Moves (a :: active) w w') :
    Moves active w w' := by
  intro hw
  obtain ⟨hsteps, hsteady, hheld⟩ := h (hw.cons (hw.sound.roster.native a ha))
  refine ⟨hsteps, ⟨hsteady.sound, fun b hb => hsteady.native b (List.mem_cons_of_mem _ hb),
    fun b hb => ?_, fun b hb => ?_⟩, fun b hb => hheld b (List.mem_cons_of_mem _ hb)⟩
  · rcases hsteady.listed b hb with hreg | hin
    · exact Or.inl hreg
    · rcases List.mem_cons.1 hin with rfl | hin
      · exact Or.inl ((hheld b List.mem_cons_self).mem_registered.2 ha)
      · exact Or.inr hin
  by_cases hba : b = a
  · subst hba
    obtain ⟨-, hswept, hfinalizing, -⟩ := hheld b List.mem_cons_self
    rw [hswept, hfinalizing]
    exact hw.quiet b hb
  · exact hsteady.quiet b fun hin => hb ((List.mem_cons.1 hin).resolve_left hba)

/-- A machine that is alive and one on which the host may act is one that the host owns. -/
theorem Licence.owns_of_liveAt {l : Licence η} (hr : Roster w) (hP : l.allows vm)
    (hl : w.LiveAt vm a) : l.Owns w a := by
  intro id hid
  have hsame := hr.eq_of_liveAt hl ((hr.registered a id).1 hid)
  exact hsame ▸ hP

namespace Regime

variable [Observer η] {K : Regime η} (k : K.Lawful)
include k

theorem moves_of_cons (ha : a ∈ w.registered.keys) (h : K.Moves (a :: active) w w') :
    K.Moves active w w' := by
  intro hw hp
  obtain ⟨hmoves, hp', hrel⟩ := h (hw.cons (hw.sound.roster.native a ha)) hp
  exact ⟨Bridge.moves_of_cons ha fun _ => hmoves (hw.cons (hw.sound.roster.native a ha)), hp',
    k.leave hrel⟩

omit [Observer η] k in
theorem reaches_of_cons (ha : a ∈ w.natives.keys) (h : K.Reaches (a :: active) w w') :
    K.Reaches active w w' :=
  fun hw => h (hw.cons ha)

variable {d : Delegates (Host η)}

/-- A machine that is alive may run. -/
theorem within_onMachine {x : Callbacks (World (Host η)) → Call (World (Host η)) α}
    (hx : Within (K.Turns a (a :: active)) (K.Ends a (a :: active)) (x (callbacks d a))
      ⟨w.machine a, w⟩)
    (hP : K.allows vm) (hl : w.LiveAt vm a) :
    Within (K.Moves active) (K.Reaches active)
      (onMachine d a x : Run (World (Host η)) φ α) w := by
  refine within_of_steady fun hw _ => ?_
  have hr := hw.sound.roster
  have hreg := hr.mem_registered hl
  obtain ⟨hends, hgoes⟩ := hx
  have hstart : world a ⟨w.machine a, w⟩ = w := world_machine a w
  have hregs : a ∈ (world a ⟨w.machine a, w⟩).registered.keys := hreg
  have hos : K.Owns (world a ⟨w.machine a, w⟩) a := Licence.owns_of_liveAt (w := w) hr hP hl
  have heq := onMachine_eq (φ := φ) (d := d) hr x (a := a)
  rcases hrun : x (callbacks d a) ⟨w.machine a, w⟩ with ⟨v | fault | halt, t⟩
  · rw [hrun] at hends hgoes
    have hmoves := hgoes rfl hregs hos
    rw [hstart] at hmoves
    rw [Within, heq, Run.widen, hrun]
    have hout := moves_of_cons k hreg hmoves
    exact ⟨k.span.weaken hout, fun _ => hout⟩
  · exact fault.elim
  · rw [hrun] at hends hgoes
    have hreaches := hends hregs hos
    rw [hstart] at hreaches
    rw [Within, heq, Run.widen, hrun]
    refine ⟨reaches_of_cons (hr.mem_natives hl) hreaches, fun hfinal => ?_⟩
    have hmoves := hgoes ((isFinal_halt halt).trans hfinal) hregs hos
    rw [hstart] at hmoves
    exact moves_of_cons k hreg hmoves

end Regime

end

/-! ## Operations -/

/-- A regime that all work keeps which its licence permits, apart from collections. -/
structure Regime.Sustained [Observer η] (K : Regime η) : Prop where
  lawful : K.Lawful
  /-- Every machine may be asked to abort. -/
  frank : ∀ vm, Rights.all.Le (K.rights vm)
  runs : K.Runs

/-- A regime that all work keeps which its licence permits. -/
structure Regime.Upheld [Observer η] (K : Regime η) : Prop extends K.Sustained where
  sweeps : K.sweeps → K.Sweeps

/-- Callbacks that keep a regime, whichever machines run. -/
structure Regime.Serves [Observer η] (K : Regime η) (engines : List Address → Engine (Host η)) :
    Prop where
  behaved : ∀ active, K.Behaved active (engines active).delegates
  gathers : K.sweeps → ∀ active, K.Gathers active (engines active)

/-- Callbacks among which machines keep a regime, whichever machines run. -/
structure Regime.Drives [Observer η] (K : Regime η) (engines : List Address → Engine (Host η)) :
    Prop where
  interpret : ∀ {a active}, a ∈ active → ∀ depth module source r,
    Within (K.Turns a active) (K.Ends a active)
      (Machine.interpret (callbacks (engines active).delegates a) depth module source) r
  call : K.calls → ∀ {a active}, a ∈ active → ∀ handle r,
    Within (K.Turns a active) (K.Ends a active)
      (Machine.callHandle (callbacks (engines active).delegates a) handle) r
  gathers : K.sweeps → ∀ active, K.Gathers active (engines active)

/-- Where all runs of machines keep a regime, callbacks that keep it are enough. -/
theorem Regime.Sustained.drives [Observer η] {K : Regime η} (k : K.Sustained)
    {engines : List Address → Engine (Host η)} (h : K.Serves engines) : K.Drives engines where
  interpret ha := k.runs.interpret ha (h.behaved _)
  call hcalls _ _ ha := k.runs.call hcalls ha (h.behaved _)
  gathers := h.gathers

section

variable [Observer η] {K : Regime η} (k : K.Lawful) {active : List Address}
  {w : World (Host η)}
include k

/-- A call into a machine is noted. -/
theorem within_note {c : NativeCall} (h : Deeds K.allows K.powers w (w.note c)) :
    Within (K.Moves active) (K.Reaches active) (noteCall c : Run (World (Host η)) φ Unit) w :=
  k.within_of_deeds (within_of_deeds rfl h)

/-- The result of a run is told without any work. -/
theorem within_told (r : InterpretResult) (w : World (Host η)) :
    Within (K.Moves active) (K.Reaches active)
      (Vm.told r : Run (World (Host η)) φ InterpretResult) w :=
  within_deed k (deed_gets _) w

/-- Texts are checked without any work. -/
theorem within_terminated {f : Unit → Act (Host η) β} (text : String)
    (hf : Within (K.Moves active) (K.Reaches active) (f ()) w) :
    Within (K.Moves active) (K.Reaches active) (terminated text >>= f) w := by
  unfold terminated
  split
  · exact Run.within_fault k.span (HostError.stringConversion _) w
  · exact hf

/-- **A machine is created**, at an address where none lies, or the creation is refused. -/
theorem within_create {service : ServiceId} (config : VmConfig)
    (hservice : service ∈ w.services.keys)
    (hlast : (!w.hasFault .sameVm || w.lastVm?.all w.registered.contains) = true) :
    Within (K.Moves active) (K.Reaches active) (Vm.create service config : Act (Host η) Vm) w := by
  refine Regime.within_of_steady fun hw _ => ?_
  have hcreation := creation_of_roster hw.sound.roster service config hlast
  unfold Within
  generalize Vm.create service config w = run at hcreation ⊢
  cases hcreation with
  | refused => exact Run.within_fault k.span HostError.failedToCreateVm w
  | @clash a _ => exact within_deed k (deed_fatal (.registrationConflict "vm" a)) w
  | @created a ha =>
    refine ⟨k.span.weaken ?moves, fun _ => ?moves⟩
    refine k.span.trans (k.moves_of_chore (.create config.policy ha hservice)
      (moves_withVm config.policy ha hservice)) (k.moves_of_deeds active ?_)
    exact deeds_idle (w.serial + 1) (some a) w.lastHandle? w.lastBlock? w.freeReport?
      (.log _ _ .nothing) rfl

variable {engines : List Address → Engine (Host η)}

/-- A machine runs a program, if its run keeps the regime. -/
theorem within_interpret {vm : VmId} (hP : K.allows vm) (module source : String)
    (hrun : w.LiveAt vm (w.addressOf vm) →
      let a := w.addressOf vm
      let e := engines (a :: active)
      Within (K.Turns a (a :: active)) (K.Ends a (a :: active))
        (Machine.interpret (callbacks e.delegates a) e.importDepth module source)
        ⟨w.machine a, w.note (.enter a)⟩) :
    Within (K.Moves active) (K.Reaches active)
      (Vm.interpret (engines (w.addressOf vm :: active)) vm module source) w := by
  refine within_live k.span fun a hl => ?_
  obtain rfl : w.addressOf vm = a := hl.2
  refine within_terminated k module (within_terminated k source ?_)
  refine Run.within_bind k.span (within_note k (deeds_enter hP hl)) ?_
  rintro _ t ⟨⟩
  exact within_seq k.span (Regime.within_onMachine k (hrun hl) hP hl) fun r t => within_told k r t

/-- A machine calls a method, if its run keeps the regime. -/
theorem within_call {vm : VmId} (hP : K.allows vm) {method : CallHandle}
    (hmade : method ∈ w.host.handles)
    (hrun : w.LiveAt vm (w.addressOf vm) →
      let a := w.addressOf vm
      Within (K.Turns a (a :: active)) (K.Ends a (a :: active))
        (Machine.callHandle (callbacks (engines (a :: active)).delegates a) method.address)
        ⟨w.machine a, w.note (.useHandle a method.address)⟩) :
    Within (K.Moves active) (K.Reaches active)
      (Vm.call (engines (w.addressOf vm :: active)) vm method) w := by
  refine within_live k.span fun a hl => ?_
  obtain rfl : w.addressOf vm = a := hl.2
  refine within_checkedHandle k.span fun hvm hvalid => ?_
  have hlive : w.LiveAt method.vm (w.addressOf vm) := by
    rw [hvm]
    exact hl
  have hPm : K.allows method.vm := hvm.symm ▸ hP
  have huse : Deeds K.allows K.powers w (w.note (.useHandle (w.addressOf vm) method.address)) :=
    (Deed.use hPm hmade hvalid hlive).deeds
  refine Run.within_bind k.span (within_note k huse) ?_
  rintro _ t ⟨⟩
  exact within_seq k.span (Regime.within_onMachine k (hrun hl) hP hl) fun r t => within_told k r t

variable (hgathers : K.sweeps → ∀ active, K.Gathers active (engines active))
include hgathers

theorem within_collect {vm : VmId} (hsweeps : K.sweeps) (hP : K.allows vm) :
    Within (K.Moves active) (K.Reaches active)
      (Vm.collectGarbage (engines (w.addressOf vm :: active)) vm) w := by
  refine within_live k.span fun a hl => ?_
  obtain rfl : w.addressOf vm = a := hl.2
  refine Run.within_bind k.span (within_note k (deeds_enter hP hl)) ?_
  rintro _ t ⟨⟩
  refine Regime.within_onMachine k ?_ hP hl
  exact (hgathers hsweeps _).collects List.mem_cons_self _

omit k in
theorem within_shutdownOf {vm : VmId} (hsweeps : K.sweeps) (hP : K.allows vm)
    (ha : (!(w.vm vm).isAlive || !active.contains (w.addressOf vm)) = true) :
    Within (K.Moves active) (K.Reaches active)
      (Vm.shutdown (engines (w.addressOf vm :: active)) vm : Run (World (Host η)) φ Unit) w := by
  refine (hgathers hsweeps _).frees hP rfl fun halive hin => ?_
  rw [halive, List.contains_iff_mem.2 hin] at ha
  exact absurd ha (by simp)

/-- An operation that keeps the rules and that a licence permits keeps a regime, if no machine runs a
program or calls a method in it. -/
theorem Regime.Lawful.operation (op : Operation η β) (hl : K.Permits op)
    (hg : op.Granted K.rights) (hquiet : op.runs? = none)
    (hop : op.isPermitted active w = true) :
    Within (K.Moves active) (K.Reaches active) (op.run engines active) w := by
  have hdeed : ∀ {x : Act (Host η) β}, IsDeed K.allows K.powers x →
      Within (K.Moves active) (K.Reaches active) x w := fun hx => within_deed k hx w
  cases op with
  | look f => exact hdeed (deed_gets f)
  | keep f =>
    refine k.within_of_moves fun hw hp => k.moves_of_chore (.keep w hl) ?_
    exact (calm_keep f w).moves active
  | misreport faults =>
    have hstep : Calm w { w with faults } :=
      (Step.misreport w hop).calm (Gentle.of_eq rfl rfl fun _ _ => Iff.rfl)
    refine k.within_of_moves fun hw hp => k.moves_of_chore (.misreport w hop) ?_
    exact hstep.moves active
  | newService => exact hdeed deed_newService
  | registerClass service binding => exact hdeed (deed_registerClass hl service binding)
  | registerMethod service binding => exact hdeed (deed_registerMethod hl service binding)
  | registerFinalizer service t finalizer =>
    exact hdeed (deed_registerFinalizer hl service t finalizer)
  | create service config =>
    rw [Operation.isPermitted, Bool.and_eq_true] at hop
    exact within_create k config (Table.contains_iff.1 hop.1) hop.2
  | lookupVm service a => exact hdeed (deed_lookupVm service a)
  | listen vm f => exact hdeed (deed_modifyListeners hl f)
  | access x => exact hdeed (deed_access x hl hg.request hg.destination)
  | makeCallHandle vm signature => exact hdeed (deed_makeCallHandle hl signature)
  | getHandle s => exact hdeed (deed_getHandle hl)
  | setHandle s m =>
    exact k.within_of_deeds (deed_setHandle hl (hg.destination s rfl) (List.contains_iff_mem.1 hop))
  | release m => exact k.within_of_deeds (deed_release hl (List.contains_iff_mem.1 hop))
  | setNewForeignObject s cls object => exact hdeed (deed_setNewForeign hl.2 hl.1 (hg.destination s rfl) cls _ _)
  | setNewForeignStruct s cls value => exact hdeed (deed_setNewForeign hl.2 hl.1 (hg.destination s rfl) cls _ _)
  | setForeignStruct s value => exact hdeed (deed_setForeignStruct hl.2 hl.1 value)
  | interpret | call => cases hquiet
  | collectGarbage vm => exact Run.within_gets_bind (within_collect k hgathers hl.1 hl.2)
  | dispose vm =>
    refine Run.within_gets_bind ?_
    unfold Vm.dispose
    cases hroot : vm.isRoot with
    | true =>
      rw [Operation.isPermitted, hroot] at hop
      exact within_shutdownOf hgathers hl.1 hl.2 hop
    | false => exact hdeed (deed_bind (deed_gets _) fun _ => deed_log _ _)
  | drop vm =>
    refine Run.within_gets_bind ?_
    unfold Vm.drop
    cases hroot : vm.isRoot with
    | true =>
      rw [Operation.isPermitted, hroot] at hop
      exact within_shutdownOf hgathers hl.1 hl.2 hop
    | false => exact within_return k _ w

omit hgathers in
/-- An operation that keeps the rules and that a licence permits keeps a regime that machines keep. -/
theorem Regime.Drives.operation (h : K.Drives engines) (op : Operation η β) (hl : K.Permits op)
    (hg : op.Granted K.rights) (hop : op.isPermitted active w = true) :
    Within (K.Moves active) (K.Reaches active) (op.run engines active) w := by
  cases hruns : op.runs? with
  | none => exact k.operation h.gathers op hl hg hruns hop
  | some =>
    cases op with
    | interpret vm module source =>
      exact Run.within_gets_bind (within_interpret k hl module source fun _ =>
        h.interpret List.mem_cons_self _ _ _ _)
    | call vm m =>
      exact Run.within_gets_bind (within_call k hl.2 (List.contains_iff_mem.1 hop) fun _ =>
        h.call hl.1 List.mem_cons_self _ _)
    | _ => cases hruns

/-! ## Programs -/

omit hgathers in
/-- A program goes on behind an operation that keeps the rules. -/
theorem Regime.Lawful.perform {op : Operation η β} {next : Outcome HostError β → Program η α}
    (hop : ∀ w, op.isPermitted active w = true →
      Within (K.Moves active) (K.Reaches active) (op.run engines active) w)
    (hnext : ∀ outcome w,
      Within (K.Moves active) (K.Reaches active) ((next outcome).run engines active) w)
    (w : World (Host η)) :
    Within (K.Moves active) (K.Reaches active) ((Program.perform op next).run engines active) w := by
  have hwatch : Calm w w.watch := (Step.watch w).calm (Gentle.of_eq rfl rfl fun _ _ => Iff.rfl)
  refine within_seq k.span (k.within_of_moves fun _ _ =>
    k.moves_of_chore (.watch w) (hwatch.moves active)) ?_
  intro _ t
  refine Run.within_get_bind ?_
  split
  · next hpermitted =>
    exact within_seq k.span (Run.within_observed (hop t hpermitted)) hnext
  · exact Run.within_halt k.span _ t

omit hgathers in
/-- A program that a licence permits keeps a regime that machines keep. -/
theorem Regime.Drives.program (h : K.Drives engines) (p : Program η α) (hp : p.Obeys K.toLicence)
    (hfrank : ∀ vm, Rights.all.Le (K.rights vm)) :
    ∀ w, Within (K.Moves active) (K.Reaches active) (p.run engines active) w := by
  induction p with
  | done v => exact fun w => within_return k v w
  | stop halt => exact fun w => Run.within_halt k.span halt w
  | perform op next ih =>
    exact k.perform (fun w hop => h.operation k op hp.1 (op.granted_of_all hfrank) hop)
      fun outcome w => ih outcome (hp.2 outcome) w

end

section

variable [Observer η] {K : Regime η} (k : K.Sustained) {active : List Address}
  {engines : List Address → Engine (Host η)} (h : K.Serves engines)
include k h

/-- **An operation that keeps the rules and that a licence permits keeps its regime.** -/
theorem within_operation (op : Operation η β) {w : World (Host η)} (hl : K.Permits op)
    (hop : op.isPermitted active w = true) :
    Within (K.Moves active) (K.Reaches active) (op.run engines active) w :=
  (k.drives h).operation k.lawful op hl (op.granted_of_all k.frank) hop

/-- **A program that a licence permits keeps its regime**, if callbacks do. -/
theorem within_program (p : Program η α) (hp : p.Obeys K.toLicence) (w : World (Host η)) :
    Within (K.Moves active) (K.Reaches active) (p.run engines active) w :=
  (k.drives h).program k.lawful p hp k.frank w

end

/-! ## Callbacks -/

section

variable {K : Regime η} {active : List Address} {code : Code η}

/-- Functions whose programs keep a regime do so. -/
theorem behaved_delegates [Observer η] (k : K.Lawful) (hfrank : ∀ vm, Rights.all.Le (K.rights vm))
    {Q : ∀ ⦃α : Type⦄, Program η α → Prop} (hcode : code.Each K.allows Q)
    {run : {α : Type} → Program η α → Effect (Host η) α}
    (h : ∀ {α : Type} (p : Program η α) w, Q p →
      Within (K.Moves active) (K.Reaches active) (run p) w) :
    K.Behaved active (code.delegates run) where
  write _ _ _ w hP := h _ w (hcode.write _ _ _ hP)
  error _ _ _ w hP := h _ w (hcode.error _ _ _ hP)
  resolve _ _ _ _ w hP := h _ w (hcode.resolve _ _ _ _ hP)
  load _ _ _ w hP := h _ w (hcode.load _ _ _ hP)
  bindClass _ _ _ _ w hP := h _ w (hcode.bindClass _ _ _ _ hP)
  bindMethod _ _ _ w hP := h _ w (hcode.bindMethod _ _ _ hP)
  settles vm _ := ⟨(hfrank vm).requests trivial, (hfrank vm).writes 0 trivial⟩
  method _ _ w hP := within_seq k.span (Run.within_widen (h _ w (hcode.method _ _ hP)))
    fun result t => Run.within_ofExcept k.span result t
  allocator _ _ w hP := within_seq k.span (Run.within_widen (h _ w (hcode.allocator _ _ hP)))
    fun result t => Run.within_ofExcept k.span result t

theorem finalizers_delegates {Q : ∀ ⦃α : Type⦄, Program η α → Prop}
    (hcode : code.Each K.allows Q) {run : {α : Type} → Program η α → Effect (Host η) α}
    (h : ∀ {α : Type} (p : Program η α) w, Q p →
      Within (K.Moves active) (K.Reaches active) (run p) w) :
    K.Finalizers active (code.delegates run) where
  ofClass _ _ w := h _ w (hcode.classFinalizer _ _)
  ofType _ _ w := h _ w (hcode.typedFinalizer _ _)

section

variable [Observer η] (k : K.Lawful) (hfrank : ∀ vm, Rights.all.Le (K.rights vm))
  (hcode : code.Obeys K.toLicence) {importDepth depth : Nat}
  (h : ∀ d < depth, K.Drives (code.engines importDepth d))
include k hfrank hcode h

/-- Finalizers keep a regime that machines keep among the callbacks below them. -/
theorem finalizers_of_drives (active : List Address) :
    K.Finalizers active (code.engines importDepth depth active).delegates := by
  cases depth with
  | zero => exact finalizers_delegates hcode.each fun _ w _ => Run.within_halt k.span _ w
  | succ depth =>
    exact finalizers_delegates hcode.each fun p w hp =>
      (h depth (by omega)).program k p hp hfrank w

/-- Callbacks other than finalizers do so too. -/
theorem behaved_of_drives (active : List Address) :
    K.Behaved active (code.engines importDepth depth active).delegates := by
  cases depth with
  | zero => exact behaved_delegates k hfrank hcode.each fun _ w _ => Run.within_halt k.span _ w
  | succ depth =>
    exact behaved_delegates k hfrank hcode.each fun p w hp =>
      (h depth (by omega)).program k p hp hfrank w

/-- Callbacks keep a regime that machines keep among the callbacks below them. -/
theorem serves_of_drives (hsweeps : K.sweeps → K.Sweeps) :
    K.Serves (code.engines importDepth depth) where
  behaved := behaved_of_drives k hfrank hcode h
  gathers hs active := k.gathers_of_sweeps (hsweeps hs) (finalizers_of_drives k hfrank hcode h active)

end

/-- Finalizers keep a regime that programs keep. -/
theorem finalizers_engines [Observer η] (k : K.Sustained) (hcode : code.Obeys K.toLicence)
    {importDepth depth : Nat} (h : ∀ d < depth, K.Serves (code.engines importDepth d))
    (active : List Address) :
    K.Finalizers active (code.engines importDepth depth active).delegates :=
  finalizers_of_drives k.lawful k.frank hcode (fun d hd => k.drives (h d hd)) active

/-- Callbacks other than finalizers keep a regime that programs keep. -/
theorem behaved_engines [Observer η] (k : K.Sustained) (hcode : code.Obeys K.toLicence)
    {importDepth depth : Nat} (h : ∀ d < depth, K.Serves (code.engines importDepth d))
    (active : List Address) :
    K.Behaved active (code.engines importDepth depth active).delegates :=
  behaved_of_drives k.lawful k.frank hcode (fun d hd => k.drives (h d hd)) active

/-- **Callbacks keep a regime**, however deep they nest. -/
theorem serves_engines [Observer η] (k : K.Upheld) (hcode : code.Obeys K.toLicence)
    (importDepth depth : Nat) : K.Serves (code.engines importDepth depth) := by
  induction depth using Nat.strongRecOn with
  | ind depth ih =>
    exact serves_of_drives k.lawful k.frank hcode (fun d hd => k.toSustained.drives (ih d hd)) k.sweeps

end

/-! ## Hosts -/

section

variable [Observer η]

theorem upheld_free : (Regime.free : Regime η).Upheld where
  lawful := Regime.lawful_free
  frank _ := Rights.le_all _
  runs := Regime.lawful_free.runs fun _ _ _ _ _ => ⟨trivial, trivial⟩
  sweeps _ _ _ _ _ _ _ := trivial

namespace Setting

/-- The world in which a host begins. -/
def start (s : Setting η) : World (Host η) := .start s.typeNames s.placement s.own

omit [Observer η] in
theorem steady_start (s : Setting η) : Steady [] s.start := by
  refine ⟨Sound.start _ _ _, fun a ha => absurd ha List.not_mem_nil,
    fun a ha => absurd ha List.not_mem_nil, fun a _ => ?_⟩
  have hblank : s.start.machine a = .create 0 := rfl
  rw [hblank]
  exact ⟨rfl, rfl⟩

/-- Finalizers lead from rest to rest, like all functions of a host. -/
theorem finalizers_free (s : Setting η) (depth : Nat) (active : List Address) :
    Regime.free.Finalizers active (s.code.engines s.importDepth depth active).delegates :=
  finalizers_engines upheld_free.toSustained s.code.obeys_free
    (fun d _ => serves_engines upheld_free s.code.obeys_free s.importDepth d) active

theorem within_run (s : Setting η) (p : Program η α) :
    Within (Regime.free.Moves []) (Regime.free.Reaches []) (p.run s.engines []) s.start :=
  within_program upheld_free.toSustained (serves_engines upheld_free s.code.obeys_free s.importDepth s.depth) p
    p.obeys_free s.start

/-- **The world behind any program is reached by steps.** -/
theorem steps_run (s : Setting η) (p : Program η α) : Steps s.start (s.run p).2 :=
  ((s.within_run p).1 s.steady_start trivial).1

/-- **Behind any program that has not ended the process, the world is at rest.** -/
theorem steady_run (s : Setting η) (p : Program η α) (h : (s.run p).1.isFinal = false) :
    Steady [] (s.run p).2 :=
  (((s.within_run p).2 h s.steady_start trivial).1 s.steady_start).2.1

theorem sound_run (s : Setting η) (p : Program η α) : Sound (s.run p).2 :=
  (s.steps_run p).sound s.steady_start.sound

end Setting

end

/-! ## A small host -/

instance : Observer Unit where
  log _ _ h := h
  released _ _ h := h

/-- Where no handles were given out, none is seen to be invalid. -/
theorem World.watch_eq_self {w : World (Host η)} (h : w.host.handles = []) : w.watch = w := by
  rw [watch, h]
  rfl

namespace Program

/-- Performs an operation and goes on with its value.  Anything else ends the process. -/
def ask (op : Operation η β) (next : β → Program η α) : Program η α :=
  .perform op fun outcome =>
    match outcome with
    | .value b => next b
    | _ => .stop .exhausted

/-- A program that goes on behind an operation has seen its value. -/
theorem value_of_ask [Observer η] {engines : List Address → Engine (Host η)} {active : List Address}
    {op : Operation η β} {next : β → Program η α} {w : World (Host η)}
    (h : ((ask op next).run engines active w).1.isFinal = false) :
    ∃ b w', op.run engines active w.watch = (.value b, w') := by
  have hrun : (ask op next).run engines active w =
      (if op.isPermitted active w.watch then
        (op.run engines active).observed >>= fun outcome =>
          (match outcome with
            | .value b => next b
            | _ => .stop .exhausted : Program η α).run engines active
      else Run.halt (.fatal "broken rule") : Effect (Host η) α) w.watch := rfl
  rw [hrun] at h
  split at h
  · change (Run.bind (op.run engines active).observed _ w.watch).1.isFinal = false at h
    rw [Run.bind, Run.observed] at h
    rcases hop : op.run engines active w.watch with ⟨b | e | _ | _ | _, w'⟩
    · exact ⟨b, w', rfl⟩
    all_goals
      rw [hop] at h
      cases h
  · cases h

/-- A host that makes two handles, releases the newer one, and makes another one. -/
def exchange (policy : LeakPolicy) : Program Unit Vm :=
  .ask .newService fun service =>
  .ask (.create service ⟨none, none, none, some policy⟩) fun vm =>
  .ask (.makeCallHandle vm.id "first()") fun _ =>
  .ask (.makeCallHandle vm.id "second()") fun second =>
  .ask (.release second) fun _ =>
  .ask (.makeCallHandle vm.id "third()") fun _ => .done vm

/-- A host that makes a foreign object at a class without a binder, drops it, and disposes of its
machine. -/
def abandon : Program Unit Vm :=
  .ask .newService fun service =>
  .ask (.create service ⟨none, none, none, none⟩) fun vm =>
  .ask (.interpret vm.id "main" "foreign class F \x7b\x7d") fun _ =>
  .ask (.access (.ensureSlots vm.id 2)) fun _ =>
  .ask (.access (.getVariable vm.id "main" "F" ⟨vm.id, 0⟩)) fun _ =>
  .ask (.setNewForeignStruct ⟨vm.id, 1⟩ ⟨vm.id, 0⟩ ⟨.word, (7 : UInt32)⟩) fun _ =>
  .ask (.access (.setNull ⟨vm.id, 1⟩)) fun _ =>
  .ask (.dispose vm) fun _ => .done vm

end Program

namespace Setting

/-- A host that keeps nothing, and whose functions do nothing. -/
def silent : Setting Unit where
  typeNames _ := ""
  placement := .next
  own := ()
  code :=
    { write := fun _ _ _ => .done ()
      error := fun _ _ _ => .done ()
      resolve := fun _ _ _ _ => .done none
      load := fun _ _ _ => .done none
      bindClass := fun _ _ _ _ => .done none
      bindMethod := fun _ _ _ => .done none
      method := fun _ _ => .done (.ok ())
      allocator := fun _ _ => .done (.ok ())
      classFinalizer := fun _ _ => .done ()
      typedFinalizer := fun _ _ => .done () }
  importDepth := 1
  depth := 1

/-- The world behind an exchange of handles. -/
def exchanged (policy : LeakPolicy) : World (Host Unit) := (silent.run (.exchange policy)).2

theorem exchanged_eq (policy : LeakPolicy) :
    ((silent.run (.exchange policy)).1.isFinal, (exchanged policy).vm 1,
      (exchanged policy).host.handles, (exchanged policy).calls) =
    (false, ⟨2, true, 1, policy, .none, [(3, 1), (4, 3)]⟩,
      [⟨3, 1, 1⟩, ⟨4, 2, 1⟩, ⟨4, 3, 1⟩],
      [.makeHandle 2 4, .releaseHandle 2 4, .makeHandle 2 4, .makeHandle 2 3, .create 2]) := by
  cbv

theorem isFinal_exchange (policy : LeakPolicy) :
    (silent.run (.exchange policy)).1.isFinal = false :=
  congrArg (·.1) (exchanged_eq policy)

theorem vm_exchanged (policy : LeakPolicy) :
    (exchanged policy).vm 1 = ⟨2, true, 1, policy, .none, [(3, 1), (4, 3)]⟩ :=
  congrArg (·.2.1) (exchanged_eq policy)

theorem handles_exchanged (policy : LeakPolicy) :
    (exchanged policy).host.handles = [⟨3, 1, 1⟩, ⟨4, 2, 1⟩, ⟨4, 3, 1⟩] :=
  congrArg (·.2.2.1) (exchanged_eq policy)

theorem calls_exchanged (policy : LeakPolicy) :
    (exchanged policy).calls =
      [.makeHandle 2 4, .releaseHandle 2 4, .makeHandle 2 4, .makeHandle 2 3, .create 2] :=
  congrArg (·.2.2.2) (exchanged_eq policy)

/-- The world behind an abandoned object. -/
def abandoned : World (Host Unit) := (silent.run .abandon).2

theorem abandoned_eq :
    ((silent.run .abandon).1.isFinal, (abandoned.vm 1).isAlive, abandoned.tracked 1,
      abandoned.host.strays) = (false, false, [3], [(1, 3)]) := by cbv

end Setting

end ScriptHost.Bridge
