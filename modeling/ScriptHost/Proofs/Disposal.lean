import ScriptHost.Proofs.Collection
import ScriptHost.Proofs.Sweep

/-!
# The end of a machine

Disposing of a machine settles what is left of its handles, gives the machine up, and frees it.  Under
the policy that forces handles, they are released in the reverse order of their creation, each by the
same step as an ordinary release (`forceRelease_eq`); under the other one the disposal stops
(`settleLeaks_of_panic`).  In both cases a machine that is given up has no handles, and one that is
freed has no objects.
-/

namespace ScriptHost.Bridge

open Machine (State Running Call Callbacks Dead)
open Run (Within)

variable {η φ α : Type} [Observer η] {P : VmId → Prop} {S : Powers}

/-! ## Settling handles -/

/-- The handles of a machine are struck off its list. -/
def World.cleared (w : World η) (vm : VmId) : World η :=
  w.modifyVm vm fun r => { r with outstanding := [] }

omit [Observer η] in
theorem World.cleared_of_nil {w : World η} {vm : VmId} (h : (w.vm vm).outstanding = []) :
    w.cleared vm = w := by
  have hfix : w.vms.modify vm (fun r => { r with outstanding := [] }) = w.vms := by
    refine Table.modify_of_fixed fun r hr => ?_
    rw [World.vm, hr] at h
    have hnil : r.outstanding = [] := h
    rw [← hnil]
  rw [World.cleared, World.modifyVm, hfix]

omit [Observer η] in
/-- A release strikes its handle off a list that is empty behind it. -/
theorem World.cleared_withoutHandle (w : World η) (h : CallHandle) (a : Address) :
    (w.withoutHandle h a).cleared h.vm =
      { (w.cleared h.vm) with
        calls := .releaseHandle a h.address :: w.calls
        natives := (w.putMachine a ((w.machine a).releaseHandle h.address)).natives
        handles := w.handles.erase h.address } := by
  simp only [World.cleared, World.modifyVm, World.withoutHandle, Table.modify_modify]

/-- A record has been written to the log. -/
def World.logged (w : World η) (level : LogLevel) (text : String) : World η :=
  { w with host := Observer.log level text w.host }

theorem deeds_logged (w : World (Host η)) (level : LogLevel) (text : String) :
    Deeds P S w (w.logged level text) :=
  deeds_idle w.serial w.lastVm? w.lastHandle? w.lastBlock? w.freeReport? (.log _ _ .nothing) rfl

/-- How a handle is released by force. -/
def World.forced (w : World (Host η)) (h : CallHandle) (a : Address) : World (Host η) :=
  { w.withoutHandle h a with
    host := Observer.log .debug ("vm " ++ Text.Hex.address a ++ ": force-released handle " ++
      Text.Hex.address h.address) (Observer.released a h.address w.host) }

theorem deeds_forced {w : World (Host η)} {h : CallHandle} {a : Address} (hP : P h.vm)
    (hmade : h ∈ w.host.handles) (hv : w.isValid h = true) (hl : w.LiveAt h.vm a) :
    Deeds P S w (w.forced h a) :=
  (Deed.release hP hmade hv hl).deeds.trans
    (deeds_idle w.serial w.lastVm? w.lastHandle? w.lastBlock? w.freeReport?
      (.log _ _ (.released _ _ .nothing)) rfl)

/-- Releasing by force does the work of a release on a machine whose list has been cleared. -/
theorem forceRelease_cons {w : World (Host η)} {h : CallHandle} {a : Address}
    (hv : w.isValid h = true) (rest : List (Address × Nat)) :
    (Vm.forceRelease a (h.key :: rest) : Run (World (Host η)) φ Unit) (w.cleared h.vm) =
      Vm.forceRelease a rest ((w.forced h a).cleared h.vm) := by
  have hforget := forgetHandle_eq (φ := φ) (w.cleared h.vm) h.address h.id
  have hlive : (w.cleared h.vm).isLiveHandle h.address h.id = true := hv
  rw [if_pos hlive] at hforget
  have hnext : (w.forced h a).cleared h.vm =
      { (w.withoutHandle h a).cleared h.vm with host := (w.forced h a).host } := rfl
  rw [hnext, World.cleared_withoutHandle]
  refine (Run.bind_of_value hforget _).trans ?_
  rfl

/-- **All handles of a machine are released, the newest one first.** -/
theorem forceRelease_eq {vm : VmId} {a : Address} (hP : P vm) :
    ∀ (l : List (Address × Nat)) {w : World (Host η)}, Sound w → w.LiveAt vm a →
      (w.vm vm).outstanding.reverse = l →
      ∃ w', (Vm.forceRelease a l : Run (World (Host η)) φ Unit) (w.cleared vm) = (.value (), w') ∧
        Deeds P S w w' ∧ (w'.vm vm).outstanding = [] ∧
        w'.calls = l.reverse.map (fun e => .releaseHandle a e.1) ++ w.calls := by
  intro l
  induction l with
  | nil =>
    intro w hs hl hout
    have hnil : (w.vm vm).outstanding = [] := List.reverse_eq_nil_iff.1 hout
    refine ⟨w, ?_, Deeds.refl w, hnil, rfl⟩
    rw [World.cleared_of_nil hnil]
    rfl
  | cons e rest ih =>
    intro w hs hl hout
    have hlist : (w.vm vm).outstanding = rest.reverse ++ [e] := by
      rw [← List.reverse_reverse (w.vm vm).outstanding, hout, List.reverse_cons]
    -- the newest handle on the list is a valid handle of the host
    have hin : e ∈ (w.openHandles vm).map CallHandle.key := by
      rw [← hs.books.outstanding, hlist]
      exact List.mem_append_right _ (List.mem_singleton_self e)
    obtain ⟨h, hopen, rfl⟩ := List.mem_map.1 hin
    obtain ⟨hmade, rfl, hv⟩ := Books.mem_openHandles.1 hopen
    have hdeeds : Deeds P S w (w.forced h a) := deeds_forced hP hmade hv hl
    obtain ⟨hsteps, hgentle⟩ := hdeeds.calm hs
    have hrest : ((w.forced h a).vm h.vm).outstanding.reverse = rest := by
      have hmod : ((w.forced h a).vm h.vm).outstanding =
          (w.vm h.vm).outstanding.filter fun e => e ≠ h.key :=
        congrArg VmRecord.outstanding (World.vm_modifyVm_self (World.mem_vms_of_isAlive hl.1) _)
      have hnodup := hs.books.nodup_outstanding h.vm
      rw [hlist, List.nodup_append] at hnodup
      have hkeep : rest.reverse.filter (fun e => e ≠ h.key) = rest.reverse := by
        refine List.filter_eq_self.2 fun e he => decide_eq_true ?_
        exact hnodup.2.2 e he h.key (List.mem_singleton_self _)
      rw [hmod, hlist, List.filter_append, hkeep]
      simp
    obtain ⟨w', hrun, hdeeds', hnil, hcalls⟩ :=
      ih (hsteps.sound hs) ((hgentle.live h.vm a).2 hl) hrest
    refine ⟨w', (forceRelease_cons hv rest).trans hrun, hdeeds.trans hdeeds', hnil, ?_⟩
    have hfirst : (w.forced h a).calls = .releaseHandle a h.key.1 :: w.calls := rfl
    rw [hcalls, hfirst, List.reverse_cons, List.map_append, List.append_assoc]
    rfl

theorem settleLeaks_of_nil {w : World η} {vm : VmId} (h : (w.vm vm).outstanding = []) :
    (Vm.settleLeaks vm : Run (World η) φ Unit) w = (.value (), w) := by
  have hempty : (w.vm vm).outstanding.isEmpty = true := by rw [h]; rfl
  change (if (w.vm vm).outstanding.isEmpty then pure ()
    else _ : Run (World η) φ Unit) w = _
  rw [if_pos hempty]
  rfl

/-- **Under the policy to panic, handles that were never released stop the disposal**, and only the
log has changed. -/
theorem settleLeaks_of_panic {w : World η} {vm : VmId} (h : (w.vm vm).outstanding ≠ [])
    (hpolicy : (w.vm vm).policy = .panic) :
    (Vm.settleLeaks vm : Run (World η) φ Unit) w =
      (.halt (.panic (Vm.leakMessage (w.vm vm).address (w.vm vm).outstanding.length)),
        w.logged .error
          (Vm.leakMessage (w.vm vm).address (w.vm vm).outstanding.length)) := by
  have hempty : ¬ (w.vm vm).outstanding.isEmpty = true := by simpa using h
  unfold Vm.settleLeaks
  refine (Run.bind_of_value rfl _).trans ?_
  rw [if_neg hempty, hpolicy]
  rfl

/-- **Under the other policy all handles are released**, the newest one first. -/
theorem settleLeaks_of_forceRelease {w : World (Host η)} (hs : Sound w) {vm : VmId} {a : Address}
    (hP : P vm) (hl : w.LiveAt vm a) (hpolicy : (w.vm vm).policy = .forceRelease) :
    ∃ w', (Vm.settleLeaks vm : Run (World (Host η)) φ Unit) w = (.value (), w') ∧
      Deeds P S w w' ∧
      (w'.vm vm).outstanding = [] ∧
      w'.calls = (w.vm vm).outstanding.map (fun e => .releaseHandle a e.1) ++ w.calls := by
  by_cases h : (w.vm vm).outstanding = []
  · exact ⟨w, settleLeaks_of_nil h, Deeds.refl w, h, by rw [h]; rfl⟩
  · have hempty : ¬ (w.vm vm).outstanding.isEmpty = true := by simpa using h
    let message := Vm.leakMessage (w.vm vm).address (w.vm vm).outstanding.length
    let w₁ : World (Host η) := w.logged .warn (message ++ "; releasing them")
    have hlog : Deeds P S w w₁ := deeds_logged w _ _
    have hs₁ : Sound w₁ := (hlog.calm hs).1.sound hs
    obtain ⟨w', hrun, hdeeds, hnil, hcalls⟩ := forceRelease_eq (φ := φ) (S := S) hP
      (w.vm vm).outstanding.reverse hs₁ (show w₁.LiveAt vm a from hl) rfl
    rw [List.reverse_reverse] at hcalls
    refine ⟨w', ?_, hlog.trans hdeeds, hnil, hcalls⟩
    rw [← hrun, ← hl.2]
    unfold Vm.settleLeaks
    refine (Run.bind_of_value rfl _).trans ?_
    rw [if_neg hempty, hpolicy]
    rfl

/-! ## Freeing -/

section

variable {active : List Address} {a : Address} {vm : VmId} {w : World (Host η)}

omit [Observer η] in
/-- A machine without outstanding handles holds none. -/
theorem handles_of_outstanding (hs : Sound w) (hl : w.LiveAt vm a)
    (hout : (w.vm vm).outstanding = []) : (w.machine a).handles.size = 0 := by
  have hopen : w.openHandles vm = [] := by
    rw [hs.books.outstanding, List.map_eq_nil_iff] at hout
    exact hout
  have hkeys : (w.machine a).handles.keys = [] := by
    refine List.eq_nil_iff_forall_not_mem.2 fun x hx => ?_
    obtain ⟨h, hm, hvm, -, hv⟩ := (hs.books.native vm a hl x).1 hx
    have hin : h ∈ w.openHandles vm := Books.mem_openHandles.2 ⟨hm, hvm, hv⟩
    rw [hopen] at hin
    exact absurd hin List.not_mem_nil
  have hlen := congrArg List.length hkeys
  rwa [Table.keys, List.length_map] at hlen

omit [Observer η] in
/-- A machine that was given up counts among those that run. -/
theorem Steady.retired (hw : Steady active w) (hl : w.LiveAt vm a)
    (hout : (w.vm vm).outstanding = []) : Steady (a :: active) (w.retired vm a) := by
  refine ⟨(Step.retire hl hout).sound hw.sound, fun b hb => ?_, fun b hb => ?_, fun b hb => ?_⟩
  · rcases List.mem_cons.1 hb with rfl | hb
    · exact hw.sound.roster.mem_natives hl
    · exact hw.native b hb
  · by_cases hba : b = a
    · exact Or.inr (List.mem_cons.2 (Or.inl hba))
    · rcases hw.listed b hb with hreg | hin
      · exact Or.inl (Table.mem_keys_erase.2 ⟨hba, hreg⟩)
      · exact Or.inr (List.mem_cons_of_mem _ hin)
  · exact hw.quiet b fun hin => hb (List.mem_cons_of_mem _ hin)

omit [Observer η] in
theorem held_retired (vm : VmId) {b : Address} (hne : b ≠ a) : Held w (w.retired vm a) b :=
  ⟨Table.find?_erase_ne _ hne, rfl, rfl, fun _ => rfl⟩

/-- The world behind the end of a machine. -/
def World.discarded (w : World η) (a : Address) (report? : Option FreeReport) : World η :=
  { w with natives := w.natives.erase a, freeReport? := report? }

omit [Observer η] in
theorem machine_discarded_self (report? : Option FreeReport) :
    (w.discarded a report?).machine a = .create 0 := by
  simp [World.machine, World.discarded, Table.find?_erase_self]

omit [Observer η] in
theorem machine_discarded_ne {b : Address} (hne : b ≠ a) (report? : Option FreeReport) :
    (w.discarded a report?).machine b = w.machine b := by
  simp [World.machine, World.discarded, Table.find?_erase_ne _ hne]

omit [Observer η] in
/-- An empty machine that was given up leaves the world, and the others stay as they are. -/
theorem moves_discarded (hw : Steady (a :: active) w) (ha : a ∉ active)
    (hreg : a ∉ w.registered.keys) (hheap : (w.machine a).heap.objects = .empty)
    (hswept : (w.machine a).swept = []) (hfinalizing : (w.machine a).finalizing = [])
    (report? : Option FreeReport) :
    Step w (w.discarded a report?) ∧ Steady active (w.discarded a report?) ∧
      ∀ b ∈ active, Held w (w.discarded a report?) b := by
  have hstep : Step w (w.discarded a report?) :=
    .discard report? hreg hheap hswept hfinalizing
  have hne : ∀ b ∈ active, b ≠ a := by
    rintro b hb rfl
    exact ha hb
  refine ⟨hstep, ⟨hstep.sound hw.sound, fun b hb => ?_, fun b hb => ?_, fun b hb => ?_⟩,
    fun b hb => ?_⟩
  · exact Table.mem_keys_erase.2 ⟨hne b hb, hw.native b (List.mem_cons_of_mem _ hb)⟩
  · obtain ⟨hba, hb⟩ := Table.mem_keys_erase.1 hb
    rcases hw.listed b hb with hreg | hin
    · exact Or.inl hreg
    · exact Or.inr ((List.mem_cons.1 hin).resolve_left hba)
  · by_cases hba : b = a
    · rw [hba, machine_discarded_self]
      exact ⟨rfl, rfl⟩
    · rw [machine_discarded_ne hba]
      exact hw.quiet b fun hin => hb ((List.mem_cons.1 hin).resolve_left hba)
  · have hsame := machine_discarded_ne (w := w) (hne b hb) report?
    exact ⟨rfl, by rw [hsame], by rw [hsame], fun _ => by rw [hsame]⟩

variable {e : Engine (Host η)} {K : Regime η}
  {F G : Dead → World (Host η) → World (Host η) → Prop}

/-- A machine is emptied, its objects are finalized, and it leaves the world with a report. -/
structure Regime.Emptied (K : Regime η) (F G : Dead → World (Host η) → World (Host η) → Prop)
    (active : List Address) (a : Address) (w : World (Host η)) (outcome : Outcome φ Unit)
    (w' : World (Host η)) : Prop where
  final : outcome.isFinal = true →
    Until F G (w.machine a).drain.1 (w.putMachine a (w.machine a).drain.2) w'
  value : outcome.isFinal = false → ∃ t,
    Each F (w.machine a).drain.1 (w.putMachine a (w.machine a).drain.2) t ∧
      K.pre w' ∧ K.rel active t w' ∧
      w'.freeReport? = some ⟨(w.machine a).handles.size, (t.machine a).finalized⟩

/-- **A machine that was given up is finalized and leaves the world**, with a report of the handles
that it held. -/
theorem endMachine_ends (k : K.Lawful) (hlays : K.Lays F G (a :: active) a e.delegates)
    (ha : a ∉ active) (hw : Steady (a :: active) w) (hp : K.pre w) (hreg : a ∉ w.registered.keys)
    (hswept : (w.machine a).swept = []) (hfinalizing : (w.machine a).finalizing = [])
    {outcome : Outcome φ Unit} {w' : World (Host η)}
    (hrun : (Vm.endMachine e a : Run (World (Host η)) φ Unit) w = (outcome, w')) :
    Steps w w' ∧ K.Emptied F G active a w outcome w' ∧
      (outcome.isFinal = false → outcome = .value () ∧ Steady active w' ∧
        (∀ b ∈ active, Held w w' b) ∧
        ∃ n, w'.freeReport? = some ⟨(w.machine a).handles.size, n⟩) := by
  have hmem : a ∈ a :: active := List.mem_cons_self
  have hn : a ∈ w.natives.keys := hw.native a hmem
  have hne : ∀ b ∈ active, b ≠ a := by
    rintro b hb rfl
    exact ha hb
  obtain ⟨⟨hends, huntil⟩, hgoes⟩ := within_shutdown k hlays hmem hw hp hreg
  have hmachine := onMachine_eq (φ := φ) (d := e.delegates) hw.sound.roster
    (fun cb => Machine.shutdown cb) (a := a)
  rcases hdown : Machine.shutdown (callbacks e.delegates a) ⟨w.machine a, w⟩ with
    ⟨leaked | fault | halt, t⟩
  · rw [hdown] at hgoes
    obtain ⟨hsteps, hspent, hpt, heach⟩ := hgoes rfl
    obtain rfl := leaked_shutdown hdown
    let report : FreeReport := ⟨(w.machine a).handles.size, ((world a t).machine a).finalized⟩
    have hon : (onMachine e.delegates a Machine.shutdown : Run (World (Host η)) φ Nat) w =
        (.value (w.machine a).handles.size, world a t) := by
      rw [hmachine, Run.widen, hdown]
      rfl
    have hend : (outcome, w') = (.value (), ((world a t).discarded a (some report)).logged .trace
        ("mock vm freed: FreeReport \x7b leaked_handles: " ++ toString report.leakedHandles ++
          ", finalized_objects: " ++ toString report.finalizedObjects ++ " \x7d")) := by
      rw [← hrun]
      exact Run.bind_of_value hon _
    cases hend
    have hregt : a ∉ (world a t).registered.keys := by
      rw [← Table.find?_eq_none_iff, hspent.registered]
      exact Table.find?_eq_none_iff.2 hreg
    have hheap : ((world a t).machine a).heap.objects = .empty := by
      rw [hspent.heap hreg, World.machine_putMachine_self hn]
      exact Machine.Heap.objects_drain _
    have hfin : ((world a t).machine a).finalizing = [] := by
      rw [hspent.finalizing, World.machine_putMachine_self hn]
      exact hfinalizing
    have hsweptt : ((world a t).machine a).swept = [] := hspent.swept.trans hswept
    obtain ⟨hstep, hsteady, hheld⟩ :=
      moves_discarded hspent.steady ha hregt hheap hsweptt hfin (some report)
    obtain ⟨hpd, hreld⟩ := k.chore hspent.steady.sound hpt
      (.discard (some report) hregt hheap hsweptt hfin)
    obtain ⟨hmoves, hpl, hrell⟩ := k.moves_of_deeds active
      (deeds_logged ((world a t).discarded a (some report)) _ _) hsteady hpd
    obtain ⟨hlast, hsteady', hheld'⟩ := hmoves hsteady
    refine ⟨(hsteps.tail hstep).trans hlast, ⟨fun hend => ?_, fun _ => ?_⟩,
      fun _ => ⟨rfl, hsteady', fun b hb => ?_, ?_⟩⟩
    · exact absurd hend (by simp [Outcome.isFinal])
    · exact ⟨world a t, heach, hpl, k.trans (hreld active) hrell, rfl⟩
    · have hdrained : Held w (w.putMachine a (w.machine a).drain.2) b := by
        have hsame := World.machine_putMachine_ne w (hne b hb) (w.machine a).drain.2
        exact ⟨rfl, by rw [hsame], by rw [hsame], fun _ => by rw [hsame]⟩
      have hspentb := hspent.held b (List.mem_cons_of_mem _ hb) (hne b hb)
      exact ((hdrained.trans hspentb).trans (hheld b hb)).trans (hheld' b hb)
    · exact ⟨_, rfl⟩
  · exact fault.elim
  · rw [hdown] at hends huntil
    have hon : (onMachine e.delegates a Machine.shutdown : Run (World (Host η)) φ Nat) w =
        (.halt halt, world a t) := by
      rw [hmachine, Run.widen, hdown]
      rfl
    have hend : (outcome, w') = (.halt halt, world a t) := by
      rw [← hrun]
      exact Run.bind_of_halt hon _
    cases hend
    have hfinal : (Outcome.halt halt : Outcome φ Unit).isFinal = true := by
      rw [← isFinal_halt halt]
      exact contained_shutdown (d := e.delegates) (a := a) _ _ _ hdown
    refine ⟨hends, ⟨fun _ => huntil, fun hgo => ?_⟩, fun hgo => ?_⟩
    · rw [hfinal] at hgo
      exact absurd hgo (by simp)
    · rw [hfinal] at hgo
      exact absurd hgo (by simp)

/-! ## Disposing -/

theorem shutdown_of_dead (h : (w.vm vm).isAlive = false) :
    (Vm.shutdown e vm : Run (World (Host η)) φ Unit) w = (.value (), w) := by
  change (if !(w.vm vm).isAlive then pure () else _ : Run (World (Host η)) φ Unit) w = _
  rw [h]
  rfl

/-- The handles of a machine that is alive are settled first. -/
theorem shutdown_of_live (hl : w.LiveAt vm a) :
    (Vm.shutdown e vm : Run (World (Host η)) φ Unit) w =
      (Vm.settleLeaks vm >>= fun _ => (fun u =>
        (Vm.endMachine e a >>= fun _ => log .debug ("disposed vm " ++ Text.Hex.address a))
          (u.retired vm a) : Run (World (Host η)) φ Unit)) w := by
  change (if !(w.vm vm).isAlive then pure () else (Vm.settleLeaks vm >>= fun _ => _) :
    Run (World (Host η)) φ Unit) w = _
  rw [hl.1, ← hl.2]
  rfl

/-- A machine whose handles are settled is given up, and then ended. -/
theorem shutdown_of_settled (hl : w.LiveAt vm a) {w' : World (Host η)}
    (hsettled : (Vm.settleLeaks vm : Run (World (Host η)) φ Unit) w = (.value (), w')) :
    (Vm.shutdown e vm : Run (World (Host η)) φ Unit) w =
      (Vm.endMachine e a >>= fun _ => log .debug ("disposed vm " ++ Text.Hex.address a))
        (w'.retired vm a) :=
  (shutdown_of_live hl).trans (Run.bind_of_value hsettled _)

theorem shutdown_of_halt (hl : w.LiveAt vm a) {halt : Halt} {w' : World (Host η)}
    (hsettled : (Vm.settleLeaks vm : Run (World (Host η)) φ Unit) w = (.halt halt, w')) :
    (Vm.shutdown e vm : Run (World (Host η)) φ Unit) w = (.halt halt, w') :=
  (shutdown_of_live hl).trans (Run.bind_of_halt hsettled _)

/-- **A machine whose handles are settled is freed**, whatever its finalizers do. -/
theorem shutdown_ends (k : K.Lawful) (hlays : K.Lays F G (a :: active) a e.delegates)
    (ha : a ∉ active) (hP : K.allows vm) (hw : Steady active w) (hp : K.pre w)
    (hl : w.LiveAt vm a) {w₁ : World (Host η)}
    (hsettled : (Vm.settleLeaks vm : Run (World (Host η)) φ Unit) w = (.value (), w₁))
    (hdeeds : Deeds K.allows K.powers w w₁) (hout : (w₁.vm vm).outstanding = [])
    {outcome : Outcome φ Unit} {w' : World (Host η)}
    (hrun : (Vm.shutdown e vm : Run (World (Host η)) φ Unit) w = (outcome, w')) :
    Steps (w₁.retired vm a) w' ∧ K.Emptied F G active a (w₁.retired vm a) outcome w' ∧
      (outcome.isFinal = false → outcome = .value () ∧ Steady active w' ∧
        (∀ b ∈ active, Held w w' b) ∧ ∃ n, w'.freeReport? = some ⟨0, n⟩) := by
  obtain ⟨hmoves, hp₁, -⟩ := k.moves_of_deeds active hdeeds hw hp
  obtain ⟨-, hw₁, hheld₁⟩ := hmoves hw
  have hl₁ : w₁.LiveAt vm a := ((hdeeds.calm hw.sound).2.live vm a).2 hl
  have hzero := handles_of_outstanding hw₁.sound hl₁ hout
  obtain ⟨hpr, -⟩ := k.chore hw₁.sound hp₁ (.retire hP hl₁ hout)
  have hreg : a ∉ (w₁.retired vm a).registered.keys :=
    fun hin => (Table.mem_keys_erase.1 hin).1 rfl
  obtain ⟨hswept, hfin⟩ := hw₁.quiet a ha
  rw [shutdown_of_settled hl hsettled] at hrun
  rcases hend : (Vm.endMachine e a : Run (World (Host η)) φ Unit) (w₁.retired vm a) with ⟨o, t⟩
  obtain ⟨hends, hemptied, hgoes⟩ :=
    endMachine_ends k hlays ha (hw₁.retired hl₁ hout) hpr hreg hswept hfin hend
  rcases o with v | fault | halt
  · rw [Run.bind_of_value hend] at hrun
    cases hrun
    obtain ⟨-, hsteady, hheld, n, hreport⟩ := hgoes rfl
    obtain ⟨w₂, heach, hpt, hrel, htold⟩ := hemptied.value rfl
    obtain ⟨hmoves', hpl, hrell⟩ := k.moves_of_deeds active
      (deeds_logged t .debug ("disposed vm " ++ Text.Hex.address a)) hsteady hpt
    obtain ⟨hlast, hsteady', hheld'⟩ := hmoves' hsteady
    refine ⟨hends.trans hlast, ⟨fun hend => ?_, fun _ => ⟨w₂, heach, hpl, k.trans hrel hrell, htold⟩⟩,
      fun _ => ⟨rfl, hsteady', fun b hb => ?_, n, ?_⟩⟩
    · exact absurd hend (by simp [Outcome.isFinal])
    · have hne : b ≠ a := by
        rintro rfl
        exact ha hb
      exact (((hheld₁ b hb).trans (held_retired vm hne)).trans (hheld b hb)).trans (hheld' b hb)
    · have hsize : ((w₁.retired vm a).machine a).handles.size = 0 := hzero
      rw [hsize] at hreport
      exact hreport
  · have hvalue := (hgoes rfl).1
    exact absurd hvalue (by simp)
  · rw [Run.bind_of_halt hend] at hrun
    cases hrun
    refine ⟨hends, ⟨hemptied.final, fun hfinal => ?_⟩, fun hfinal => ?_⟩
    · have hvalue := (hgoes hfinal).1
      exact absurd hvalue (by simp)
    · have hvalue := (hgoes hfinal).1
      exact absurd hvalue (by simp)

/-- The end of a machine keeps a regime, if what is done about its objects does. -/
def Regime.Empties (K : Regime η) (F G : Dead → World (Host η) → World (Host η) → Prop)
    (active : List Address) (a : Address) : Prop :=
  ∀ ⦃φ : Type⦄ ⦃w₂ w' : World (Host η)⦄ ⦃outcome : Outcome φ Unit⦄,
    K.Emptied F G active a w₂ outcome w' → Steady (a :: active) w₂ → K.pre w₂ →
      a ∉ w₂.registered.keys → (outcome.isFinal = true → K.ends w₂ w') ∧
        (outcome.isFinal = false → K.pre w' ∧ K.rel active w₂ w')

/-- A machine that does not run and is freed leads from rest to rest. -/
theorem Regime.Lawful.empties (k : K.Lawful)
    (hdrain : ∀ {w}, Sound w → K.pre w → a ∈ w.natives.keys → a ∉ w.registered.keys →
      ∀ active, K.rel active w (w.putMachine a (w.machine a).drain.2)) :
    K.Empties (fun _ w w' => K.pre w' ∧ K.rel (a :: active) w w') (fun _ => K.ends) active a := by
  intro φ w₂ w' outcome h hw hp hreg
  have hn : a ∈ w₂.natives.keys := hw.native a List.mem_cons_self
  have hpd := k.sweeping hw.sound hp (.drain hn hreg)
  have hreld := hdrain hw.sound hp hn hreg
  refine ⟨fun hend => ?_, fun hend => ?_⟩
  · exact k.append (hreld active) ((h.final hend).ends k hpd)
  · obtain ⟨t, heach, hp', hrel, -⟩ := h.value hend
    exact ⟨hp', k.trans (hreld active) (k.trans (k.leave (heach.rel k)) hrel)⟩

/-- **Freeing a machine that does not run leads from rest to rest**, a panic about its handles
included. -/
theorem within_shutdownVm (k : K.Lawful) (hP : K.allows vm)
    (hlays : K.Lays F G (w.addressOf vm :: active) (w.addressOf vm) e.delegates)
    (hempties : K.Empties F G active (w.addressOf vm))
    (ha : (w.vm vm).isAlive = true → w.addressOf vm ∉ active) :
    Within (K.Moves active) (K.Reaches active)
      (Vm.shutdown e vm : Run (World (Host η)) φ Unit) w := by
  refine Regime.within_of_steady fun hw hp => ?_
  cases halive : (w.vm vm).isAlive with
  | false =>
    refine Within.of_rel k.span ?_
    rw [shutdown_of_dead halive]
    exact k.span.refl w
  | true =>
    have hl : w.LiveAt vm (w.addressOf vm) := ⟨halive, rfl⟩
    -- what is settled goes on, and nothing else does
    have hgo : ∀ w₁, (Vm.settleLeaks vm : Run (World (Host η)) φ Unit) w = (.value (), w₁) →
        Deeds K.allows K.powers w w₁ → (w₁.vm vm).outstanding = [] →
        Within (K.Moves active) (K.Reaches active)
          (Vm.shutdown e vm : Run (World (Host η)) φ Unit) w := by
      intro w₁ hsettled hdeeds hout
      obtain ⟨hends, hemptied, hgoes⟩ :=
        shutdown_ends k hlays (ha halive) hP hw hp hl hsettled hdeeds hout rfl
      obtain ⟨hmoves, hp₁, hrel₁⟩ := k.moves_of_deeds active hdeeds hw hp
      obtain ⟨hsteps, hw₁, -⟩ := hmoves hw
      have hl₁ : w₁.LiveAt vm (w.addressOf vm) := ((hdeeds.calm hw.sound).2.live vm _).2 hl
      have hchore : Chore K w₁ (w₁.retired vm (w.addressOf vm)) := .retire hP hl₁ hout
      obtain ⟨hpr, hrelr⟩ := k.chore hw₁.sound hp₁ hchore
      have hretire := hchore.step hw₁.sound
      obtain ⟨hfinal, hvalue⟩ := hempties hemptied (hw₁.retired hl₁ hout) hpr
        fun hin => (Table.mem_keys_erase.1 hin).1 rfl
      refine ⟨fun _ _ => ⟨hsteps.trans (.head hretire hends), ?_⟩,
        fun hend _ _ => ⟨fun _ => ?_, ?_⟩⟩
      · cases hf : ((Vm.shutdown e vm : Run (World (Host η)) φ Unit) w).1.isFinal with
        | true => exact k.append hrel₁ (k.append (hrelr active) (hfinal hf))
        | false =>
          obtain ⟨hp', hrel'⟩ := hvalue hf
          exact k.weaken hp' (k.trans hrel₁ (k.trans (hrelr active) hrel'))
      · obtain ⟨-, hsteady, hheld, -⟩ := hgoes hend
        exact ⟨hsteps.trans (.head hretire hends), hsteady, hheld⟩
      · obtain ⟨hp', hrel'⟩ := hvalue hend
        exact ⟨hp', k.trans hrel₁ (k.trans (hrelr active) hrel')⟩
    by_cases hout : (w.vm vm).outstanding = []
    · exact hgo w (settleLeaks_of_nil hout) (Deeds.refl w) hout
    · cases hpolicy : (w.vm vm).policy with
      | panic =>
        have hsettled := settleLeaks_of_panic (φ := φ) hout hpolicy
        refine Within.of_rel k.span ?_
        rw [shutdown_of_halt hl hsettled]
        exact k.moves_of_deeds active (deeds_logged w _ _)
      | forceRelease =>
        obtain ⟨w₁, hsettled, hdeeds, hnil, -⟩ :=
          settleLeaks_of_forceRelease (φ := φ) hw.sound hP hl hpolicy
        exact hgo w₁ hsettled hdeeds hnil

end

/-! ## What collects -/

/-- Collections and ends of machines that keep a regime, among the callbacks of an engine. -/
structure Regime.Gathers (K : Regime η) (active : List Address) (e : Engine (Host η)) : Prop where
  collects : ∀ {a}, a ∈ active → ∀ r, Within (K.Turns a active) (K.Ends a active)
    (Machine.collectGarbage (callbacks e.delegates a)) r
  frees : ∀ {φ : Type} {vm : VmId} {rest : List Address} {w : World (Host η)}, K.allows vm →
    w.addressOf vm :: rest = active → ((w.vm vm).isAlive = true → w.addressOf vm ∉ rest) →
      Within (K.Moves rest) (K.Reaches rest)
        (Vm.shutdown e vm : Run (World (Host η)) φ Unit) w

/-- **Collections and ends of machines keep a regime**, if what leaves the heap does, and what is done
about it. -/
theorem Regime.Lawful.gathers {K : Regime η} (k : K.Lawful) {active : List Address}
    {e : Engine (Host η)}
    (hsweep : ∀ {w a}, Sound w → K.pre w → K.Owns w a → a ∈ w.natives.keys →
      ∀ active, K.rel active w (w.putMachine a (w.machine a).sweep.2))
    (hdrain : ∀ {w a}, Sound w → K.pre w → a ∈ w.natives.keys → a ∉ w.registered.keys →
      ∀ active, K.rel active w (w.putMachine a (w.machine a).drain.2))
    (hlays : ∀ a ∈ active, K.Lays (fun _ w w' => K.pre w' ∧ K.rel active w w')
      (fun _ => K.ends) active a e.delegates) : K.Gathers active e where
  collects ha r := within_collecting k (fun hs hp ho hn => hsweep hs hp ho hn active)
    (hlays _ ha) ha r
  frees hP heq ha := by
    subst heq
    exact within_shutdownVm k hP (hlays _ List.mem_cons_self) (k.empties hdrain) ha

/-- **Collections and ends of machines keep a regime**, if finalizers do and each of their own steps
does. -/
theorem Regime.Lawful.gathers_of_sweeps {K : Regime η} (k : K.Lawful) (hsweeps : K.Sweeps)
    {active : List Address} {e : Engine (Host η)} (h : K.Finalizers active e.delegates) :
    K.Gathers active e :=
  k.gathers (fun hs hp ho hn => hsweeps hs hp (.sweep ho hn))
    (fun hs hp hn hreg => hsweeps hs hp (.drain hn hreg)) fun _ ha => k.lays hsweeps h ha

end ScriptHost.Bridge
