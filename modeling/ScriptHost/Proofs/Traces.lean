import ScriptHost.Proofs.Locations

/-!
# Hosts that run nothing on a machine

While a machine runs, the functions of its host may write its slots, make and release handles, make
foreign objects and collect garbage, and they may run programs on other machines.  None of this moves
the machine.  So where they run no program on the machine itself and call no method of it
(`Code.Spares`), it stands where its own statements have put it (`unmoving_callbacks`), and the report
of the place of an error names the statement that was begun last (`Setting.places_reported`).
-/

namespace ScriptHost.Bridge

open Machine (State Running Callbacks Stays Still Unmoving Placed Adds)
open Run (Within)

variable {η α β : Type}

/-! ## Sparing a machine -/

/-- A program that runs nothing on a machine. -/
def Program.Spares (vm : VmId) : Program η α → Prop
  | .done _ => True
  | .stop _ => True
  | .perform op next => op.runs? ≠ some vm ∧ ∀ outcome, (next outcome).Spares vm

/-- Code none of whose functions runs anything on a machine. -/
abbrev Code.Spares (vm : VmId) (code : Code η) : Prop :=
  code.Each (fun _ => True) fun _ p => p.Spares vm

/-- No work of a host moves a machine. -/
theorem Touch.location {q : Machine.Rights} {m m' : State} (h : Touch q m m') : m'.location = m.location := by
  cases h with
  | edit h => exact h.rewrites.location
  | bear => exact (State.writes_bear m ..).rewrites.location
  | _ => rfl

theorem tends_stays : Tends (fun _ => True) Stays where
  refl := Stays.refl
  trans := Stays.trans
  touch h := ⟨id, .of_eq h.location h.modules⟩
  create := trivial

section

variable [Observer η] {vm : VmId} {a : Address} {active : List Address}
  {engines : List Address → Engine (Host η)}

omit [Observer η] in
/-- A machine that runs anything is not the one that is spared. -/
theorem elsewhere_of_liveAt {w : World (Host η)} {id : VmId} (hr : Roster w) (hne : id ≠ vm)
    (hl : w.LiveAt id (w.addressOf id)) (c : NativeCall) :
    Elsewhere vm a (w.addressOf id) ⟨w.machine (w.addressOf id), w.note c⟩ := by
  intro heq hvm
  have hsame : world (w.addressOf id) ⟨w.machine (w.addressOf id), w.note c⟩ = w.note c :=
    world_machine _ (w.note c)
  rw [hsame] at hvm
  rw [heq] at hl
  exact hne (hr.eq_of_liveAt hl hvm)

/-- **A program that runs nothing on a machine does not move it**, if the functions of the host do
not. -/
theorem within_sparing (h : (Regime.relating vm a Stays : Regime η).Serves engines)
    {p : Program η α} (hp : p.Spares vm) (w : World (Host η)) :
    Within ((Regime.relating vm a Stays).Moves active) ((Regime.relating vm a Stays).Reaches active)
      (p.run engines active) w := by
  have k : (Regime.relating vm a Stays : Regime η).Lawful := lawful_about tends_stays
  induction p generalizing w with
  | done v => exact within_return k v w
  | stop halt => exact Run.within_halt k.span halt w
  | perform op next ih =>
    refine k.perform (fun w hop => ?_) (fun outcome w => ih outcome (hp.2 outcome) w) w
    cases hruns : op.runs? with
    | none =>
      exact k.operation h.gathers op (Licence.permits_free op) (op.granted_of_all (le_rightsAt vm))
        hruns hop
    | some id =>
      have hne : id ≠ vm := fun heq => hp.1 (heq ▸ hruns)
      refine Regime.within_of_steady fun hw _ => ?_
      have hguest := guest_elsewhere tends_stays
        (h.behaved (w.addressOf id :: active)) List.mem_cons_self
      have helse : ∀ c, w.LiveAt id (w.addressOf id) → Elsewhere vm a (w.addressOf id)
          ⟨w.machine (w.addressOf id), w.note c⟩ := fun c hl =>
        elsewhere_of_liveAt hw.sound.roster hne hl c
      cases op with
      | interpret vm' module source =>
        cases hruns
        refine Run.within_gets_bind (within_interpret k trivial module source fun hl => ?_)
        exact (Machine.within_interpret hguest _ module source _).mono
          (fun ht => ht (helse _ hl)) fun ht => ht (helse _ hl)
      | call vm' m =>
        cases hruns
        refine Run.within_gets_bind (within_call k trivial (List.contains_iff_mem.1 hop) fun hl => ?_)
        exact (Machine.within_callHandle hguest m.address _).mono
          (fun ht => ht (helse _ hl)) fun ht => ht (helse _ hl)
      | _ => cases hruns

variable {code : Code η} {importDepth depth : Nat}

/-- **Code that runs nothing on a machine does not move it**, however deep callbacks nest. -/
theorem serves_sparing (hcode : code.Spares vm) :
    (Regime.relating vm a Stays : Regime η).Serves (code.engines importDepth depth) := by
  have k : (Regime.relating vm a Stays : Regime η).Lawful := lawful_about tends_stays
  induction depth with
  | zero =>
    exact ⟨fun active => behaved_delegates k (le_rightsAt vm) hcode fun _ w _ =>
        Run.within_halt k.span _ w,
      fun _ active => k.gathers_of_sweeps (sweeps_about tends_stays)
        (finalizers_delegates hcode fun _ w _ => Run.within_halt k.span _ w)⟩
  | succ depth ih =>
    exact ⟨fun active => behaved_delegates k (le_rightsAt vm) hcode fun _ w hp =>
        within_sparing ih hp w,
      fun _ active => k.gathers_of_sweeps (sweeps_about tends_stays)
        (finalizers_delegates hcode fun _ w hp => within_sparing ih hp w)⟩

/-- The calls of a host that runs nothing on a machine do not move it. -/
theorem unmoving_callbacks (hcode : code.Spares vm) (ha : a ∈ active) :
    Unmoving (Working vm a active)
      (callbacks (code.engines importDepth depth active).delegates a) := by
  have hserves : (Regime.relating vm a Stays : Regime η).Serves (code.engines importDepth depth) :=
    serves_sparing hcode
  have hhosted := hosted_about tends_stays trivial (hserves.behaved active) ha
  simp only [and_true] at hhosted
  exact .of_hosted (fun hok hm => (hok.of_frame hm.toFrame).2) hhosted

end

namespace Setting

variable [Observer η] (s : Setting η) {vm : VmId} {a : Address} {active : List Address}
  {w : World (Host η)}

/-- **The report of the place of an error names the statement that was begun last.**  A host whose
functions run nothing on a machine runs a program there, with any imports.  If the program ends with
an error, the last report names the module and the line of the statement that was begun last.  This is
the innermost one that is under way, but for one case: a statement that has run a module to its end, and
then misses a variable of it, is not named.  The last statement that was begun in the module is, or in
one that this statement imports.

Reports are handed to the listener of the machine. -/
theorem places_reported (depth : Nat) (hspare : s.code.Spares vm) (hw : Steady active w)
    (hl : w.LiveAt vm a) :
    let e := s.code.engines s.importDepth depth (a :: active)
    let cb := callbacks e.delegates a
    let r : Running (World (Host η)) := ⟨w.machine a, w.note (.enter a)⟩
    (∀ module source result w', Vm.interpret e vm module source w = (.value result, w') →
      ∃ own t, Machine.interpret cb e.importDepth module source r = (.value own, t) ∧
        w' = world a t ∧ result = w'.toldResult own ∧
        (own = .runtimeError → Placed cb e.importDepth module source r t)) ∧
    ∀ t, Working vm a (a :: active) t → ∀ listener,
      ((world a t).vm vm).listeners.error? = some listener → ∀ diagnostic,
        cb.report diagnostic t = atHost a (e.delegates.error listener vm diagnostic) t := by
  intro e cb r
  refine ⟨fun module source result w' hrun => ?_,
    fun t ht listener hlistener d => report_of_listener ht hlistener d⟩
  obtain ⟨hnul, own, t, hown, hw', htold⟩ := run_of_interpret hw hl hrun
  refine ⟨own, t, hown, hw', htold, ?_⟩
  rintro rfl
  have hworking : Working vm a (a :: active) r := by
    have hsame : world a r = w.note (.enter a) := world_machine a (w.note (.enter a))
    have hnoted := hw.noted (deeds_enter trivial hl)
    refine ⟨?_, ?_⟩
    · rw [hsame]
      exact hnoted.cons (hnoted.sound.roster.mem_natives hl)
    · rwa [hsame]
  exact Machine.placed_interpret (unmoving_callbacks hspare List.mem_cons_self) ⟨_, rfl⟩
    (Text.strip_of_firstNul? hnul) hworking hown

/-- A host whose modules have two variables. -/
def lacking : Setting Unit :=
  { silent with
    importDepth := 2
    code := { silent.code with load := fun _ _ _ => .done (some "var A = null\nvar B = null") } }

/-- The world of a machine of this host. -/
def lacked : World (Host Unit) := (lacking.run supplying).2

theorem lacked_eq : ((lacking.run supplying).1.isFinal, (lacked.vm 1).isAlive,
    (lacked.vm 1).address) = (false, true, 2) := by
  cbv

theorem spares_lacking (vm : VmId) : lacking.code.Spares vm := by
  constructor <;> intros <;> trivial

/-- A program that imports a variable that these modules do not have, in its third line. -/
def importing : String := "\n\nimport \"m\" for X"

/-- The machine before it runs the program, and the host that it calls. -/
def lackedRun : Running (World (Host Unit)) × Callbacks (World (Host Unit)) :=
  (⟨lacked.machine 2, lacked.note (.enter 2)⟩,
    callbacks (lacking.code.engines 2 1 [2]).delegates 2)

theorem milestones_lacked : Machine.milestones lackedRun.2 2 "main" importing lackedRun.1 =
    [.began ⟨"main", 3⟩, .began ⟨"m", 1⟩, .ended ⟨"m", 1⟩, .began ⟨"m", 2⟩, .ended ⟨"m", 2⟩] := by
  cbv

theorem runModule_lacked : (Machine.runModule lackedRun.2 2 "main" importing lackedRun.1).1 =
    .fault (.runtime (.missingVariable "X" "m")) := by
  cbv

theorem report_lacked (d d' : Diagnostic) :
    ((lackedRun.2.report d >>= fun _ => lackedRun.2.report d')
      (Machine.runModule lackedRun.2 2 "main" importing lackedRun.1).2).1 = .value () := by
  cbv

/-- The import is the only statement that is under way when the variable is found to be missing, and
the report names the second line of the module. -/
theorem places_reported_lacked :
    let r := lackedRun.1
    let cb := lackedRun.2
    let passed := Machine.milestones cb 2 "main" importing r
    lacking.code.Spares 1 ∧ Steady [] lacked ∧ lacked.LiveAt 1 2 ∧
      Machine.underWay [] passed = [⟨"main", 3⟩] ∧
      Machine.lastBegun r.machine.location passed = ⟨"m", 2⟩ ∧
      ∃ t, Machine.interpret cb 2 "main" importing r = (.value .runtimeError, t) ∧
        Placed cb 2 "main" importing r t := by
  intro r cb passed
  have hend : (lacking.run supplying).1.isFinal = false := congrArg (·.1) lacked_eq
  have hlive : lacked.LiveAt 1 2 := ⟨congrArg (·.2.1) lacked_eq, congrArg (·.2.2) lacked_eq⟩
  have hsteady : Steady [] lacked := lacking.steady_run supplying hend
  have hpassed : passed = _ := milestones_lacked
  refine ⟨spares_lacking 1, hsteady, hlive, by rw [hpassed]; rfl, by rw [hpassed]; rfl, ?_⟩
  obtain ⟨t, hreported⟩ := Machine.reported_of_reports report_lacked
    (Machine.RuntimeError.missingVariable "X" "m").message
  have hinterpret : Machine.interpret cb 2 "main" importing r = (.value .runtimeError, t) := by
    rw [← hreported]
    rcases hrun : Machine.runModule cb 2 "main" importing r with ⟨o, u⟩
    obtain rfl : o = .fault (.runtime (.missingVariable "X" "m")) := by
      rw [← runModule_lacked]
      exact (congrArg Prod.fst hrun).symm
    rw [Machine.interpret_of_fault hrun]
  have hvm := interpret_of_run (e := lacking.code.engines 2 1 [2]) hsteady hlive
    (by decide +kernel) (by decide +kernel) hinterpret
  obtain ⟨own, t', hown, -, -, htraced⟩ :=
    (lacking.places_reported 1 (spares_lacking 1) hsteady hlive).1 _ _ _ _ hvm
  cases hown.symm.trans hinterpret
  exact ⟨t, hinterpret, htraced rfl⟩

end Setting

end ScriptHost.Bridge
