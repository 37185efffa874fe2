import ScriptHost.Proofs.Pins
import ScriptHost.Proofs.Tending

/-!
# Hosts cannot take a value from a running evaluation

While a machine runs, its host may do anything but call methods by their handles: write slots, make
lists and maps and foreign objects, take and release handles, collect garbage, end other machines,
and run further programs on the same machine.  All of that leaves a machine whole, and leaves the pins
and the saved frames of the evaluation that runs (`upheld_tended`).  So evaluation among the
callbacks of a host is careful (`careful_callbacks`), and what it uses stays on the heap.

A method that is called by its handle runs on slots that nothing pins, and is left out.
-/

namespace ScriptHost.Machine

/-- A machine is whole if it was, and what belongs to the running evaluation is as it was. -/
structure State.Tended (m m' : State) : Prop where
  whole : m.Whole → m'.Whole
  kept : State.Kept m m'

end ScriptHost.Machine

namespace ScriptHost.Bridge

open Machine (State Running Callbacks Careful Sure Safe Lasting)
open Run (Within)

variable {η α : Type}

/-- **Work of a host leaves a machine whole, and its evaluation alone.** -/
theorem Touch.tended {q : Machine.Rights} {m m' : State} (h : Touch q m m') : State.Tended m m' := by
  refine ⟨fun hm => ?_, h.kept⟩
  cases h with
  | nothing => exact hm
  | edit h => exact h.whole hm
  | storeHandle x ht =>
    -- what is handed out is named by the machine
    refine hm.storeHandle x fun v hv => ?_
    subst hv
    obtain ⟨index, rfl⟩ := ht
    exact hm.slot index
  | releaseHandle x => exact hm.releaseHandle x
  | bear => exact (hm.newForeign _ _ _).tagBlock _ _
  | sweep => exact hm.sweep
  | beginFinalizer | endFinalizer => exact hm.reroot rfl fun v hv => Or.inl hv

theorem tends_whole : Tends State.Whole State.Kept where
  refl := .refl
  trans _ _ _ := .trans
  touch h := ⟨h.tended.whole, h.tended.kept⟩
  create := State.whole_create 0

/-! ## Work of hosts -/

/-- Code that calls no method by its handle. -/
def Licence.uncalled : Licence η := { Licence.free with calls := False }

/-- A program that asks for permitted operations only. -/
theorem Program.obeys_ask {l : Licence η} {β : Type} {op : Operation η β} {next : β → Program η α}
    (hop : l.Permits op) (hnext : ∀ b, (next b).Obeys l) : (Program.ask op next).Obeys l := by
  refine ⟨hop, fun outcome => ?_⟩
  cases outcome with
  | value b => exact hnext b
  | fault | halt => trivial

/-- The machine `vm` at `a` is whole as long as it is alive, and its evaluation is left alone. -/
def Regime.tended (vm : VmId) (a : Address) : Regime η :=
  .about .uncalled vm a State.Whole State.Kept

/-! ## Runs among callbacks -/

/-- The machine runs, and nothing dangles. -/
structure Ready (vm : VmId) (a : Address) (active : List Address)
    (r : Running (World (Host η))) : Prop where
  steady : Steady active (world a r)
  live : (world a r).LiveAt vm a
  whole : r.machine.Whole

section

variable {l : Licence η} {vm : VmId} {a : Address} {active : List Address} {d : Delegates (Host η)}
  {r t : Running (World (Host η))}

theorem Ready.working (h : Ready vm a active r) : Working vm a active r := ⟨h.steady, h.live⟩

/-- **Evaluation among the callbacks of a host is careful**, if its functions keep the regime. -/
theorem careful_callbacks [Observer η] (hvm : l.allows vm)
    (h : (Regime.about l vm a State.Whole State.Kept).Behaved active d) (ha : a ∈ active) :
    Careful (Ready vm a active) (Passes active a) (Leaves vm a active State.Whole) (callbacks d a) where
  span := (route_passes active).mono fun h => ⟨h.working, h.whole⟩
  whole := Ready.whole
  own hok hm hwhole := by
    obtain ⟨hmoves, hworking⟩ := hok.working.of_frame hm
    exact ⟨hmoves, hworking.steady, hworking.live, hwhole⟩
  hosted := by
    refine (hosted_about tends_whole hvm h ha).mono (fun {r t} hgoes hok => ?_)
      fun {r t} hends hok => hends ⟨hok.working, hok.whole⟩
    obtain ⟨hmoves, ⟨hworking, hwhole⟩, hkept⟩ := hgoes ⟨hok.working, hok.whole⟩
    exact ⟨hmoves, ⟨hworking.steady, hworking.live, hwhole⟩, hkept⟩
  contained := contained_callbacks

/-- What a careful machine does lasts. -/
theorem lasting_of_safe {x y : Run (Running (World (Host η))) Empty α}
    (hx : Safe (Ready vm a active) (Passes active a) (Leaves vm a active State.Whole) x y r) :
    Lasting (fun r => Working vm a active r ∧ r.machine.Whole) (Passes active a) (Leaves vm a active State.Whole)
      State.Kept (fun _ => True) x r where
  value b t ht := by
    obtain ⟨hmoves, hready, hkept⟩ := hx.value b t ht
    exact ⟨hmoves, ⟨hready.working, hready.whole⟩, hkept⟩
  fault e := e.elim
  halt := hx.halt

/-- **Runs of programs keep the regime**, whichever machine they run on. -/
theorem runs_tended [Observer η] (vm : VmId) (a : Address) :
    (Regime.tended vm a : Regime η).Runs := by
  refine runs_about tends_whole fun ha h => ⟨fun {r} hr depth module source => ?_, False.elim⟩
  have hready : Ready vm a _ r := ⟨hr.1.steady, hr.1.live, hr.2⟩
  exact lasting_of_safe (y := Machine.interpret ((callbacks _ a).guarded .exhausted) depth module
    source) (Machine.safe_interpret (careful_callbacks trivial h ha) depth module source hready)

/-- **All work but calls of methods by their handles leaves a machine whole.** -/
theorem upheld_tended [Observer η] (vm : VmId) (a : Address) :
    (Regime.tended vm a : Regime η).Upheld where
  lawful := lawful_about tends_whole
  frank _ := le_rightsAt _ _
  runs := runs_tended vm a
  sweeps _ := sweeps_about tends_whole

end

/-! ## Runs of a host -/

namespace Setting

variable [Observer η] (s : Setting η) {vm : VmId} {a : Address} {active : List Address}

/-- **Nothing dangles in a machine behind any program** of a host that calls no method by its
handle. -/
theorem whole_run (hcode : s.code.Obeys .uncalled) {p : Program η α} (hp : p.Obeys .uncalled)
    (hend : (s.run p).1.isFinal = false) (hl : (s.run p).2.LiveAt vm a) :
    ((s.run p).2.machine a).Whole := by
  have k : (Regime.tended vm a : Regime η).Upheld := upheld_tended vm a
  have hmoves := (within_program k.toSustained (serves_engines k hcode s.importDepth s.depth) p hp s.start).2
    hend s.steady_start fun hlive => absurd hlive.1 Bool.false_ne_true
  exact hmoves.2.1 hl

/-- **A running evaluation keeps what it uses**, whatever its host does but calling methods by their
handles.  In a state where nothing dangles, the value of an expression is on the heap.  Functions of
the host are called in such states only, with their frames in the slots: an alarm in front of them is
never heard.  Behind a run, and behind any program of the host on the way, nothing dangles either. -/
theorem nothing_dangles (hcode : s.code.Obeys .uncalled) (depth : Nat)
    {r : Running (World (Host η))} (ha : a ∈ active) (hw : Steady active (world a r))
    (hl : (world a r).LiveAt vm a) (hwhole : r.machine.Whole) :
    let cb := callbacks (s.code.engines s.importDepth depth active).delegates a
    (∀ alarm module e,
      Machine.eval (cb.guarded alarm) module e r = Machine.eval cb module e r ∧
      ∀ v t, Machine.eval cb module e r = (.value v, t) →
        t.machine.heap.Holds v ∧ t.machine.Whole) ∧
    (∀ alarm nesting module source,
      Machine.interpret (cb.guarded alarm) nesting module source r =
        Machine.interpret cb nesting module source r ∧
      ∀ result t, Machine.interpret cb nesting module source r = (.value result, t) →
        t.machine.Whole) ∧
    ∀ (α : Type) (p : Program η α), p.Obeys .uncalled → ∀ outcome w,
      p.run (s.code.engines s.importDepth depth) active (world a r) = (outcome, w) →
        outcome.isFinal = false → w.LiveAt vm a ∧ (w.machine a).Whole := by
  have k : (Regime.tended vm a : Regime η).Upheld := upheld_tended vm a
  have hserves := serves_engines k hcode s.importDepth depth
  have c := careful_callbacks trivial (hserves.behaved active) ha
  have hready : Ready vm a active r := ⟨hw, hl, hwhole⟩
  intro cb
  refine ⟨fun alarm module e => ?_, fun alarm nesting module source => ?_, ?_⟩
  · have heval : Sure (Ready vm a active) (Passes active a) (Leaves vm a active State.Whole)
        (Machine.eval cb module e) (Machine.eval (cb.guarded alarm) module e)
        (fun v m => State.Kept r.machine m ∧ m.heap.Holds v) (State.Kept r.machine) r :=
      Machine.sure_eval c module e hready
    refine ⟨heval.same, fun v t hrun => ?_⟩
    obtain ⟨-, hok, -, hholds⟩ := heval.value v t hrun
    exact ⟨hholds, hok.whole⟩
  · have hrun : Safe (Ready vm a active) (Passes active a) (Leaves vm a active State.Whole)
        (Machine.interpret cb nesting module source)
        (Machine.interpret (cb.guarded alarm) nesting module source) r :=
      Machine.safe_interpret c nesting module source hready
    refine ⟨hrun.same, fun result t ht => ?_⟩
    obtain ⟨-, hok, -⟩ := hrun.value result t ht
    exact hok.whole
  · intro α p hp outcome w hrun hend
    obtain ⟨-, hlive, hwhole, -⟩ :=
      hready.working.of_program hready.whole ha k.toSustained hserves hp hrun hend
    exact ⟨hlive, hwhole⟩

/-- A host that collects garbage whenever a machine writes. -/
def tidying : Setting Unit :=
  { silent with
    code := { silent.code with
      write := fun _ vm _ => .ask (.collectGarbage vm) fun _ => .done () } }

/-- A host that makes a machine and listens to what it writes. -/
def listening : Program Unit Vm :=
  .ask .newService fun service =>
  .ask (.create service ⟨none, none, none, none⟩) fun vm =>
  .ask (.listen vm.id fun l => { l with write? := some 1 }) fun _ => .done vm

/-- The world of a machine that is listened to. -/
def listened : World (Host Unit) := (tidying.run listening).2

theorem listened_eq :
    ((tidying.run listening).1.isFinal, (listened.vm 1).isAlive, (listened.vm 1).address) =
      (false, true, 2) := by
  cbv

theorem obeys_tidying : tidying.code.Obeys .uncalled where
  write _ _ _ _ := Program.obeys_ask ⟨trivial, trivial⟩ fun _ => trivial
  error _ _ _ _ := trivial
  resolve _ _ _ _ _ := trivial
  load _ _ _ _ := trivial
  bindClass _ _ _ _ _ := trivial
  bindMethod _ _ _ _ := trivial
  method _ _ _ := trivial
  allocator _ _ _ := trivial
  classFinalizer _ _ := trivial
  typedFinalizer _ _ := trivial

theorem obeys_listening : listening.Obeys .uncalled :=
  Program.obeys_ask trivial fun _ => Program.obeys_ask trivial fun _ =>
    Program.obeys_ask trivial fun _ => trivial

/-- The machine is ready to run. -/
theorem working_listened : Working 1 2 [2] ⟨listened.machine 2, listened⟩ := by
  have hend : (tidying.run listening).1.isFinal = false := congrArg (·.1) listened_eq
  have hl : listened.LiveAt 1 2 := ⟨congrArg (·.2.1) listened_eq, congrArg (·.2.2) listened_eq⟩
  have hsteady : Steady [] listened := tidying.steady_run listening hend
  constructor
  · rw [world_machine]
    exact hsteady.cons (hsteady.sound.roster.mem_natives hl)
  · rw [world_machine]
    exact hl

/-- The script `System.print([null])`. -/
def printed : Script.Expr := .call (.variable "System" 1) "print" [.list [.null]]

set_option maxRecDepth 4000 in
theorem eval_printed :
    (Machine.eval (callbacks (tidying.code.engines 1 1 [2]).delegates 2) "main" printed
      ⟨listened.machine 2, listened⟩).1 = .value (.object 3) := by
  cbv

/-- A list is written and returned, and garbage is collected twice before it is. -/
theorem nothing_dangles_printed :
    let r : Running (World (Host Unit)) := ⟨listened.machine 2, listened⟩
    let cb := callbacks (tidying.code.engines 1 1 [2]).delegates 2
    Steady [2] (world 2 r) ∧ (world 2 r).LiveAt 1 2 ∧ r.machine.Whole ∧
      ∃ t, Machine.eval (cb.guarded (.fatal "alarm")) "main" printed r = (.value (.object 3), t) ∧
        t.machine.heap.Holds (.object 3) ∧ t.machine.Whole := by
  intro r cb
  have hend : (tidying.run listening).1.isFinal = false := congrArg (·.1) listened_eq
  obtain ⟨hs, hl⟩ := working_listened
  have hlive : listened.LiveAt 1 2 := by rwa [world_machine] at hl
  have hwhole : r.machine.Whole := tidying.whole_run obeys_tidying obeys_listening hend hlive
  obtain ⟨heval, -⟩ := tidying.nothing_dangles obeys_tidying 1 List.mem_cons_self hs hl hwhole
  obtain ⟨hsame, hheld⟩ := heval (.fatal "alarm") "main" printed
  have hvalue : Machine.eval cb "main" printed r =
      (.value (.object 3), (Machine.eval cb "main" printed r).2) := Prod.ext eval_printed rfl
  exact ⟨hs, hl, hwhole, _, hsame.trans hvalue, hheld _ _ hvalue⟩

end Setting

end ScriptHost.Bridge
