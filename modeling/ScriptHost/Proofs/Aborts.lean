import ScriptHost.Proofs.Accessors
import ScriptHost.Proofs.Requests

/-!
# What becomes of a request to abort

A host function asks to abort by leaving a value with its machine, and may go on as it likes.  When it
comes back without an error of its own, the call ends with the text of the value, unless the value is
null.  The machine keeps one such value for all calls that are under way: entering a call forgets it,
and so does leaving one.  So the last request of a function decides about its call, provided that no
host function of the same machine is called behind it and nobody else asks; and a call during which
nobody asks but the functions that it nests ends with the value in its first slot
(`Setting.aborts_settled`).
-/

namespace ScriptHost.Bridge

open Machine (State Running Call Value)
open Run (Within)

variable {η α β : Type}

/-! ## Requests -/

/-- The value with which an operation asks a machine to abort. -/
def Access.error? (w : World η) : Access β → Option Value
  | .abortFiber vm s => some ((w.machine (w.addressOf vm)).slot s.index)
  | .abortFiberWithMessage _ message => some (.ofText message)
  | _ => none

/-- The value with which an operation asks a machine to abort. -/
def Operation.error? (w : World (Host η)) : Operation η β → Option Value
  | .access x => x.error? w
  | _ => none

section

variable {w t : World η} {vm : VmId} {a : Address} {error : Value}

/-- What is written behind the check of a slot is written into the machine of the slot. -/
theorem of_changeNative {s : Slot} {operation : String} {f : State → State} (hl : w.LiveAt s.vm a)
    (ha : a ∈ w.natives.keys)
    (h : (do
      let b ← s.checked operation
      changeNative b f : Act η Unit) w = (.value (), t)) :
    s.index < (w.machine a).slots.length ∧ t.LiveAt s.vm a ∧ a ∈ t.natives.keys ∧
      t.machine a = f (w.machine a) := by
  obtain ⟨b, u, hchecked, hwrite⟩ := Run.value_of_bind h
  obtain ⟨hlb, hindex, hintact⟩ := slot_of_checked hchecked
  obtain rfl : b = a := hlb.2.symm.trans hl.2
  cases hwrite
  have hnative : b ∈ (u.note (.enter b)).natives.keys := by
    rw [show (u.note (.enter b)).natives = u.natives from rfl, hintact.natives_eq]
    exact ha
  refine ⟨hindex, ?_, World.mem_natives_putMachine.2 hnative, ?_⟩
  · have hlive : u.LiveAt s.vm b := by
      rwa [World.LiveAt, hintact.vm_eq]
    exact hlive
  · change ((u.note (.enter b)).putMachine b (f ((u.note (.enter b)).machine b))).machine b = _
    rw [World.machine_putMachine_self hnative]
    exact congrArg f (hintact.machine_eq b)

/-- A machine is left with the value in the slot that it is asked to abort with. -/
theorem abortRequest?_of_abortFiber {s : Slot} (hl : w.LiveAt vm a) (ha : a ∈ w.natives.keys)
    (h : Vm.abortFiber vm s w = (.value (), t)) :
    (t.machine a).abortRequest? = some ((w.machine a).slot s.index) := by
  obtain ⟨_, u, hsame, hrest⟩ := Run.value_of_bind h
  obtain ⟨rfl, rfl⟩ : s.vm = vm ∧ u = w := by
    unfold Slot.ensureSameVm at hsame
    split at hsame
    · next hvm =>
      cases hsame
      exact ⟨hvm, rfl⟩
    · cases hsame
  obtain ⟨-, -, -, hmachine⟩ := of_changeNative hl ha hrest
  rw [hmachine]
  rfl

/-- **An operation that asks a machine to abort leaves its value with the machine.** -/
theorem abortRequest?_of_access {x : Access β} {v : β} (hl : w.LiveAt vm a)
    (ha : a ∈ w.natives.keys) (hreq : x.request? = some vm) (herror : x.error? w = some error)
    (h : x.run w = (.value v, t)) : (t.machine a).abortRequest? = some error := by
  cases x with
  | abortFiber vm' s =>
    cases hreq
    cases herror
    rw [abortRequest?_of_abortFiber hl ha h, show w.addressOf vm = a from hl.2]
  | abortFiberWithMessage vm' message =>
    cases hreq
    cases herror
    obtain ⟨_, w₁, hensure, hrest⟩ := Run.value_of_bind h
    obtain ⟨_, w₂, hset, habort⟩ := Run.value_of_bind hrest
    obtain ⟨hl₁, ha₁⟩ : w₁.LiveAt vm a ∧ a ∈ w₁.natives.keys := by
      unfold Vm.ensureSlots at hensure
      rw [Run.bind_of_value (live_of_alive hl.1 _), hl.2] at hensure
      cases hensure
      exact ⟨hl, World.mem_natives_putMachine.2 ha⟩
    obtain ⟨hindex, hl₂, ha₂, hmachine⟩ := of_changeNative (s := ⟨vm, 0⟩) hl₁ ha₁ hset
    rw [abortRequest?_of_abortFiber hl₂ ha₂ habort, hmachine]
    exact congrArg some (State.slot_setSlot_self (w₁.machine a) (.ofText message) hindex)
  | _ => cases hreq

end

/-! ## Programs on their way -/

/-- A program has come from one world to another, where the rest of it goes on. -/
inductive Program.Leads [Observer η] (engines : List Address → Engine (Host η))
    (active : List Address) :
    Program η α → World (Host η) → Program η α → World (Host η) → Prop where
  | refl (p : Program η α) (w : World (Host η)) : Leads engines active p w p w
  | step {γ : Type} {op : Operation η γ} {next : Outcome HostError γ → Program η α}
      {outcome : Outcome HostError γ} {q : Program η α} {w t u : World (Host η)}
      (hop : op.isPermitted active w.watch = true)
      (hrun : ((op.run engines active).observed : Effect (Host η) (Outcome HostError γ)) w.watch =
        (.value outcome, t))
      (h : Leads engines active (next outcome) t q u) : Leads engines active (.perform op next) w q u

section

variable [Observer η] {engines : List Address → Engine (Host η)} {active : List Address}
  {p q : Program η α} {w u : World (Host η)}

theorem Program.run_perform {op : Operation η β} {next : Outcome HostError β → Program η α}
    {outcome : Outcome HostError β} {t : World (Host η)}
    (hop : op.isPermitted active w.watch = true)
    (hrun : ((op.run engines active).observed : Effect (Host η) (Outcome HostError β)) w.watch =
      (.value outcome, t)) :
    (Program.perform op next).run engines active w = (next outcome).run engines active t := by
  have hperform : (Program.perform op next).run engines active w =
      (if op.isPermitted active w.watch = true then
        (op.run engines active).observed >>= fun outcome => (next outcome).run engines active
      else Run.halt (.fatal "broken rule") : Effect (Host η) α) w.watch := rfl
  rw [hperform, if_pos hop, Run.bind_of_value hrun]

/-- A program ends as the rest of it does. -/
theorem Program.Leads.run_eq (h : Leads engines active p w q u) :
    p.run engines active w = q.run engines active u := by
  induction h with
  | refl => rfl
  | step hop hrun _ ih => exact (Program.run_perform hop hrun).trans ih

variable {base : World (Host η)} {vm : VmId} {a : Address}

/-- A machine that serves its classes still does behind an operation. -/
theorem Serving.of_operation (ha : a ∈ active)
    (hserves : (Regime.cataloguing : Regime η).Serves engines) {op : Operation η β}
    (hw : Serving base vm a active ⟨w.machine a, w⟩) (hop : op.isPermitted active w.watch = true)
    {outcome : Outcome HostError β} {t : World (Host η)}
    (hrun : ((op.run engines active).observed : Effect (Host η) (Outcome HostError β)) w.watch =
      (.value outcome, t)) :
    Serving base vm a active ⟨t.machine a, t⟩ := by
  have k : (Regime.cataloguing : Regime η).Lawful := lawful_cataloguing
  have hwatch : Calm w w.watch := (Step.watch w).calm (Gentle.of_eq rfl rfl fun _ _ => Iff.rfl)
  have hfirst := k.moves_of_chore (.watch w) (hwatch.moves active)
  have hlast : Within (Regime.cataloguing.Moves active) (Regime.cataloguing.Reaches active)
      ((op.run engines active).observed : Effect (Host η) (Outcome HostError β)) w.watch :=
    Run.within_observed (within_operation upheld_cataloguing.toSustained hserves op
      (Licence.permits_free op) hop)
  rw [Within, hrun] at hlast
  refine (hw.of_turns ha fun _ _ => ?_).1
  rw [world_machine, world_machine]
  exact k.span.trans hfirst (hlast.2 rfl)

theorem Serving.of_leads (ha : a ∈ active)
    (hserves : (Regime.cataloguing : Regime η).Serves engines) (h : p.Leads engines active w q u)
    (hw : Serving base vm a active ⟨w.machine a, w⟩) :
    Serving base vm a active ⟨u.machine a, u⟩ := by
  induction h with
  | refl => exact hw
  | step hop hrun _ ih => exact ih (hw.of_operation ha hserves hop hrun)

omit [Observer η] in
/-- A machine that serves its classes does so in the world of its run. -/
theorem Serving.at_world {r : Running (World (Host η))} (h : Serving base vm a active r) :
    Serving base vm a active ⟨(world a r).machine a, world a r⟩ := by
  obtain ⟨⟨hsteady, hlive⟩, hcatalogued, hadvances⟩ := h
  rw [← world_machine a (world a r)] at hsteady hlive hcatalogued hadvances
  exact ⟨⟨hsteady, hlive⟩, hcatalogued, hadvances⟩

omit [Observer η] in
theorem Serving.at_machine {w : World (Host η)} (h : Serving base vm a active ⟨w.machine a, w⟩) :
    Steady active w ∧ Catalogued w ∧ w.LiveAt vm a := by
  have hworld : world a ⟨w.machine a, w⟩ = w := world_machine a w
  refine ⟨?_, ?_, ?_⟩
  · rw [← hworld]
    exact h.steady
  · rw [← hworld]
    exact h.catalogued
  · rw [← hworld]
    exact h.live

/-- **A machine waits behind a muted program with what it has waited with**, if it waits with no error,
or if its own methods and allocators are barred. -/
theorem abortRequest?_of_muted {code : Code η} {importDepth depth : Nat}
    {own : Program η (Except HostError Unit) → Program η (Except HostError Unit)} {c : Option Value}
    {outcome : Outcome Empty α} (ha : a ∈ active)
    (hown : c = none ∨ own = Program.barred) (hw : Serving base vm a active ⟨w.machine a, w⟩)
    (hrun : (p.muted vm).run ((code.hushed vm own).engines importDepth depth) active w = (outcome, u))
    (hend : outcome.isFinal = false) (hc : (w.machine a).abortRequest? = c) :
    (u.machine a).abortRequest? = c := by
  have hwithin : Within ((Regime.patient vm a c).Moves active)
      ((Regime.patient vm a c).Reaches active)
      ((p.muted vm).run ((code.hushed vm own).engines importDepth depth) active) w :=
    within_muted hown depth p w
  obtain ⟨hsteady, hcatalogued, hl⟩ := hw.at_machine
  rw [Within, hrun] at hwithin
  obtain ⟨hmoves, -, -, hkept⟩ := hwithin.2 hend hsteady hcatalogued
  have hlive : u.LiveAt vm a := by
    have hheld := (hmoves hsteady).2.2 a ha
    refine ((hmoves hsteady).2.1.sound.roster.registered a vm).1 ?_
    rw [hheld.registered]
    exact (hsteady.sound.roster.registered a vm).2 hl
  exact (hkept (hsteady.sound.roster.known vm (World.mem_vms_of_isAlive hl.1)) hlive).2 hc

end

/-! ## Calls of host functions -/

/-- A call of a host function by its machine, and the program that the function is. -/
inductive Foreign [Observer η] (code : Code η) (d : Delegates (Host η)) (vm : VmId) (a : Address) :
    Call (World (Host η)) Unit → Program η (Except HostError Unit) → Prop where
  | method (f : Delegate) : Foreign code d vm a (executes d a vm f) (code.method f vm)
  | allocator (f : Delegate) : Foreign code d vm a (allocates d a vm f) (code.allocator f vm)

/-- A function that comes back without an error leaves its call to what the machine waits with. -/
theorem callForeign_of_foreign [Observer η] {code : Code η} {importDepth depth : Nat} {vm : VmId}
    {a : Address} {active : List Address} {function : Call (World (Host η)) Unit}
    {body : Program η (Except HostError Unit)} {r : Running (World (Host η))}
    {frame : List Value} {u : World (Host η)}
    (h : Foreign code (code.engines importDepth (depth + 1) active).delegates vm a function body)
    (hrun : body.run (code.engines importDepth depth) active (world a (r.entered frame)) =
      (.value (.ok ()), u)) :
    (Machine.callForeign function frame r).1 = (u.machine a).answer := by
  have hfunction : ∀ what, atHost a (do
      Trampoline.settle vm (← Run.attempt (do
        Run.ofExcept (← (body.run (code.engines importDepth depth) active).widen))) what)
      (r.entered frame) = (.value (), ⟨u.machine a, u⟩) := by
    intro what
    have hwiden : ((body.run (code.engines importDepth depth) active).widen :
        Act (Host η) (Except HostError Unit)) (world a (r.entered frame)) =
          (.value (.ok ()), u) := by
      rw [Run.widen, hrun]
    have hact : (do Run.ofExcept (← (body.run (code.engines importDepth depth) active).widen) :
        Act (Host η) Unit) (world a (r.entered frame)) = (.value (), u) := by
      rw [Run.bind_of_value hwiden]
      rfl
    have hsealed : (do
        Trampoline.settle vm (← Run.attempt (do
          Run.ofExcept (← (body.run (code.engines importDepth depth) active).widen))) what :
        Effect (Host η) Unit).sealed (world a (r.entered frame)) = (.value (), u) := by
      rw [Run.sealed, Run.bind_of_value (Run.attempt_of_value hact)]
      rfl
    unfold atHost
    rw [show (r.entered frame).host.putMachine a (r.entered frame).machine =
      world a (r.entered frame) from rfl, hsealed]
  have hcall : function (r.entered frame) = (.value (), ⟨u.machine a, u⟩) := by
    cases h with
    | method f => exact hfunction "foreign method"
    | allocator f => exact hfunction "allocator"
  rw [Machine.callForeign_of_value hcall]

/-- A machine that enters a frame still serves its classes, and waits with no error. -/
theorem Serving.entered {base : World (Host η)} {vm : VmId} {a : Address} {active : List Address}
    {r : Running (World (Host η))} (ha : a ∈ active) (hr : Serving base vm a active r)
    (frame : List Value) :
    Serving base vm a active
        ⟨(world a (r.entered frame)).machine a, world a (r.entered frame)⟩ ∧
      ((world a (r.entered frame)).machine a).abortRequest? = none := by
  have hturns : Regime.cataloguing.Turns a active r (r.entered frame) :=
    turns_put (Machine.State.frame_enterFrame _ frame) fun _ _ hall => hall.of_oldClasses (.of_heap rfl)
  obtain ⟨hentered, -, -⟩ := hr.of_turns ha hturns
  refine ⟨hentered.at_world, ?_⟩
  rw [hentered.machine]
  rfl

/-! ## Hosts -/

namespace Setting

variable [Observer η] (s : Setting η)

/-- **The last request of a host function decides about its call, as long as no other one comes in
between.**  The function is called where its machine serves its classes, and comes back without an
error.  If it has asked to abort with a value other than null, and behind that neither asks again, nor
does anybody else, nor is a method or an allocator of the same machine called, then the call ends with
the text of the value.  If nobody asks but methods and allocators of the machine that are called
meanwhile, then it does not end with an error at all. -/
theorem aborts_settled (depth : Nat) {base : World (Host η)} {vm : VmId} {a : Address}
    {active : List Address} {r : Running (World (Host η))} (ha : a ∈ active)
    (hr : Serving base vm a active r) {function : Call (World (Host η)) Unit}
    {body : Program η (Except HostError Unit)}
    (hbody : Foreign s.code (s.code.engines s.importDepth (depth + 1) active).delegates vm a function
      body) (frame : List Value) :
    let engines := s.code.engines s.importDepth depth
    let hushed := fun own => (s.code.hushed vm own).engines s.importDepth depth
    let start := world a (r.entered frame)
    let ended := (Machine.callForeign function frame r).1
    (∀ {β : Type} (op : Operation η β) next w v t error u,
      body.Leads engines active start (.perform op next) w → op.isPermitted active w.watch = true →
      op.request? = some vm → op.error? w.watch = some error →
      op.run engines active w.watch = (.value v, t) →
      (next (.value v)).run engines active t = (.value (.ok ()), u) →
      ((next (.value v)).muted vm).run (hushed .barred) active t = (.value (.ok ()), u) →
      error ≠ .null → ended = .fault (.runtime (.aborted ((u.machine a).heap.text error)))) ∧
    ∀ u, body.run engines active start = (.value (.ok ()), u) →
      (body.muted vm).run (hushed id) active start = (.value (.ok ()), u) →
      ended = .value ((u.machine a).slots.headD .null) := by
  intro engines hushed start ended
  have hserves : (Regime.cataloguing : Regime η).Serves engines :=
    serves_engines upheld_cataloguing s.code.obeys_free s.importDepth depth
  obtain ⟨hstart, hnone⟩ := hr.entered ha frame
  constructor
  · intro β op next w v t error u hleads hop hreq herror hrun hrest hmuted hnull
    have hw : Serving base vm a active ⟨w.machine a, w⟩ := hstart.of_leads ha hserves hleads
    obtain ⟨hsteady, -, hl⟩ := hw.at_machine
    have hobserved : ((op.run engines active).observed : Effect (Host η) (Outcome HostError β))
        w.watch = (.value (.value v), t) := by
      rw [Run.observed, hrun]
    have ht : Serving base vm a active ⟨t.machine a, t⟩ :=
      hw.of_operation ha hserves hop hobserved
    -- the machine waits with the value of the request, and nothing takes it away
    have hasked : (t.machine a).abortRequest? = some error := by
      cases op with
      | access x =>
        have hlive : w.watch.LiveAt vm a := hl
        exact abortRequest?_of_access hlive (hsteady.sound.roster.mem_natives hl) hreq herror hrun
      | _ => cases hreq
    have hwaits := abortRequest?_of_muted ha (Or.inr rfl) ht hmuted rfl hasked
    have hwhole : body.run engines active start = (.value (.ok ()), u) := by
      rw [hleads.run_eq, Program.run_perform hop hobserved, hrest]
    rw [show ended = _ from callForeign_of_foreign hbody hwhole, State.answer, hwaits]
    cases error with
    | null => exact absurd rfl hnull
    | _ => rfl
  · intro u hrun hmuted
    have hwaits := abortRequest?_of_muted ha (Or.inl rfl) hstart hmuted rfl hnone
    rw [show ended = _ from callForeign_of_foreign hbody hrun, State.answer, hwaits]

/-- The method 7 of the host below asks to abort and then runs another program. -/
def plea (vm : VmId) : Program Unit (Except HostError Unit) :=
  .ask (.access (.abortFiberWithMessage vm "no")) fun _ =>
  .ask (.interpret vm "main" "null") fun _ => .done (.ok ())

/-- The method 8 asks to abort and takes it back. -/
def recant (vm : VmId) : Program Unit (Except HostError Unit) :=
  .ask (.access (.abortFiberWithMessage vm "no")) fun _ =>
  .ask (.access (.setNull ⟨vm, 0⟩)) fun _ =>
  .ask (.access (.abortFiber vm ⟨vm, 0⟩)) fun _ => .done (.ok ())

/-- Its other methods run a program that calls the method 8. -/
def errand (vm : VmId) : Program Unit (Except HostError Unit) :=
  .ask (.interpret vm "main" "A.recant()") fun _ => .done (.ok ())

/-- A host with these methods. -/
def pleading : Setting Unit :=
  { silent with
    code := { silent.code with
      bindMethod := fun _ _ _ => .done (some 1)
      method := fun f vm => if f = 7 then plea vm else if f = 8 then recant vm else errand vm } }

/-- A host that declares a class with the method 8. -/
def entreating : Program Unit Vm :=
  .ask .newService fun service =>
  .ask (.registerMethod service ⟨8, none⟩) fun _ =>
  .ask (.create service ⟨none, none, none, none⟩) fun vm =>
  .ask (.listen vm.id fun l => { l with bindMethod? := some 5 }) fun _ =>
  .ask (.interpret vm.id "main" "class A \x7b\nforeign static recant()\n\x7d") fun _ => .done vm

/-- The world of the class. -/
def entreated : World (Host Unit) := (pleading.run entreating).2

/-- The world in which a method of the class starts. -/
def entreatedFrame : World (Host Unit) :=
  world 2 (Running.entered ⟨entreated.machine 2, entreated⟩ [.object 3])

theorem entreated_eq :
    ((pleading.run entreating).1.isFinal, (entreated.vm 1).isAlive, (entreated.vm 1).address) =
      (false, true, 2) := by
  cbv

/-- What the method 7 comes to once it has asked. -/
def pleaded : Outcome HostError Unit × World (Host Unit) :=
  (Operation.access (.abortFiberWithMessage 1 "no")).run (pleading.code.engines 1 1) [2]
    entreatedFrame.watch

/-- What is left of the method 7 then. -/
def pleaRest : Program Unit (Except HostError Unit) :=
  .ask (.interpret 1 "main" "null") fun _ => .done (.ok ())

set_option maxRecDepth 4000 in
theorem pleaded_eq :
    (pleaded.1, (pleaRest.run (pleading.code.engines 1 1) [2] pleaded.2).1) =
      (.value (), .value (.ok ())) := by
  cbv

set_option maxRecDepth 4000 in
/-- Nobody asks behind the request, and no other method is called. -/
theorem muted_pleaRest :
    (pleaRest.muted 1).run ((pleading.code.hushed 1 .barred).engines 1 1) [2] pleaded.2 =
      pleaRest.run (pleading.code.engines 1 1) [2] pleaded.2 := by
  cbv

set_option maxRecDepth 20000 in
theorem errand_eq :
    (((errand 1).run (pleading.code.engines 1 1) [2] entreatedFrame).1,
      (((errand 1).run (pleading.code.engines 1 1) [2] entreatedFrame).2.machine 2).slots.headD
        .null) = (.value (.ok ()), .object 3) := by
  cbv

set_option maxRecDepth 20000 in
/-- Nobody asks but the method that is called meanwhile. -/
theorem muted_errand :
    ((errand 1).muted 1).run ((pleading.code.hushed 1 id).engines 1 1) [2] entreatedFrame =
      (errand 1).run (pleading.code.engines 1 1) [2] entreatedFrame := by
  cbv

/-- The one method ends with the error that it has asked for, and the other one does not end with what
the one that it has run has asked for. -/
theorem aborts_settled_pleading :
    let d := (pleading.code.engines 1 2 [2]).delegates
    let r : Running (World (Host Unit)) := ⟨entreated.machine 2, entreated⟩
    (Machine.callForeign (executes d 2 1 7) [.object 3] r).1 =
        .fault (.runtime (.aborted "no")) ∧
      (Machine.callForeign (executes d 2 1 9) [.object 3] r).1 = .value (.object 3) := by
  intro d r
  have hend : (pleading.run entreating).1.isFinal = false := congrArg (·.1) entreated_eq
  have hl : entreated.LiveAt 1 2 :=
    ⟨congrArg (·.2.1) entreated_eq, congrArg (·.2.2) entreated_eq⟩
  have hserving : Serving pleading.start 1 2 [2] r := pleading.serving_run entreating hend hl
  constructor
  · have hasked : pleaded = (.value (), pleaded.2) := Prod.ext (congrArg (·.1) pleaded_eq) rfl
    have hrun : pleaRest.run (pleading.code.engines 1 1) [2] pleaded.2 =
        (.value (.ok ()), (pleaRest.run (pleading.code.engines 1 1) [2] pleaded.2).2) :=
      Prod.ext (congrArg (·.2) pleaded_eq) rfl
    have hsettled := (pleading.aborts_settled 1 List.mem_cons_self hserving (.method 7)
      [.object 3]).1 (.access (.abortFiberWithMessage 1 "no")) _ entreatedFrame () _ _ _
      (.refl _ _) rfl rfl rfl hasked hrun (muted_pleaRest.trans hrun) (by simp [Value.ofText])
    rw [Machine.text_ofText] at hsettled
    exact hsettled
  · have hrun : (errand 1).run (pleading.code.engines 1 1) [2] entreatedFrame =
        (.value (.ok ()), ((errand 1).run (pleading.code.engines 1 1) [2] entreatedFrame).2) :=
      Prod.ext (congrArg (·.1) errand_eq) rfl
    have hsettled := (pleading.aborts_settled 1 List.mem_cons_self hserving (.method 9)
      [.object 3]).2 _ hrun (muted_errand.trans hrun)
    exact hsettled.trans (congrArg (fun p => Outcome.value p.2) errand_eq)

end Setting

end ScriptHost.Bridge
