import ScriptHost.Proofs.Failures
import ScriptHost.Proofs.Handles

/-!
# Machines that are present

A machine hands nothing but its address to the functions that it calls back, and the address of a
machine that was freed may be given out again.  What finds the right machine is the process-wide
table: in every world that steps lead to it names the machines that are alive, and no others
(`Present`).  So a service finds its own machines and counts them, and a callback runs the function
of the machine from whose address it comes, or none.

That a callback runs one function of the host and no other is said by quantifying over all hosts:
what is done before and behind the function does not depend on them (`Callback.Answered`).
-/

namespace ScriptHost.Bridge

open Machine (Key MethodName ClassKeys)
open Trampoline (lookup_bind lookup_bind_none)

variable {η α β γ : Type}

/-! ## Callbacks -/

/-- A callback, with what the machine hands over.  A function of the host gives a `γ` for it, and
the machine gets a `β`. -/
inductive Callback : Type → Type → Type where
  | write (text? : Option String) : Callback Unit Unit
  | error (diagnostic : Diagnostic) : Callback Unit Unit
  | resolve (importer? name? : Option String) : Callback (Option String) (Option String)
  | load (name? : Option String) : Callback (Option String) (Option String)
  | bindMethod (name : MethodName) : Callback (Option Key) (Option Key)
  | bindClass (module className : String) : Callback (Option Key) ClassKeys
  | execute (key : Key) : Callback (Except HostError Unit) Unit
  | allocate (key : Key) : Callback (Except HostError Unit) Unit

namespace Callback

/-- A callback from the machine at an address. -/
def run [Observer η] (d : Delegates η) (a : Address) : Callback γ β → Effect η β
  | write text? => Trampoline.write d a text?
  | error diagnostic => Trampoline.error d a diagnostic
  | resolve importer? name? => Trampoline.resolve d a importer? name?
  | load name? => Trampoline.load d a name?
  | bindMethod name => Trampoline.bindMethod d a name
  | bindClass module className => Trampoline.bindClass d a module className
  | execute key => Trampoline.execute d a key
  | allocate key => Trampoline.allocate d a key

/-- The function that a machine has for a callback: its listener, or what is bound at its service.
A name that is missing is not asked for. -/
def function? (w : World (Host η)) (vm : VmId) : Callback γ β → Option Delegate
  | write _ => (w.vm vm).listeners.write?
  | error _ => (w.vm vm).listeners.error?
  | resolve _ name? => name?.bind fun _ => (w.vm vm).listeners.resolve?
  | load name? => name?.bind fun _ => (w.vm vm).listeners.load?
  | bindMethod _ => (w.vm vm).listeners.bindMethod?
  | bindClass _ _ => (w.vm vm).listeners.bindClass?
  | execute key => w.methodAt? key vm
  | allocate key => w.allocatorAt? key vm

/-- A function of the host is asked, with a view of a machine. -/
def ask (d : Delegates η) (f : Delegate) (vm : VmId) : Callback γ β → Effect η γ
  | write text? => d.write f vm (text?.getD "")
  | error diagnostic => d.error f vm diagnostic
  | resolve importer? name? => d.resolve f vm (importer?.getD "") (name?.getD "")
  | load name? => d.load f vm (name?.getD "")
  | bindMethod name => d.bindMethod f vm name
  | bindClass module className => d.bindClass f vm module className
  | execute _ => Run.attempt (d.method f vm)
  | allocate _ => Run.attempt (d.allocator f vm)

/-- What a caller gets that no machine lies at. -/
def unmanaged : Callback γ β → β
  | write _ | error _ | execute _ | allocate _ => ()
  | resolve _ name? => name?
  | load _ | bindMethod _ => none
  | bindClass _ _ => .unbound

/-- A callback from an address runs the function that a machine has for it, with a view of this
machine, and no other function of the host. -/
structure Answered [Observer η] (c : Callback γ β) (w : World (Host η)) (a : Address) (vm : VmId) :
    Prop where
  asked : ∀ f, c.function? w vm = some f → ∃ settle : γ → Effect (Host η) β,
    ∀ d, c.run d a w = (c.ask d f vm >>= settle) w
  unset : c.function? w vm = none → ∀ d d', c.run d a w = c.run d' a w

/-- A callback from an address runs no function of the host, and at most the log changes. -/
def Ignored [Observer η] (c : Callback γ β) (w : World (Host η)) (a : Address) : Prop :=
  ∃ t, (t = w ∨ ∃ text, t = w.logged .warn text) ∧ ∀ d, c.run d a w = (.value c.unmanaged, t)

variable [Observer η] {w : World (Host η)} {a : Address} {vm : VmId}

/-- A function that a machine has is run. -/
theorem asked_of_registered (h : w.registered.find? a = some vm) (c : Callback γ β) {f : Delegate}
    (hf : c.function? w vm = some f) :
    ∃ settle : γ → Effect (Host η) β, ∀ d, c.run d a w = (c.ask d f vm >>= settle) w := by
  cases c with
  | write text? =>
    have hlistener : (w.vm vm).listeners.write? = some f := hf
    refine ⟨pure, fun d => ?_⟩
    simp only [run, ask, Trampoline.write, lookup_bind h, Vm.listeners_bind, hlistener,
      bind_pure]
  | error diagnostic =>
    have hlistener : (w.vm vm).listeners.error? = some f := hf
    refine ⟨pure, fun d => ?_⟩
    simp only [run, ask, Trampoline.error, lookup_bind h, Vm.listeners_bind, hlistener,
      bind_pure]
  | resolve importer? name? =>
    obtain ⟨name, rfl, hlistener⟩ := Option.bind_eq_some_iff.1 hf
    refine ⟨pure, fun d => ?_⟩
    simp only [run, ask, Trampoline.resolve, lookup_bind h, Vm.listeners_bind, hlistener,
      bind_pure]
    rfl
  | load name? =>
    obtain ⟨name, rfl, hlistener⟩ := Option.bind_eq_some_iff.1 hf
    apply Exists.intro
    intro d
    simp only [run, ask, Trampoline.load, lookup_bind h, Vm.listeners_bind, hlistener]
    rfl
  | bindMethod name =>
    have hlistener : (w.vm vm).listeners.bindMethod? = some f := hf
    apply Exists.intro
    intro d
    simp only [run, ask, Trampoline.bindMethod, lookup_bind h, Vm.listeners_bind, hlistener]
    rfl
  | bindClass module className =>
    have hlistener : (w.vm vm).listeners.bindClass? = some f := hf
    apply Exists.intro
    intro d
    simp only [run, ask, Trampoline.bindClass, lookup_bind h, Vm.listeners_bind, hlistener]
    rfl
  | execute key =>
    exact ⟨fun result => Trampoline.settle vm result "foreign method",
      fun d => execute_of_bound h hf⟩
  | allocate key =>
    exact ⟨fun result => Trampoline.settle vm result "allocator", fun d => allocate_of_bound h hf⟩

/-- Where a machine has no function, hosts do not differ. -/
theorem unset_of_registered (h : w.registered.find? a = some vm) (c : Callback γ β)
    (hf : c.function? w vm = none) (d d' : Delegates (Host η)) : c.run d a w = c.run d' a w := by
  cases c with
  | write text? =>
    have hlistener : (w.vm vm).listeners.write? = none := hf
    simp only [run, Trampoline.write, lookup_bind h, Vm.listeners_bind, hlistener]
  | error diagnostic =>
    have hlistener : (w.vm vm).listeners.error? = none := hf
    simp only [run, Trampoline.error, lookup_bind h, Vm.listeners_bind, hlistener]
  | resolve importer? name? =>
    cases name? with
    | none => rfl
    | some name =>
      have hlistener : (w.vm vm).listeners.resolve? = none := hf
      simp only [run, Trampoline.resolve, lookup_bind h, Vm.listeners_bind, hlistener]
  | load name? =>
    cases name? with
    | none =>
      simp only [run, Trampoline.load, lookup_bind h, Vm.listeners_bind]
      cases (w.vm vm).listeners.load? <;> rfl
    | some name =>
      have hlistener : (w.vm vm).listeners.load? = none := hf
      simp only [run, Trampoline.load, lookup_bind h, Vm.listeners_bind, hlistener]
  | bindMethod name =>
    have hlistener : (w.vm vm).listeners.bindMethod? = none := hf
    simp only [run, Trampoline.bindMethod, lookup_bind h, Vm.listeners_bind, hlistener]
  | bindClass module className =>
    have hlistener : (w.vm vm).listeners.bindClass? = none := hf
    simp only [run, Trampoline.bindClass, lookup_bind h, Vm.listeners_bind, hlistener]
  | execute key =>
    have hbound : (w.serviceOf vm).bindings.method? key = none := Option.map_eq_none_iff.1 hf
    simp only [run, Trampoline.execute, lookup_bind h, Run.gets_bind, hbound]
  | allocate key =>
    have hbound : (w.serviceOf vm).bindings.class? key = none := Option.map_eq_none_iff.1 hf
    simp only [run, Trampoline.allocate, lookup_bind h, Run.gets_bind, hbound]

/-- **A callback from a machine that is registered runs the function that the machine has.** -/
theorem answered_of_registered (h : w.registered.find? a = some vm) (c : Callback γ β) :
    c.Answered w a vm :=
  ⟨fun _ hf => c.asked_of_registered h hf, c.unset_of_registered h⟩

/-- **A callback from an address that is not registered runs nothing.** -/
theorem ignored_of_unregistered (h : w.registered.find? a = none) (c : Callback γ β) :
    c.Ignored w a := by
  have hlogged : ∀ callback, (∀ d, c.run d a w = (.value c.unmanaged,
      w.logged .warn (callback ++ " callback for unmanaged vm " ++ Text.Hex.address a))) →
      c.Ignored w a := fun callback hrun => ⟨_, Or.inr ⟨_, rfl⟩, hrun⟩
  cases c with
  | resolve importer? name? =>
    cases name? with
    | none => exact ⟨w, Or.inl rfl, fun d => rfl⟩
    | some name => exact hlogged "resolve module" fun d => lookup_bind_none h _ _
  | write | error | load | bindMethod | bindClass | execute | allocate =>
    exact hlogged _ fun d => lookup_bind_none h _ _

end Callback

/-! ## Looking machines up -/

section

variable {w : World (Host η)} {a : Address} {vm : VmId}

/-- The table has the machines that are alive. -/
theorem Roster.mem_values (h : Roster w) : vm ∈ w.registered.values ↔ (w.vm vm).isAlive = true := by
  constructor
  · intro hin
    obtain ⟨⟨a, id⟩, he, rfl⟩ := List.mem_map.1 hin
    exact ((h.registered a id).1 (Table.find?_of_mem_entries he)).1
  · intro halive
    exact Table.mem_values_of_find? ((h.registered _ vm).2 ⟨halive, rfl⟩)

/-- No machine is registered twice, since it lies at one address. -/
theorem Roster.nodup_values (h : Roster w) : w.registered.values.Nodup := by
  refine List.Nodup.of_map (fun id => (w.vm id).address) ?_
  have hkeys : w.registered.values.map (fun id => (w.vm id).address) = w.registered.keys := by
    rw [Table.values, Table.keys, List.map_map]
    exact List.map_congr_left fun e he =>
      ((h.registered e.1 e.2).1 (Table.find?_of_mem_entries he)).2
  rw [hkeys]
  exact w.registered.nodup_keys

/-- **A service finds its own machines**, while they are alive, at their addresses. -/
theorem Roster.lookupVm_eq (h : Roster w) (service : ServiceId) (a : Address) :
    ∃ view?, (lookupVm service a : Act (Host η) (Option Vm)) w = (.value view?, w) ∧
      ∀ view, view? = some view ↔
        view.isRoot = false ∧ w.LiveAt view.id a ∧ (w.vm view.id).service = service := by
  refine ⟨_, rfl, ?_⟩
  rintro ⟨id, isRoot⟩
  dsimp only
  cases hfind : w.registered.find? a with
  | none =>
    refine iff_of_false (by simp) ?_
    rintro ⟨-, hl, -⟩
    rw [(h.registered a id).2 hl] at hfind
    exact absurd hfind (by simp)
  | some found =>
    have hfound : w.LiveAt found a := (h.registered a found).1 hfind
    dsimp only
    by_cases hservice : (w.vm found).service = service
    · rw [if_pos hservice]
      constructor
      · intro hview
        cases hview
        exact ⟨rfl, hfound, hservice⟩
      · rintro ⟨hroot, hl, -⟩
        rw [h.eq_of_liveAt hl hfound, hroot]
    · rw [if_neg hservice]
      refine iff_of_false (by simp) ?_
      rintro ⟨-, hl, hother⟩
      exact hservice (h.eq_of_liveAt hl hfound ▸ hother)

/-- **A service counts its own machines**, while they are alive. -/
theorem Roster.vmCount_eq (h : Roster w) (service : ServiceId) :
    ∃ machines : Finset VmId,
      (∀ vm, vm ∈ machines ↔ (w.vm vm).isAlive = true ∧ (w.vm vm).service = service) ∧
      (vmCount service : Act (Host η) Nat) w = (.value machines.card, w) := by
  let ofService : VmId → Bool := fun id => (w.vm id).service == service
  refine ⟨(w.registered.values.filter ofService).toFinset, fun vm => ?_, ?_⟩
  · rw [List.mem_toFinset, List.mem_filter, h.mem_values, beq_iff_eq]
  · rw [List.toFinset_card_of_nodup (h.nodup_values.filter _), ← List.countP_eq_length_filter]
    rfl

end

/-! ## Machines that come and go -/

/-- How the creation of a machine ends.  One that fails has no effect but on the log. -/
structure Enlisted [Observer η] (w : World (Host η)) (service : ServiceId)
    (r : Outcome HostError Vm × World (Host η)) : Prop where
  made : ∀ vm, r.1 = .value vm → vm.isRoot = true ∧ vm.id ∉ w.vms.keys ∧
    (r.2.vm vm.id).service = service ∧ ∃ a ∉ w.natives.keys,
      ∀ id b, r.2.LiveAt id b ↔ (id = vm.id ∧ b = a) ∨ w.LiveAt id b
  failed : (∀ vm, r.1 ≠ .value vm) → r.2 = w ∨ ∃ text, r.2 = w.logged .error text

/-- How the disposal of a machine that is alive ends. -/
structure Delisted [Observer η] (w : World (Host η)) (vm : VmId)
    (r : Outcome HostError Unit × World (Host η)) : Prop where
  /-- A disposal that panics has no effect but on the log. -/
  panicked : (w.vm vm).policy = .panic → (w.vm vm).outstanding ≠ [] →
    ∃ text, r = (.halt (.panic text), w.logged .error text)
  /-- Any other one frees the machine, unless a finalizer ends the process. -/
  freed : (w.vm vm).policy = .forceRelease ∨ (w.vm vm).outstanding = [] →
    r.1.isFinal = false → r.1 = .value () ∧ (r.2.vm vm).isAlive = false

section

variable [Observer η] {active : List Address} {w : World (Host η)} {a : Address} {vm : VmId}

theorem enlisted_create (hr : Roster w) {service : ServiceId} {config : VmConfig}
    (hop : (Operation.create service config : Operation η Vm).isPermitted active w = true) :
    Enlisted w service (Vm.create service config w) := by
  rw [Operation.isPermitted, Bool.and_eq_true] at hop
  have hcreation := creation_of_roster hr service config hop.2
  generalize Vm.create service config w = r at hcreation ⊢
  cases hcreation with
  | refused => exact ⟨fun vm hvm => absurd hvm (by simp), fun _ => Or.inl rfl⟩
  | clash =>
    refine ⟨fun vm hvm => ?_, fun _ => Or.inr ⟨_, rfl⟩⟩
    cases hvm
  | @created a ha =>
    refine ⟨fun vm hvm => ?_, fun hno => absurd rfl (hno _)⟩
    cases hvm
    have hfresh : w.nextVmId ∉ w.vms.keys := fun hin => Nat.lt_irrefl _ (hr.known _ hin)
    refine ⟨rfl, hfresh, ?_, a, ha, fun id b => ?_⟩
    · exact congrArg VmRecord.service (w.vm_withVm_self a service config.policy)
    · refine (w.liveAt_withVm a service config.policy id b).trans (or_congr_right ?_)
      refine and_iff_right_of_imp fun hl => ?_
      rintro rfl
      exact hfresh (World.mem_vms_of_isAlive hl.1)

/-- **A machine that does not run can be disposed of**, unless its handles stop the disposal. -/
theorem delisted_shutdown {engines : List Address → Engine (Host η)}
    (h : Regime.free.Finalizers (a :: active) (engines (a :: active)).delegates)
    (hw : Steady active w) (ha : a ∉ active) (hl : w.LiveAt vm a) :
    Delisted w vm (Vm.shutdown (engines (a :: active)) vm w) := by
  refine ⟨fun hpolicy hout => ⟨_, shutdown_of_halt hl (settleLeaks_of_panic hout hpolicy)⟩,
    fun hsettles hfinal => ?_⟩
  obtain ⟨w₁, hsettled, hdeeds, hnil⟩ : ∃ w₁,
      (Vm.settleLeaks vm : Act (Host η) Unit) w = (.value (), w₁) ∧
        Deeds (fun _ => True) .all w w₁ ∧ (w₁.vm vm).outstanding = [] := by
    rcases hsettles with hpolicy | hnil
    · obtain ⟨w₁, hsettled, hdeeds, hnil, -⟩ := settleLeaks_of_forceRelease (φ := HostError)
        (P := fun _ => True) (S := .all) hw.sound trivial hl hpolicy
      exact ⟨w₁, hsettled, hdeeds, hnil⟩
    · exact ⟨w, settleLeaks_of_nil hnil, Deeds.refl w, hnil⟩
  obtain ⟨-, -, hgoes⟩ := gone_of_settled h hw ha hl hsettled hdeeds hnil rfl
  obtain ⟨hvalue, -, hgone, -⟩ := hgoes hfinal
  exact ⟨hvalue, hgone⟩

/-- What is not the owner of a machine that is alive frees nothing. -/
theorem idle_disposal {engines : List Address → Engine (Host η)} {view : Vm}
    (h : view.isRoot = false ∨ (w.vm view.id).isAlive = false) {op : Operation η Unit}
    (hop : op = .dispose view ∨ op = .drop view) :
    (op.run engines active w).1 = .value () ∧
      ((op.run engines active w).2 = w ∨
        ∃ text, (op.run engines active w).2 = w.logged .warn text) := by
  -- the owner of a machine that was freed finds nothing to do, and a view says so at most
  have hdead : view.isRoot = true → ∀ e : Engine (Host η),
      (Vm.shutdown e view.id : Act (Host η) Unit) w = (.value (), w) := by
    intro hroot e
    rw [hroot] at h
    exact shutdown_of_dead (h.resolve_left (by simp))
  rcases hop with rfl | rfl
  · change (Vm.dispose _ view w).1 = _ ∧ ((Vm.dispose _ view w).2 = w ∨
      ∃ text, (Vm.dispose _ view w).2 = w.logged .warn text)
    unfold Vm.dispose
    split
    · next hroot =>
      rw [hdead hroot]
      exact ⟨rfl, Or.inl rfl⟩
    · exact ⟨rfl, Or.inr ⟨_, rfl⟩⟩
  · change (Vm.drop _ view w).1 = _ ∧ ((Vm.drop _ view w).2 = w ∨
      ∃ text, (Vm.drop _ view w).2 = w.logged .warn text)
    unfold Vm.drop
    split
    · next hroot =>
      rw [hdead hroot]
      exact ⟨rfl, Or.inl rfl⟩
    · exact ⟨rfl, Or.inl rfl⟩

end

/-! ## Hosts -/

/-- What the process-wide table of machines says of a world. -/
structure Present [Observer η] (s : Setting η) (w : World (Host η)) : Prop where
  /-- The table names the machines that are alive, each at its address. -/
  table : ∀ a vm, w.registered.find? a = some vm ↔ w.LiveAt vm a
  native : ∀ a ∈ w.registered.keys, a ∈ w.natives.keys
  lookup : ∀ service a, ∃ view?,
    (lookupVm service a : Act (Host η) (Option Vm)) w = (.value view?, w) ∧
      ∀ view, view? = some view ↔
        view.isRoot = false ∧ w.LiveAt view.id a ∧ (w.vm view.id).service = service
  count : ∀ service, ∃ machines : Finset VmId,
    (∀ vm, vm ∈ machines ↔ (w.vm vm).isAlive = true ∧ (w.vm vm).service = service) ∧
      (vmCount service : Act (Host η) Nat) w = (.value machines.card, w)
  /-- A callback runs the function of the machine from whose address it comes. -/
  answered : ∀ {γ β : Type} (c : Callback γ β) a vm, w.LiveAt vm a → c.Answered w a vm
  ignored : ∀ {γ β : Type} (c : Callback γ β) a, (∀ vm, ¬ w.LiveAt vm a) → c.Ignored w a
  /-- A view keeps to its machine, and does not find another one at the same address. -/
  views : ∀ w', Steps w w' → ∀ vm ∈ w.vms.keys, (w.vm vm).Continues (w'.vm vm)
  created : ∀ active service config,
    (Operation.create service config : Operation η Vm).isPermitted active w = true →
      Enlisted w service (Vm.create service config w)
  /-- A machine that does not run is disposed of by its owner, who may also drop it. -/
  disposed : ∀ depth active vm a, Steady active w → a ∉ active → w.LiveAt vm a →
    ∀ op : Operation η Unit, op = .dispose ⟨vm, true⟩ ∨ op = .drop ⟨vm, true⟩ →
      Delisted w vm (op.run (s.code.engines s.importDepth depth) active w)
  idle : ∀ engines active view, view.isRoot = false ∨ (w.vm view.id).isAlive = false →
    ∀ op : Operation η Unit, op = .dispose view ∨ op = .drop view →
      (op.run engines active w).1 = .value () ∧
        ((op.run engines active w).2 = w ∨
          ∃ text, (op.run engines active w).2 = w.logged .warn text)

namespace Setting

variable [Observer η]

theorem present_of_steps {s : Setting η} {w : World (Host η)} (hsteps : Steps s.start w) :
    Present s w := by
  have hr : Roster w := (hsteps.sound s.steady_start.sound).roster
  refine
    { table := hr.registered
      native := hr.native
      lookup := hr.lookupVm_eq
      count := hr.vmCount_eq
      answered := fun c a vm hl => c.answered_of_registered ((hr.registered a vm).2 hl)
      ignored := fun c a hno => c.ignored_of_unregistered ?_
      views := fun w' hlater vm hk => hlater.continues hr hk
      created := fun active service config hop => enlisted_create hr hop
      disposed := fun depth active vm a hw ha hl op hop => ?_
      idle := fun engines active view h op hop => idle_disposal h hop }
  · cases hfind : w.registered.find? a with
    | none => rfl
    | some vm => exact absurd ((hr.registered a vm).1 hfind) (hno vm)
  · rw [run_disposal _ hop hl]
    exact delisted_shutdown (s.finalizers_free depth (a :: active)) hw ha hl

/-- **The table of machines has the machines that are alive, and no others**, in every world that
the work of a host leads to.  So a service finds and counts its own machines, and a callback runs the
function of the machine from whose address it comes, or none if there is none.  Behind every program
that has not ended the process, the machines that are alive are all there are. -/
theorem machines_present {α : Type} (s : Setting η) (p : Program η α) :
    Present s (s.run p).2 ∧
      ((s.run p).1.isFinal = false →
        ∀ a, a ∈ (s.run p).2.natives.keys ↔ ∃ vm, (s.run p).2.LiveAt vm a) ∧
      ∀ w, Steps s.start w → Present s w := by
  refine ⟨present_of_steps (s.steps_run p), fun hfinal a => ?_, fun _ hw => present_of_steps hw⟩
  have hw := s.steady_run p hfinal
  constructor
  · intro ha
    exact hw.sound.roster.exists_live ((hw.listed a ha).resolve_right List.not_mem_nil)
  · rintro ⟨vm, hl⟩
    exact hw.sound.roster.mem_natives hl

end Setting

/-! ## A machine at an address that was given out before -/

/-- A host that fails to make a machine, frees one of its first service, and makes one of its second
service, which comes to lie at the same address and has a listener.  From then on this machine is
given out again. -/
def Program.replace : Program Unit Unit :=
  .ask .newService fun first =>
  .ask .newService fun second =>
  .ask (.create first ⟨none, none, none, some .forceRelease⟩) fun vm =>
  .ask (.misreport [.nullVm]) fun _ =>
  .perform (.create second ⟨none, none, none, none⟩) fun _ =>
  .ask (.misreport []) fun _ =>
  .ask (.makeCallHandle vm.id "run()") fun _ =>
  .ask (.dispose vm) fun _ =>
  .ask (.create second ⟨none, none, none, none⟩) fun other =>
  .ask (.listen other.id fun listeners => { listeners with write? := some 7 }) fun _ =>
  .ask (.misreport [.sameVm]) fun _ => .done ()

namespace Setting

/-- The world behind a replacement. -/
def replaced : World (Host Unit) := (silent.run .replace).2

theorem replaced_eq :
    ((silent.run .replace).1.isFinal, (replaced.vm 1).address, replaced.vm 2,
      replaced.registered.find? 1, replaced.registered.contains 3, replaced.services.contains 1,
      replaced.lastVm?, replaced.faults) =
    (false, 3, ⟨3, true, 2, .panic, { Listeners.none with write? := some 7 }, []⟩, none, true, true,
      some 3, [.sameVm]) := by
  cbv

/-- The machine that was freed is not found where another one lies, whose listener is run. -/
theorem machines_present_replaced :
    (replaced.vm 1).address = 3 ∧ ¬ replaced.LiveAt 1 3 ∧ replaced.LiveAt 2 3 ∧
      (lookupVm 1 3 : Act (Host Unit) (Option Vm)) replaced = (.value none, replaced) ∧
      (lookupVm 2 3 : Act (Host Unit) (Option Vm)) replaced =
        (.value (some ⟨2, false⟩), replaced) ∧
      (∃ settle : Unit → Effect (Host Unit) Unit, ∀ d,
        (Callback.write (some "text")).run d 3 replaced =
          (d.write 7 2 "text" >>= settle) replaced) ∧
      (Callback.write (some "text")).Ignored replaced 1 ∧
      Enlisted replaced 1 (Vm.create 1 ⟨none, none, none, none⟩ replaced) ∧
      Delisted replaced 2 ((Operation.dispose ⟨2, true⟩).run silent.engines [] replaced) ∧
      (∀ a, a ∈ replaced.natives.keys ↔ ∃ vm, replaced.LiveAt vm a) := by
  have hfinal : (silent.run .replace).1.isFinal = false := congrArg (·.1) replaced_eq
  have hvm : replaced.vm 2 = ⟨3, true, 2, .panic, { Listeners.none with write? := some 7 }, []⟩ :=
    congrArg (·.2.2.1) replaced_eq
  have hservice : (replaced.vm 2).service = 2 := congrArg VmRecord.service hvm
  have hl : replaced.LiveAt 2 3 := ⟨congrArg VmRecord.isAlive hvm, congrArg VmRecord.address hvm⟩
  have hlisted : (replaced.vm 2).listeners.write? = some 7 := congrArg (·.listeners.write?) hvm
  have hpresent : Present silent replaced := (machines_present silent .replace).1
  have honly : ∀ vm, replaced.LiveAt vm 3 → vm = 2 := fun vm hvm =>
    Option.some.inj (((hpresent.table 3 vm).2 hvm).symm.trans ((hpresent.table 3 2).2 hl))
  have hblank : ∀ vm, ¬ replaced.LiveAt vm 1 := by
    intro vm hvm
    have hnone : replaced.registered.find? 1 = none := congrArg (·.2.2.2.1) replaced_eq
    rw [(hpresent.table 1 vm).2 hvm] at hnone
    exact absurd hnone (by simp)
  have hpermitted : (Operation.create 1 ⟨none, none, none, none⟩ :
      Operation Unit Vm).isPermitted [] replaced = true := by
    obtain ⟨hregistered, hknown, hlast, hfaults⟩ : replaced.registered.contains 3 = true ∧
        replaced.services.contains 1 = true ∧ replaced.lastVm? = some 3 ∧
          replaced.faults = [.sameVm] := by
      have htables := congrArg (·.2.2.2.2) replaced_eq
      simpa only [Prod.mk.injEq] using htables
    rw [Operation.isPermitted, hknown, World.hasFault, hfaults, hlast, Option.all_some, hregistered]
    rfl
  refine ⟨congrArg (·.2.1) replaced_eq, ?_, hl, ?_, ?_, ?_, hpresent.ignored _ 1 hblank,
    hpresent.created [] 1 _ hpermitted, ?_, (machines_present silent .replace).2.1 hfinal⟩
  · intro hl'
    exact absurd (honly 1 hl') (by decide)
  · obtain ⟨view?, hrun, hview⟩ := hpresent.lookup 1 3
    cases view? with
    | none => exact hrun
    | some view =>
      obtain ⟨-, hlive, hserved⟩ := (hview view).1 rfl
      rw [honly _ hlive, hservice] at hserved
      exact absurd hserved (by decide)
  · obtain ⟨view?, hrun, hview⟩ := hpresent.lookup 2 3
    have hfound := (hview ⟨2, false⟩).2 ⟨rfl, hl, hservice⟩
    rwa [hfound] at hrun
  · exact (hpresent.answered (.write (some "text")) 3 2 hl).asked 7 hlisted
  · exact hpresent.disposed silent.depth [] 2 3 (silent.steady_run .replace hfinal)
      List.not_mem_nil hl _ (Or.inl rfl)

end Setting

end ScriptHost.Bridge
