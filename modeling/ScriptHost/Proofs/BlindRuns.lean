import ScriptHost.Proofs.Abreast
import ScriptHost.Proofs.Burials
import ScriptHost.Proofs.Likewise

/-!
# Runs of machines among blind callbacks

If the functions of a host are blind (`Delegates.Blind`), so is what machines call back, and so are the
runs of a machine among its callbacks: the worlds in which the machine runs are related in between
(`Alongside`), and the machine does the same in both of them (`Coupling`).
-/

namespace ScriptHost.Bridge

open Machine (State Running Call Callbacks Coupling Frame)
open Run (Joint Level joint_bind joint_sealed joint_widen)

variable {η σ φ α β : Type} [Observer η]

/-- Functions of a host that do not see what was lost, while the machines at `active` run.  Of the
finalizers nothing is seen. -/
structure Delegates.Blind (C : Comparison η σ) (active : List Address) (d : Delegates (Host η)) :
    Prop where
  write : ∀ f vm text, C.Blind active (d.write f vm text)
  error : ∀ f vm diagnostic, C.Blind active (d.error f vm diagnostic)
  resolve : ∀ f vm importer name, C.Blind active (d.resolve f vm importer name)
  load : ∀ f vm name, C.Blind active (d.load f vm name)
  bindClass : ∀ f vm module name, C.Blind active (d.bindClass f vm module name)
  bindMethod : ∀ f vm name, C.Blind active (d.bindMethod f vm name)
  method : ∀ f vm, C.Blind active (d.method f vm)
  allocator : ∀ f vm, C.Blind active (d.allocator f vm)
  unseen : d.Unseen C.sight

variable {C : Comparison η σ} {active : List Address} {d : Delegates (Host η)} {a : Address}

/-! ## Callbacks -/

/-- A callback finds the same machine in both worlds. -/
theorem blind_lookup (a : Address) (callback : String) :
    C.Blind active (Trampoline.lookup a callback : Effect (Host η) (Option VmId)) := by
  refine fun w w' r => Run.joint_get ?_
  rw [r.registered]
  split
  · exact blind_pure _ r
  · exact blind_bind (blind_log _ _) (fun _ => blind_pure _) r

theorem blind_listeners (vm : VmId) :
    C.Blind active (Vm.listeners vm : Run (World (Host η)) φ Listeners) :=
  blind_gets fun r => by rw [r.vm]

/-- A service is read as far as it is the same in both worlds. -/
theorem blind_serviceOf (vm : VmId) {f : Service → Run (World (Host η)) φ α}
    (hsame : ∀ {s s'}, C.Services s s' → f s' = f s) (hf : ∀ s, C.Blind active (f s)) :
    C.Blind active (Run.gets (fun w => w.serviceOf vm) >>= f) := by
  refine fun w w' r => Run.joint_gets_of ?_
  rw [hsame (r.serviceOf vm)]
  exact hf _ r

theorem blind_settle (vm : VmId) (result : Except HostError Unit) (what : String) :
    C.Blind active (Trampoline.settle vm result what : Effect (Host η) Unit) := by
  cases result with
  | ok => exact blind_pure ()
  | error e =>
    have hreport : C.Blind active (Vm.abortFiberWithMessage vm e.message : Act (Host η) Unit) :=
      blind_access (.abortFiberWithMessage vm e.message)
    unfold Trampoline.settle
    dsimp only
    split
    · exact blind_fatal e
    · refine blind_bind (blind_gets fun r => r.addressOf vm) fun address => ?_
      refine blind_bind (blind_log _ _) fun _ => blind_bind (blind_attempt hreport) fun result => ?_
      split
      · exact blind_pure ()
      · exact blind_log _ _

namespace Delegates.Blind

variable (h : d.Blind C active)
include h

theorem blind_write (text? : Option String) :
    C.Blind active (Trampoline.write d a text? : Effect (Host η) Unit) := by
  refine blind_bind (blind_lookup a _) fun id? => ?_
  split
  · exact blind_pure ()
  · next id =>
    refine blind_bind (blind_listeners id) fun listeners => ?_
    split
    · exact blind_pure ()
    · exact h.write _ _ _

theorem blind_error (diagnostic : Diagnostic) :
    C.Blind active (Trampoline.error d a diagnostic : Effect (Host η) Unit) := by
  refine blind_bind (blind_lookup a _) fun id? => ?_
  split
  · exact blind_pure ()
  · next id =>
    refine blind_bind (blind_listeners id) fun listeners => ?_
    split
    · exact h.error _ _ _
    · exact blind_log _ _

theorem blind_resolve (importer? name? : Option String) :
    C.Blind active (Trampoline.resolve d a importer? name? : Effect (Host η) (Option String)) := by
  unfold Trampoline.resolve
  split
  · exact blind_pure none
  · refine blind_bind (blind_lookup a _) fun id? => ?_
    split
    · exact blind_pure _
    · next id =>
      refine blind_bind (blind_listeners id) fun listeners => ?_
      split
      · exact blind_pure _
      · exact h.resolve _ _ _ _

theorem blind_load (name? : Option String) :
    C.Blind active (Trampoline.load d a name? : Effect (Host η) (Option String)) := by
  refine blind_bind (blind_lookup a _) fun id? => ?_
  split
  · exact blind_pure none
  · next id =>
    refine blind_bind (blind_listeners id) fun listeners => ?_
    split
    · refine blind_bind (h.load _ _ _) fun source? => ?_
      split
      · exact blind_pure none
      · split
        · exact blind_pure _
        · exact blind_bind (blind_log _ _) fun _ => blind_pure none
    · exact blind_pure none

theorem blind_bindMethod (name : Machine.MethodName) :
    C.Blind active (Trampoline.bindMethod d a name : Effect (Host η) (Option Machine.Key)) := by
  refine blind_bind (blind_lookup a _) fun id? => ?_
  split
  · exact blind_pure none
  · next id =>
    refine blind_bind (blind_listeners id) fun listeners => ?_
    split
    · exact blind_pure none
    · refine blind_bind (h.bindMethod _ _ _) fun key? => ?_
      split
      · exact blind_pure none
      · refine blind_serviceOf id (fun hs => by simp only [hs.bindings]) fun s => ?_
        split
        · exact blind_pure _
        · exact blind_bind (blind_log _ _) fun _ => blind_pure none

theorem blind_bindClass (module className : String) :
    C.Blind active
      (Trampoline.bindClass d a module className : Effect (Host η) Machine.ClassKeys) := by
  refine blind_bind (blind_lookup a _) fun id? => ?_
  split
  · exact blind_pure _
  · next id =>
    refine blind_bind (blind_listeners id) fun listeners => ?_
    split
    · exact blind_pure _
    · refine blind_bind (h.bindClass _ _ _ _) fun key? => ?_
      split
      · exact blind_pure _
      · refine blind_serviceOf id (fun hs => by simp only [hs.bindings]) fun s => ?_
        split
        · exact blind_pure _
        · exact blind_bind (blind_log _ _) fun _ => blind_pure _

theorem blind_execute (key : Machine.Key) :
    C.Blind active (Trampoline.execute d a key : Effect (Host η) Unit) := by
  refine blind_bind (blind_lookup a _) fun id? => ?_
  split
  · exact blind_pure ()
  · next id =>
    refine blind_serviceOf id (fun hs => by simp only [hs.bindings]) fun s => ?_
    split
    · exact blind_settle _ _ _
    · exact blind_bind (blind_attempt (h.method _ _)) fun result => blind_settle _ _ _

theorem blind_allocate (key : Machine.Key) :
    C.Blind active (Trampoline.allocate d a key : Effect (Host η) Unit) := by
  refine blind_bind (blind_lookup a _) fun id? => ?_
  split
  · exact blind_pure ()
  · next id =>
    refine blind_serviceOf id (fun hs => by simp only [hs.bindings]) fun s => ?_
    split
    · exact blind_settle _ _ _
    · exact blind_bind (blind_attempt (h.allocator _ _)) fun result => blind_settle _ _ _

end Delegates.Blind

/-! ## Runs -/

/-- The worlds in which the machine at `a` runs are related. -/
def Alongside (C : Comparison η σ) (a : Address) (active : List Address)
    (r r' : Running (World (Host η))) : Prop :=
  C.Relates (a :: active) (world a r) (world a r')

theorem Alongside.machine {r r' : Running (World (Host η))} (h : Alongside C a active r r') :
    a ∈ (world a r).natives.keys ∧ (world a r).machine a = r.machine ∧
      (world a r').machine a = r'.machine := by
  have ha := h.running a List.mem_cons_self
  exact ⟨ha, machine_world ha, machine_world ((h.natives a).2 ha)⟩

/-- Work of the host in the middle of two runs. -/
theorem joint_atHost {x : Effect (Host η) α} (hx : C.Blind (a :: active) x)
    {r r' : Running (World (Host η))} (h : Alongside C a active r r') :
    Joint (Alongside C a active) (fun _ => True) (atHost a x) (atHost a x) r r' := by
  have hsealed := joint_sealed (hx h)
  have heq : ∀ r : Running (World (Host η)), atHost a x r = (x.sealed (world a r)).map id
      (fun w => ⟨w.machine a, w⟩) := fun _ => rfl
  unfold Joint at hsealed ⊢
  rw [heq, heq]
  generalize x.sealed (world a r) = e at *
  generalize x.sealed (world a r') = e' at *
  cases hsealed with
  | bound => exact .bound ..
  | @same o t t' ht =>
    refine .same ?_ fun _ _ => trivial
    rw [Alongside, world_machine, world_machine]
    exact ht

/-- **Blind callbacks keep two runs together.** -/
theorem Delegates.Blind.coupling (h : d.Blind C (a :: active)) :
    Coupling (C.kept a) (Alongside C a active) (callbacks d a) where
  matches' hr := by
    obtain ⟨ha, hm, hm'⟩ := hr.machine
    have hmatch := (hr.machines a ha).alike
    rwa [hm, hm'] at hmatch
  own {r r' m m'} hr hn hn' hmatch := by
    obtain ⟨ha, hm, hm'⟩ := hr.machine
    rw [Alongside, world_put a r m, world_put a r' m']
    refine Comparison.Relates.putMachine hr fun _ => ?_
    have hmachines := hr.machines a ha
    rw [hm, hm'] at hmachines
    exact hmachines.frame hn hn' hmatch
  write _ _ _ hr := joint_atHost (h.blind_write _) hr
  report _ _ _ hr := joint_atHost (h.blind_error _) hr
  resolve f hf importer name _ _ hr := by
    obtain rfl := Option.some.inj hf
    exact joint_atHost (h.blind_resolve _ _) hr
  load _ _ _ hr := joint_atHost (h.blind_load _) hr
  bindClass _ _ _ _ hr := joint_atHost (h.blind_bindClass _ _) hr
  bindMethod _ _ _ hr := joint_atHost (h.blind_bindMethod _) hr
  execute _ _ _ hr := joint_atHost (h.blind_execute _) hr
  allocate _ _ _ hr := joint_atHost (h.blind_allocate _) hr

/-- A run of a machine is blind if its work keeps two runs together. -/
theorem blind_onMachine {x : Callbacks (World (Host η)) → Call (World (Host η)) α}
    (hx : ∀ {r r'}, Alongside C a active r r' →
      Joint (Alongside C a active) (fun _ => True) (x (callbacks d a)) (x (callbacks d a)) r r') :
    C.Blind (a :: active) (onMachine d a x : Run (World (Host η)) φ α) := by
  intro w w' r
  have hstart : Alongside C a active ⟨w.machine a, w⟩ ⟨w'.machine a, w'⟩ := by
    rw [Alongside, world_machine, world_machine]
    exact r
  have hrun := joint_widen (φ := φ) (hx hstart)
  unfold Joint at hrun ⊢
  rw [onMachine_eq r.roster, onMachine_eq r.roster']
  generalize (x (callbacks d a)).widen ⟨w.machine a, w⟩ = e at *
  generalize (x (callbacks d a)).widen ⟨w'.machine a, w'⟩ = e' at *
  cases hrun with
  | bound => exact .bound ..
  | same ht => exact .same ht fun _ _ => trivial

theorem blind_toldResult (result : InterpretResult) :
    C.Blind active (Vm.told result : Run (World (Host η)) φ InterpretResult) :=
  blind_gets fun r => by rw [r.hasFault]

section

variable {vm : VmId} {e : Engine (Host η)} {w w' : World (Host η)}

/-- A machine that is alive runs in both worlds, or in neither. -/
theorem joint_running {operation : String} {f : Address → Act (Host η) β} (r : C.Relates active w w')
    (hf : C.Blind (w.addressOf vm :: active) (f (w.addressOf vm))) :
    Joint (C.Relates active) (fun _ => True) (live vm operation >>= f) (live vm operation >>= f)
      w w' := by
  refine joint_live r fun a hl => ?_
  obtain rfl : w.addressOf vm = a := hl.2
  exact (hf (r.cons (r.roster.mem_natives hl))).weaken fun ht => ht.subset (List.subset_cons_self _ _)

variable (h : e.delegates.Blind C (w.addressOf vm :: active)) (r : C.Relates active w w')
include h r

/-- **A program runs alike in both worlds.** -/
theorem joint_interpret (module source : String) :
    Joint (C.Relates active) (fun _ => True) (Vm.interpret e vm module source)
      (Vm.interpret e vm module source : Act (Host η) InterpretResult) w w' := by
  refine joint_running r ?_
  refine blind_bind (blind_terminated module) fun _ => blind_bind (blind_terminated source) fun _ => ?_
  refine blind_bind (blind_noteCall _) fun _ => blind_bind ?_ fun result => blind_toldResult result
  exact blind_onMachine fun hr => Machine.joint_interpret h.coupling hr _ _ _

/-- **A method is called alike in both worlds.** -/
theorem joint_call (method : CallHandle) :
    Joint (C.Relates active) (fun _ => True) (Vm.call e vm method)
      (Vm.call e vm method : Act (Host η) InterpretResult) w w' := by
  refine joint_running r ?_
  refine blind_bind (blind_checkedHandle _ _ _) fun x => blind_bind (blind_noteCall _) fun _ => ?_
  refine blind_bind ?_ fun result => blind_toldResult result
  exact blind_onMachine fun hr => Machine.joint_callHandle h.coupling hr _

end

end ScriptHost.Bridge
