import ScriptHost.Proofs.Evaluation
import ScriptHost.Proofs.Regime

/-!
# Machines that run among their callbacks

If the functions of a host lead from rest to rest, so does every call of a machine to its host
(`Behaved`), and so does a run of a machine at the address `a`: the state of such a run is a world in
which the machine lies at `a` (`world`), its own steps are steps of that world, and a callback works
on it (`guest_callbacks`).
-/

namespace ScriptHost.Bridge

open Machine (Frame State Running Call Callbacks Hosted Guest Block Key)
open Run (Within within_bind within_seq)

variable {η φ α β : Type}

/-! ## The functions of a host -/

theorem Vm.listeners_bind (vm : VmId) (f : Listeners → Run (World η) φ α) (w : World η) :
    (Vm.listeners vm >>= f) w = f (w.vm vm).listeners w := rfl

namespace Trampoline

variable [Observer η] {w : World η} {a : Address} {vm : VmId}

/-- A callback finds the machine that is registered at its address. -/
theorem lookup_bind (h : w.registered.find? a = some vm) (callback : String)
    (f : Option VmId → Effect η α) : (lookup a callback >>= f) w = f (some vm) w := by
  have hlookup : lookup a callback w = (.value (some vm), w) := by
    unfold lookup
    refine (Run.bind_of_value rfl _).trans ?_
    rw [h]
    rfl
  exact Run.bind_of_value hlookup f

/-- A callback from an address at which no machine is registered is put into the log. -/
theorem lookup_bind_none (h : w.registered.find? a = none) (callback : String)
    (f : Option VmId → Effect η α) : (lookup a callback >>= f) w =
      f none { w with
        host := Observer.log .warn (callback ++ " callback for unmanaged vm " ++
          Text.Hex.address a) w.host } := by
  have hlookup : lookup a callback w = (.value none, { w with
      host := Observer.log .warn (callback ++ " callback for unmanaged vm " ++
        Text.Hex.address a) w.host }) := by
    unfold lookup
    refine (Run.bind_of_value rfl _).trans ?_
    rw [h]
    rfl
  exact Run.bind_of_value hlookup f

end Trampoline

section Trampolines

variable {K : Regime η} {active : List Address} {d : Delegates (Host η)}

/-- Listeners of a host that keep a regime while the machines at `active` run. -/
structure Regime.Listens (K : Regime η) (active : List Address) (d : Delegates (Host η)) :
    Prop where
  write : ∀ f vm text w, K.allows vm →
    Within (K.Moves active) (K.Reaches active) (d.write f vm text) w
  error : ∀ f vm diagnostic w, K.allows vm →
    Within (K.Moves active) (K.Reaches active) (d.error f vm diagnostic) w
  resolve : ∀ f vm importer name w, K.allows vm →
    Within (K.Moves active) (K.Reaches active) (d.resolve f vm importer name) w
  load : ∀ f vm name w, K.allows vm →
    Within (K.Moves active) (K.Reaches active) (d.load f vm name) w
  bindClass : ∀ f vm module name w, K.allows vm →
    Within (K.Moves active) (K.Reaches active) (d.bindClass f vm module name) w
  bindMethod : ∀ f vm name w, K.allows vm →
    Within (K.Moves active) (K.Reaches active) (d.bindMethod f vm name) w

/-- Functions of a host that keep a regime while the machines at `active` run, apart from
finalizers.  Where one of them fails, its machine is asked to abort. -/
structure Regime.Behaved (K : Regime η) (active : List Address) (d : Delegates (Host η)) :
    Prop extends K.Listens active d where
  settles : ∀ vm, K.allows vm → (K.rights vm).Aborts
  method : ∀ f vm w, K.allows vm → Within (K.Moves active) (K.Reaches active) (d.method f vm) w
  allocator : ∀ f vm w, K.allows vm →
    Within (K.Moves active) (K.Reaches active) (d.allocator f vm) w

/-- Finalizers of a host that keep a regime. -/
structure Regime.Finalizers (K : Regime η) (active : List Address) (d : Delegates (Host η)) :
    Prop where
  ofClass : ∀ f object w,
    Within (K.Moves active) (K.Reaches active) (d.classFinalizer f object) w
  ofType : ∀ f payload w,
    Within (K.Moves active) (K.Reaches active) (d.typedFinalizer f payload) w

variable [Observer η] (k : K.Lawful)
include k

theorem within_deed {x : Run (World (Host η)) φ α} (hx : IsDeed K.allows K.powers x)
    (w : World (Host η)) : Within (K.Moves active) (K.Reaches active) x w :=
  k.within_of_deeds (hx w)

theorem within_return (v : α) (w : World (Host η)) :
    Within (K.Moves active) (K.Reaches active) (pure v : Run (World (Host η)) φ α) w :=
  Run.within_pure k.span v w

/-- What a callback does once the machine has been looked up, and what it does if that failed. -/
theorem within_lookup {a : Address} {callback : String} {f : Option VmId → Effect (Host η) α}
    {w : World (Host η)} (hnone : ∀ t, Within (K.Moves active) (K.Reaches active) (f none) t)
    (hsome : ∀ id, w.registered.find? a = some id →
      Within (K.Moves active) (K.Reaches active) (f (some id)) w) :
    Within (K.Moves active) (K.Reaches active) (Trampoline.lookup a callback >>= f) w := by
  cases hvm : w.registered.find? a with
  | some id =>
    rw [Within, Trampoline.lookup_bind hvm]
    exact hsome id hvm
  | none =>
    have hlog : Within (K.Moves active) (K.Reaches active)
        (log .warn (callback ++ " callback for unmanaged vm " ++ Text.Hex.address a) >>= fun _ =>
          f none) w :=
      within_seq k.span (within_deed k (deed_log _ _) w) fun _ t => hnone t
    rw [Within, Trampoline.lookup_bind_none hvm]
    exact hlog

omit k in
theorem deed_settle {P : VmId → Prop} {S : Powers} {vm : VmId} (hP : P vm)
    (hq : (S.rights vm).Aborts) (result : Except HostError Unit) (what : String) :
    IsDeed P S (Trampoline.settle vm result what : Effect (Host η) Unit) := by
  unfold Trampoline.settle
  split
  · exact deed_pure ()
  · split
    · exact deed_fatal _
    · refine deed_bind (deed_gets _) fun address => deed_bind (deed_log _ _) fun _ => ?_
      have habort : ∀ text, IsDeed P S (Vm.abortFiberWithMessage vm text : Act (Host η) Unit) :=
        fun text => deed_access (.abortFiberWithMessage vm text) hP
          (fun _ h => Option.some.inj h ▸ hq.1) fun _ h => Option.some.inj h ▸ hq.2
      refine deed_bind (fun w => Run.within_attempt (habort _ w)) ?_
      rintro (e | _)
      · exact deed_log _ _
      · exact deed_pure ()

section

variable {a : Address} {w : World (Host η)}

section

variable (h : K.Listens active d) (ho : K.Owns w a)
include h ho

theorem within_write (text? : Option String) :
    Within (K.Moves active) (K.Reaches active) (Trampoline.write d a text?) w := by
  refine within_lookup k (fun t => within_return k _ t) fun id hid => ?_
  refine within_seq k.span (within_deed k (deed_gets _) w) fun listeners t => ?_
  split
  · exact within_return k _ t
  · exact h.write _ _ _ t (ho id hid)

theorem within_error (diagnostic : Diagnostic) :
    Within (K.Moves active) (K.Reaches active) (Trampoline.error d a diagnostic) w := by
  refine within_lookup k (fun t => within_return k _ t) fun id hid => ?_
  refine within_seq k.span (within_deed k (deed_gets _) w) fun listeners t => ?_
  split
  · exact h.error _ _ _ t (ho id hid)
  · exact within_deed k (deed_log _ _) t

theorem within_resolve (importer? name? : Option String) :
    Within (K.Moves active) (K.Reaches active) (Trampoline.resolve d a importer? name?) w := by
  unfold Trampoline.resolve
  split
  · exact within_return k _ w
  · refine within_lookup k (fun t => within_return k _ t) fun id hid => ?_
    refine within_seq k.span (within_deed k (deed_gets _) w) fun listeners t => ?_
    split
    · exact within_return k _ t
    · exact h.resolve _ _ _ _ t (ho id hid)

theorem within_load (name? : Option String) :
    Within (K.Moves active) (K.Reaches active) (Trampoline.load d a name?) w := by
  refine within_lookup k (fun t => within_return k _ t) fun id hid => ?_
  refine within_seq k.span (within_deed k (deed_gets _) w) fun listeners t => ?_
  split
  · refine within_seq k.span (h.load _ _ _ t (ho id hid)) fun source? t => ?_
    split
    · exact within_return k _ t
    · split
      · exact within_return k _ t
      · exact within_deed k (deed_bind (deed_log _ _) fun _ => deed_pure _) t
  · exact within_return k _ t

theorem within_bindMethod (name : Machine.MethodName) :
    Within (K.Moves active) (K.Reaches active) (Trampoline.bindMethod d a name) w := by
  refine within_lookup k (fun t => within_return k _ t) fun id hid => ?_
  refine within_seq k.span (within_deed k (deed_gets _) w) fun listeners t => ?_
  split
  · exact within_return k _ t
  · refine within_seq k.span (h.bindMethod _ _ _ t (ho id hid)) fun key? t => ?_
    split
    · exact within_return k _ t
    · refine within_seq k.span (within_deed k (deed_gets _) t) fun service t => ?_
      split
      · exact within_return k _ t
      · exact within_deed k (deed_bind (deed_log _ _) fun _ => deed_pure _) t

theorem within_bindClass (module className : String) :
    Within (K.Moves active) (K.Reaches active) (Trampoline.bindClass d a module className) w := by
  refine within_lookup k (fun t => within_return k _ t) fun id hid => ?_
  refine within_seq k.span (within_deed k (deed_gets _) w) fun listeners t => ?_
  split
  · exact within_return k _ t
  · refine within_seq k.span (h.bindClass _ _ _ _ t (ho id hid)) fun key? t => ?_
    split
    · exact within_return k _ t
    · refine within_seq k.span (within_deed k (deed_gets _) t) fun service t => ?_
      split
      · exact within_return k _ t
      · exact within_deed k (deed_bind (deed_log _ _) fun _ => deed_pure _) t

end

/-- A method keeps a regime if the function that is bound to it does, and its machine may be asked to
abort. -/
theorem within_execute
    (hmethod : ∀ f id, w.registered.find? a = some id →
      Within (K.Moves active) (K.Reaches active) (d.method f id) w)
    (hsettle : ∀ id, w.registered.find? a = some id → K.allows id ∧ (K.rights id).Aborts) (key : Key) :
    Within (K.Moves active) (K.Reaches active) (Trampoline.execute d a key) w := by
  refine within_lookup k (fun t => within_return k _ t) fun id hid => ?_
  obtain ⟨hP, hr⟩ := hsettle id hid
  refine Run.within_gets_bind ?_
  split
  · exact within_deed k (deed_settle hP hr _ _) w
  · refine within_seq k.span (Run.within_attempt (hmethod _ id hid)) fun result t => ?_
    exact within_deed k (deed_settle hP hr _ _) t

theorem within_allocate
    (hallocator : ∀ f id, w.registered.find? a = some id →
      Within (K.Moves active) (K.Reaches active) (d.allocator f id) w)
    (hsettle : ∀ id, w.registered.find? a = some id → K.allows id ∧ (K.rights id).Aborts) (key : Key) :
    Within (K.Moves active) (K.Reaches active) (Trampoline.allocate d a key) w := by
  refine within_lookup k (fun t => within_return k _ t) fun id hid => ?_
  obtain ⟨hP, hr⟩ := hsettle id hid
  refine Run.within_gets_bind ?_
  split
  · exact within_deed k (deed_settle hP hr _ _) w
  · refine within_seq k.span (Run.within_attempt (hallocator _ id hid)) fun result t => ?_
    exact within_deed k (deed_settle hP hr _ _) t

end

section

variable (h : K.Finalizers active d)
include h

theorem within_runFinalizers (service : ServiceId) (address : Address)
    (finalizer? : Option Delegate) (found? : Option Entry) (w : World (Host η)) :
    Within (K.Moves active) (K.Reaches active)
      (Trampoline.runFinalizers d service address finalizer? found?) w := by
  -- after a function of its class, an object is finalized as if its class had none
  have hrest : ∀ t : World (Host η), Within (K.Moves active) (K.Reaches active)
      (Trampoline.runFinalizers d service address none found?) t := by
    intro t
    cases found? with
    | none => exact within_deed k (deed_bind (deed_log _ _) fun _ => deed_pure _) t
    | some entry =>
      refine within_seq k.span (within_deed k (deed_gets _) t) fun s t => ?_
      split
      · refine within_seq k.span (h.ofType _ _ t) fun _ t => ?_
        exact within_return k _ t
      · exact within_return k _ t
  cases finalizer? with
  | none => exact hrest w
  | some finalizer => exact within_seq k.span (h.ofClass _ _ w) fun _ => hrest

/-- A finalizer first removes the payload of the object, and then runs the functions of the host. -/
theorem within_finalize (block : Block) (key : Key) (w : World (Host η)) :
    ∃ rest : Effect (Host η) Unit, Trampoline.finalize d block key w = rest (w.unload block) ∧
      ∀ t, Within (K.Moves active) (K.Reaches active) rest t := by
  unfold Trampoline.finalize World.unload
  by_cases haddr : block.address = 0
  · rw [if_pos haddr]
    refine ⟨pure (), ?_, fun t => within_return k _ t⟩
    split
    · rfl
    · rw [if_pos haddr]
  · rw [if_neg haddr]
    cases block.owner? with
    | none =>
      exact ⟨log .warn ("finalizing untagged foreign object " ++ Text.Hex.address block.address),
        rfl, fun t => within_deed k (deed_log _ _) t⟩
    | some service =>
      simp only [if_neg haddr]
      refine ⟨do
        let _ ← Trampoline.runFinalizers d service block.address
          (((w.service service).bindings.class? key).bind ClassBinding.finalizer?)
          ((w.service service).payloads.take block.address).1
        return (), rfl, fun t => ?_⟩
      refine within_seq k.span (within_runFinalizers k h _ _ _ _ t) fun _ t => ?_
      exact within_return k _ t

end

end Trampolines

/-! ## Machines among their callbacks -/

/-- The world in the middle of a run of the machine at an address. -/
def world (a : Address) (r : Running (World η)) : World η := r.host.putMachine a r.machine

theorem world_machine (a : Address) (w : World η) : world a ⟨w.machine a, w⟩ = w :=
  w.putMachine_machine a

/-- A machine that changes in the middle of its run changes in the world. -/
theorem world_put (a : Address) (r : Running (World η)) (m : State) :
    world a { r with machine := m } = (world a r).putMachine a m :=
  (World.putMachine_putMachine _ _ _ _).symm

theorem machine_world {a : Address} {r : Running (World η)} (ha : a ∈ (world a r).natives.keys) :
    (world a r).machine a = r.machine :=
  World.machine_putMachine_self (World.mem_natives_putMachine.1 ha) _

/-- Work of a run whose machine is registered, as one on which the host may act. -/
def Regime.Turns (K : Regime η) (a : Address) (active : List Address)
    (r r' : Running (World (Host η))) : Prop :=
  a ∈ (world a r).registered.keys → K.Owns (world a r) a →
    K.Moves active (world a r) (world a r')

/-- Work of a run whose machine is registered, behind which nothing goes on. -/
def Regime.Ends (K : Regime η) (a : Address) (active : List Address)
    (r r' : Running (World (Host η))) : Prop :=
  a ∈ (world a r).registered.keys → K.Owns (world a r) a →
    K.Reaches active (world a r) (world a r')

theorem Held.mem_registered {w w' : World (Host η)} {a : Address} (h : Held w w' a) :
    a ∈ w'.registered.keys ↔ a ∈ w.registered.keys := by
  rw [← not_iff_not, ← Table.find?_eq_none_iff, ← Table.find?_eq_none_iff, h.registered]

theorem Held.owns {w w' : World (Host η)} {a : Address} (h : Held w w' a) {l : Licence η}
    (ho : l.Owns w a) : l.Owns w' a := by
  intro vm hvm
  rw [h.registered] at hvm
  exact ho vm hvm

theorem Regime.Lawful.span_turns [Observer η] {K : Regime η} (k : K.Lawful) {a : Address}
    {active : List Address} (ha : a ∈ active) :
    Span (K.Turns a active : Running (World (Host η)) → _ → Prop) (K.Ends a active) where
  refl r _ _ := k.span.refl _
  weaken h hreg ho := k.span.weaken (h hreg ho)
  trans h h' hreg ho hw hp := by
    have hheld := ((h hreg ho hw hp).1 hw).2.2 a ha
    exact k.span.trans (h hreg ho) (h' (hheld.mem_registered.2 hreg) (hheld.owns ho)) hw hp
  append h h' hreg ho hw hp := by
    have hheld := ((h hreg ho hw hp).1 hw).2.2 a ha
    exact k.span.append (h hreg ho) (h' (hheld.mem_registered.2 hreg) (hheld.owns ho)) hw hp

section Runs

variable {a : Address} {active : List Address} {d : Delegates (Host η)}

/-- Work of the host in the middle of a run is work on the world of the run. -/
theorem atHost_congr {r : Running (World (Host η))} {x y : Effect (Host η) α}
    (h : x (world a r) = y (world a r)) : atHost a x r = atHost a y r := by
  have hsealed : x.sealed (world a r) = y.sealed (world a r) := by
    rw [Run.sealed, Run.sealed, h]
  unfold atHost
  rw [show r.host.putMachine a r.machine = world a r from rfl, hsealed]

/-- The world behind work of the host in the middle of a run. -/
theorem world_atHost (x : Effect (Host η) α) (r : Running (World (Host η))) :
    ((atHost a x r).1 = (x.sealed (world a r)).1) ∧
      world a (atHost a x r).2 = (x.sealed (world a r)).2 := by
  unfold atHost
  exact ⟨rfl, World.putMachine_machine _ a⟩

theorem within_atHost {K : Regime η} {x : Effect (Host η) α}
    (hx : ∀ w, K.Owns w a → Within (K.Moves active) (K.Reaches active) x w)
    (r : Running (World (Host η))) : Within (K.Turns a active) (K.Ends a active) (atHost a x) r := by
  obtain ⟨hout, hworld⟩ := world_atHost (a := a) x r
  refine ⟨fun _ ho => ?_, fun hend _ ho => ?_⟩
  · rw [hworld]
    exact (Run.within_sealed (hx (world a r) ho)).1
  · rw [hworld]
    rw [hout] at hend
    exact (Run.within_sealed (hx (world a r) ho)).2 hend

/-- The own work of a machine leads from rest to rest. -/
theorem moves_own {r : Running (World (Host η))} {m : State} (hm : Frame r.machine m)
    (hreg : a ∈ (world a r).registered.keys) :
    Moves active (world a r) (world a { r with machine := m }) := by
  intro hw
  have hn : a ∈ (world a r).natives.keys := hw.sound.roster.native a hreg
  rw [← machine_world hn] at hm
  rw [world_put a r m]
  exact (Gentle.putMachine _ hm.swept hm.finalizing hreg hn).moves (.single (.work hreg hm)) hw

variable [Observer η] {K : Regime η}

/-- The callbacks of a machine keep what its listeners keep, if methods and allocators do. -/
theorem hosted_of_listens (k : K.Lawful) (h : K.Listens active d)
    {R S : Running (World (Host η)) → Running (World (Host η)) → Prop}
    (hR : ∀ {r t}, K.Turns a active r t → R r t) (hS : ∀ {r t}, K.Ends a active r t → S r t)
    (hexecute : ∀ key r, Within R S ((callbacks d a).execute key) r)
    (hallocate : ∀ key r, Within R S ((callbacks d a).allocate key) r) :
    Hosted R S (callbacks d a) where
  write text r := (within_atHost (fun _ ho => within_write k h ho (some text)) r).mono hR hS
  report diagnostic r := (within_atHost (fun _ ho => within_error k h ho diagnostic) r).mono hR hS
  resolve f hf importer name r := by
    cases hf
    exact (within_atHost (fun _ ho =>
      within_resolve k h ho (some importer) (some name)) r).mono hR hS
  load name r := (within_atHost (fun _ ho => within_load k h ho (some name)) r).mono hR hS
  bindClass module className r :=
    (within_atHost (fun _ ho => within_bindClass k h ho module className) r).mono hR hS
  bindMethod name r := (within_atHost (fun _ ho => within_bindMethod k h ho name) r).mono hR hS
  execute := hexecute
  allocate := hallocate

/-- **The callbacks of a machine keep a regime**, if the functions of its host do. -/
theorem hosted_callbacks (k : K.Lawful) (h : K.Behaved active d) :
    Hosted (K.Turns a active) (K.Ends a active) (callbacks d a) :=
  hosted_of_listens k h.toListens id id
    (fun key => within_atHost fun w ho => within_execute k
      (fun f id hid => h.method f id w (ho id hid))
      (fun id hid => ⟨ho id hid, h.settles id (ho id hid)⟩) key)
    fun key => within_atHost fun w ho => within_allocate k
      (fun f id hid => h.allocator f id w (ho id hid))
      (fun id hid => ⟨ho id hid, h.settles id (ho id hid)⟩) key

/-- A regime that runs of machines keep, if the functions of their host do. -/
structure Regime.Runs (K : Regime η) : Prop where
  interpret : ∀ {a active d}, a ∈ active → K.Behaved active d → ∀ depth module source r,
    Within (K.Turns a active) (K.Ends a active)
      (Machine.interpret (callbacks d a) depth module source) r
  call : K.calls → ∀ {a active d}, a ∈ active → K.Behaved active d → ∀ handle r,
    Within (K.Turns a active) (K.Ends a active) (Machine.callHandle (callbacks d a) handle) r

/-- **Runs of machines keep a regime that the own work of a machine keeps**, whatever it is. -/
theorem Regime.Lawful.runs (k : K.Lawful)
    (hown : ∀ {active : List Address} {w : World (Host η)} {vm : VmId} {a : Address} {m : State},
      Sound w → K.pre w → w.LiveAt vm a → K.allows vm → Frame (w.machine a) m →
        K.pre (w.putMachine a m) ∧ K.rel active w (w.putMachine a m)) : K.Runs := by
  have hguest : ∀ {a active d}, a ∈ active → K.Behaved active d →
      Guest (K.Turns a active) (K.Ends a active) (callbacks d a) := by
    intro a active d ha h
    refine ⟨hosted_callbacks k h, k.span_turns ha, fun {r m} hm hreg ho hw hp =>
      ⟨moves_own hm hreg, ?_⟩⟩
    obtain ⟨vm, hvm⟩ := Table.exists_find?_of_mem hreg
    have hl : (world a r).LiveAt vm a := (hw.sound.roster.registered a vm).1 hvm
    rw [← machine_world (hw.sound.roster.native a hreg)] at hm
    rw [world_put a r m]
    exact hown hw.sound hp hl (ho vm hvm) hm
  exact ⟨fun ha h => Machine.within_interpret (hguest ha h),
    fun _ _ _ _ ha h => Machine.within_callHandle (hguest ha h)⟩

/-- All machines here are made by services. -/
theorem callbacksOf_eq {w : World (Host η)} (hr : Roster w) : callbacksOf d w a = callbacks d a := by
  unfold callbacksOf
  split
  · next n hn => rw [if_pos (hr.managed a n hn)]
  · rfl

/-- A run of a machine ends as its work does, and leaves the world of its end. -/
theorem onMachine_eq {w : World (Host η)} (hr : Roster w)
    (x : Callbacks (World (Host η)) → Call (World (Host η)) α) :
    (onMachine d a x w : Outcome φ α × World (Host η)) =
      ((x (callbacks d a)).widen ⟨w.machine a, w⟩).map id (world a) := by
  unfold onMachine Run.widen
  rw [callbacksOf_eq hr]
  rcases x (callbacks d a) ⟨w.machine a, w⟩ with ⟨_ | e | _, r⟩
  · rfl
  · exact e.elim
  · rfl

end Runs

end ScriptHost.Bridge
