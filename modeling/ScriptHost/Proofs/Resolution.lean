import ScriptHost.Proofs.Catalogue
import ScriptHost.Proofs.Failures
import ScriptHost.Proofs.Registrations

/-!
# What the keys of a class mean

A class keeps a key from its declaration on, and each call of a host function looks the key up again.
Between the two, programs of the host register bindings, register them again, and replace or clear
listeners.  Bindings are only added to, so a key means what it has meant from the first registration
under it (`execute_of_base`, `allocate_of_base`), and classes keep bound keys only, so a run never
comes to a key that means nothing (`keyed_callbacks`).
-/

namespace ScriptHost.Bridge

open Machine (State Key Frame Running Call Callbacks Eval Keyed Follows AgreeOnKnown MethodName
  ClassKeys)
open Run (Within)

variable {η α : Type}

/-! ## Answers of binders -/

/-- Work of the host in the middle of a run that has a value is work on the world of the run. -/
theorem value_of_atHost {a : Address} {x : Effect (Host η) α} {v : α}
    {r t : Running (World (Host η))} (h : atHost a x r = (.value v, t)) :
    x (world a r) = (.value v, world a t) := by
  obtain ⟨hvalue, hworld⟩ := world_atHost x r
  rw [h] at hvalue hworld
  exact Run.value_of_sealed (Prod.ext hvalue.symm hworld.symm)

/-- The binder of a machine answers with a key for a method. -/
def AnswersMethod (d : Delegates (Host η)) (vm : VmId) (name : MethodName) (key : Key)
    (w t : World (Host η)) : Prop :=
  ∃ listener, (w.vm vm).listeners.bindMethod? = some listener ∧
    d.bindMethod listener vm name w = (.value (some key), t)

/-- The binder of a machine answers with a key for a class. -/
def AnswersClass (d : Delegates (Host η)) (vm : VmId) (module className : String) (key : Key)
    (w t : World (Host η)) : Prop :=
  ∃ listener, (w.vm vm).listeners.bindClass? = some listener ∧
    d.bindClass listener vm module className w = (.value (some key), t)

section

variable [Observer η] {d : Delegates (Host η)} {a : Address} {vm : VmId} {w t : World (Host η)}
  (hreg : w.registered.find? a = some vm)
include hreg

/-- A method gets the key that the binder of the machine answers with, if the key is bound. -/
theorem bindMethod_answer {name : MethodName} {key : Key}
    (h : Trampoline.bindMethod d a name w = (.value (some key), t)) :
    AnswersMethod d vm name key w t ∧ ((t.serviceOf vm).bindings.method? key).isSome := by
  simp only [Trampoline.bindMethod, Trampoline.lookup_bind hreg, Vm.listeners_bind] at h
  cases hlistener : (w.vm vm).listeners.bindMethod? with
  | none =>
    rw [hlistener] at h
    cases h
  | some listener =>
    rw [hlistener] at h
    obtain ⟨answer, u, hanswer, h⟩ := Run.value_of_bind h
    cases answer with
    | none => cases h
    | some key' =>
      simp only [Run.gets_bind] at h
      split at h
      · next hbound =>
        cases h
        exact ⟨⟨listener, hlistener, hanswer⟩, hbound⟩
      · obtain ⟨_, _, _, h⟩ := Run.value_of_bind h
        cases h

/-- A class gets the key that the binder of the machine answers with, if the key is bound. -/
theorem bindClass_answer {module className : String} {keys : ClassKeys} {key : Key}
    (h : Trampoline.bindClass d a module className w = (.value keys, t))
    (hkey : keys.allocate? = some key ∨ keys.finalize? = some key) :
    AnswersClass d vm module className key w t ∧
      ((t.serviceOf vm).bindings.class? key).isSome := by
  have hunbound : keys ≠ .unbound := by
    rintro rfl
    exact absurd hkey (by simp [ClassKeys.unbound])
  simp only [Trampoline.bindClass, Trampoline.lookup_bind hreg, Vm.listeners_bind] at h
  cases hlistener : (w.vm vm).listeners.bindClass? with
  | none =>
    rw [hlistener] at h
    cases h
    exact absurd rfl hunbound
  | some listener =>
    rw [hlistener] at h
    obtain ⟨answer, u, hanswer, h⟩ := Run.value_of_bind h
    cases answer with
    | none =>
      cases h
      exact absurd rfl hunbound
    | some key' =>
      simp only [Run.gets_bind] at h
      split at h
      · next hbound =>
        cases h
        obtain rfl : key' = key := hkey.elim Option.some.inj Option.some.inj
        exact ⟨⟨listener, hlistener, hanswer⟩, hbound⟩
      · obtain ⟨_, _, _, h⟩ := Run.value_of_bind h
        cases h
        exact absurd rfl hunbound

end

/-! ## Machines that serve their classes -/

section

variable {base : World (Host η)} {vm : VmId} {a : Address} {active : List Address}
  {d : Delegates (Host η)} {r t : Running (World (Host η))}

/-- The machine `vm` runs at `a`, in a world that has come from `base`, and all keys that classes keep
are bound. -/
structure Serving (base : World (Host η)) (vm : VmId) (a : Address) (active : List Address)
    (r : Running (World (Host η))) : Prop extends Working vm a active r where
  catalogued : Catalogued (world a r)
  advances : base.Advances (world a r)

/-- A machine that is alive serves its classes where it starts to run. -/
theorem Serving.of_liveAt {w : World (Host η)} (hw : Steady active w) (hc : Catalogued w)
    (hadvances : base.Advances w) (hl : w.LiveAt vm a) :
    Serving base vm a (a :: active) ⟨w.machine a, w⟩ := by
  have hsteady := hw.cons (hw.sound.roster.mem_natives hl)
  rw [← world_machine a w] at hsteady hl hc hadvances
  exact ⟨⟨hsteady, hl⟩, hc, hadvances⟩

/-- The bindings of the service of a machine in the middle of its run. -/
def bindingsOf (vm : VmId) (a : Address) (r : Running (World (Host η))) : Bindings :=
  ((world a r).serviceOf vm).bindings

theorem Serving.find? (h : Serving base vm a active r) :
    (world a r).registered.find? a = some vm :=
  (h.steady.sound.roster.registered a vm).2 h.live

/-- The keys that the classes of the machine keep are bound. -/
theorem Serving.binds (h : Serving base vm a active r) {id : Machine.ObjectId} {c : Machine.Class}
    (hc : r.machine.heap.class? id = some c) : (bindingsOf vm a r).Binds c := by
  refine h.catalogued.binds vm a h.live id c ?_
  rwa [h.machine]

/-- Work that keeps the regime leads to where the machine serves again. -/
theorem Serving.of_turns (h : Serving base vm a active r) (ha : a ∈ active)
    (ht : Regime.cataloguing.Turns a active r t) :
    Serving base vm a active t ∧ (world a r).Advances (world a t) ∧
      (bindingsOf vm a r).Grows (bindingsOf vm a t) := by
  obtain ⟨hmoves, hcatalogued, hadvances⟩ :=
    ht h.mem_registered (h.owns (l := .free) trivial) h.steady h.catalogued
  exact ⟨⟨h.toWorking.of_passes ha hmoves, hcatalogued, h.advances.trans hadvances⟩, hadvances,
    hadvances.serviceOf h.known⟩

/-- The own work of a machine keeps the regime, as long as its classes keep bound keys. -/
theorem turns_put {m : State} (hm : Frame r.machine m)
    (hbinds : ∀ vm, (world a r).LiveAt vm a →
      (bindingsOf vm a r).BindsAll r.machine → (bindingsOf vm a r).BindsAll m) :
    Regime.cataloguing.Turns a active r { r with machine := m } := by
  intro hreg _ hw hp
  have hn := hw.sound.roster.native a hreg
  have hadvances : (world a r).Advances (world a { r with machine := m }) := by
    rw [world_put a r m]
    exact .of_eq rfl rfl rfl
  refine ⟨moves_own hm hreg, ⟨?_, fun vm b hl => ?_⟩, hadvances⟩
  · rw [world_put a r m]
    exact hp.listed
  · rw [world_put a r m] at hl ⊢
    by_cases hb : b = a
    · subst hb
      have hall := hp.binds vm b hl
      rw [machine_world hn] at hall
      rw [World.machine_putMachine_self hn]
      exact hbinds vm hl hall
    · rw [World.machine_putMachine_ne _ hb]
      exact hp.binds vm b hl

variable [Observer η]

/-- **A machine calls bound keys only**, if the functions of its host keep the keys of classes
bound. -/
theorem keyed_callbacks (base : World (Host η)) (ha : a ∈ active)
    (h : Regime.cataloguing.Behaved active d) :
    Keyed (Serving base vm a active) (Regime.cataloguing.Turns a active)
      (Regime.cataloguing.Ends a active)
      (fun r key => ((bindingsOf vm a r).method? key).isSome)
      (fun r key => ((bindingsOf vm a r).class? key).isSome) (callbacks d a) (callbacks d a) := by
  have hspan := (lawful_cataloguing (η := η)).span_turns ha
  have hosted := hosted_callbacks (a := a) lawful_cataloguing h
  exact
    { span := hspan
      keeps := fun hok ht => (hok.of_turns ha ht).1
      keepsMethod := fun hok ht => (hok.of_turns ha ht).2.2.isSome_method?
      keepsClass := fun hok ht => (hok.of_turns ha ht).2.2.isSome_class?
      own := fun hm hold => turns_put hm fun _ _ hall => hall.of_oldClasses hold
      declared := by
        intro r c hok hknown module name
        refine turns_put (Machine.State.own_declare r.machine module name c).toFrame ?_
        intro vm' hl hall
        obtain rfl : vm' = vm := hok.steady.sound.roster.eq_of_liveAt hl hok.live
        exact hall.declare hknown module name
      known := fun hok hc => hok.binds hc
      write := fun text r _ => .self (hosted.write text r)
      report := fun diagnostic r _ => .self (hosted.report diagnostic r)
      resolve := by
        intro importer name r _
        refine .self (Run.within_seq hspan
          (Run.within_widen (hosted.resolve _ rfl _ _ r)) fun resolved t => ?_)
        split
        · exact Run.within_pure hspan _ t
        · exact Run.within_fault hspan _ t
      load := fun name r _ => .self (hosted.load name r)
      bindClass := by
        intro module className r hok
        refine ⟨.self (hosted.bindClass module className r), fun keys t hrun key hkey => ?_⟩
        have hcall := value_of_atHost hrun
        exact (bindClass_answer hok.find? hcall hkey).2
      bindMethod := by
        intro name r hok
        refine ⟨.self (hosted.bindMethod name r), fun key t hrun => ?_⟩
        exact (bindMethod_answer hok.find? (value_of_atHost hrun)).2
      execute := fun key r _ _ => .self (hosted.execute key r)
      allocate := fun key r _ _ => .self (hosted.allocate key r) }

/-- **Runs keep the keys of classes bound**, whatever the host does meanwhile. -/
theorem upheld_cataloguing : (Regime.cataloguing : Regime η).Upheld where
  lawful := lawful_cataloguing
  frank _ := Machine.Rights.le_all _
  sweeps _ := sweeps_cataloguing
  runs := by
    -- a machine that is registered serves its classes, in a world that has come from itself
    have hserves : ∀ {a : Address} {active : List Address} {β : Type}
        {x : Call (World (Host η)) β} {r : Running (World (Host η))}, a ∈ active →
        (∀ vm, Serving (world a r) vm a active r →
          Within (Regime.cataloguing.Turns a active) (Regime.cataloguing.Ends a active) x r) →
        Within (Regime.cataloguing.Turns a active) (Regime.cataloguing.Ends a active) x r := by
      intro a active β x r ha hx
      have hwithin : a ∈ (world a r).registered.keys → Steady active (world a r) →
          Catalogued (world a r) →
          Within (Regime.cataloguing.Turns a active) (Regime.cataloguing.Ends a active) x r := by
        intro hreg hw hp
        obtain ⟨vm, hvm⟩ := Table.exists_find?_of_mem hreg
        have hl : (world a r).LiveAt vm a := (hw.sound.roster.registered a vm).1 hvm
        exact hx vm ⟨⟨hw, hl⟩, hp, .refl _⟩
      exact ⟨fun hreg ho hw hp => (hwithin hreg hw hp).1 hreg ho hw hp,
        fun hend hreg ho hw hp => (hwithin hreg hw hp).2 hend hreg ho hw hp⟩
    exact {
      interpret := fun {a active d} ha h depth module source r => hserves ha fun vm hr =>
        (Machine.follows_interpret (keyed_callbacks (world a r) ha h) depth module source hr).within
      call := fun _ {a active d} ha h handle r => hserves ha fun vm hr =>
        (Machine.follows_callHandle (keyed_callbacks (world a r) ha h) handle hr).within }

/-! ## What a key means -/

/-- What a machine does when it calls a method that is bound to a host function. -/
def executes (d : Delegates (Host η)) (a : Address) (vm : VmId) (f : Delegate) :
    Call (World (Host η)) Unit :=
  atHost a do Trampoline.settle vm (← Run.attempt (d.method f vm)) "foreign method"

/-- What a machine does when it constructs an instance of a class that is bound to a host
function. -/
def allocates (d : Delegates (Host η)) (a : Address) (vm : VmId) (f : Delegate) :
    Call (World (Host η)) Unit :=
  atHost a do Trampoline.settle vm (← Run.attempt (d.allocator f vm)) "allocator"

/-- A machine that calls a bound key calls the method that is bound to it. -/
theorem Serving.execute (h : Serving base vm a active r) {key : Key} {b : MethodBinding}
    (hb : (bindingsOf vm a r).method? key = some b) :
    (callbacks d a).execute key r = executes d a vm b.method r :=
  atHost_congr (execute_of_bound h.find? (congrArg (Option.map MethodBinding.method) hb))

theorem Serving.allocate (h : Serving base vm a active r) {key : Key} {b : ClassBinding}
    (hb : (bindingsOf vm a r).class? key = some b) :
    (callbacks d a).allocate key r = allocates d a vm b.allocator r :=
  atHost_congr (allocate_of_bound h.find? (congrArg (Option.map ClassBinding.allocator) hb))

/-- On the way from `r` to `t`, a binder has answered with a key under which a binding is found at
once, and the same one behind it. -/
def Picked {β : Type} (vm : VmId) (a : Address) (answers : World (Host η) → World (Host η) → Prop)
    (find? : Bindings → Option β) (r t : Running (World (Host η))) : Prop :=
  ∃ u v b, (world a r).Advances (world a u) ∧ answers (world a u) (world a v) ∧
    find? (bindingsOf vm a v) = some b ∧ (world a v).Advances (world a t) ∧
    find? (bindingsOf vm a t) = some b

/-- What the keys of classes mean to a machine in the middle of its run. -/
structure Resolution (d : Delegates (Host η)) (base : World (Host η)) (vm : VmId) (a : Address)
    (active : List Address) (r : Running (World (Host η))) : Prop where
  /-- A class that is declared keeps keys with which the binders of the machine have answered. -/
  declares : ∀ module decl t,
    Machine.declareClass (callbacks d a) module decl r = (.value (), t) →
      Serving base vm a active t ∧ ∃ id c,
        t.machine.global? module decl.name = some (.object id) ∧
        t.machine.heap.class? id = some c ∧
        (∀ isStatic signature key, c.method? isStatic signature = some key →
          ∃ m ∈ decl.methods, m.isStatic = isStatic ∧ m.signature = signature ∧
            Picked vm a (AnswersMethod d vm (Machine.nameOf module decl.name m) key)
              (fun bindings => bindings.method? key) r t) ∧
        ∀ key, c.allocate? = some key ∨ c.finalize? = some key →
          Picked vm a (AnswersClass d vm (Text.strip module) (Text.strip decl.name) key)
            (fun bindings => bindings.class? key) r t
  /-- All keys that classes keep are bound. -/
  binds : ∀ id c, r.machine.heap.class? id = some c → (bindingsOf vm a r).Binds c
  /-- A call of a method key runs what was bound to it first, in whatever world that was. -/
  resolvesMethod : ∀ {first : World (Host η)} {key : Key} {b : MethodBinding},
    first.Advances (world a r) →
      (first.service ((world a r).vm vm).service).bindings.method? key = some b →
        (callbacks d a).execute key r = executes d a vm b.method r
  /-- A construction at a class key runs what was bound to it first. -/
  resolvesClass : ∀ {first : World (Host η)} {key : Key} {b : ClassBinding},
    first.Advances (world a r) →
      (first.service ((world a r).vm vm).service).bindings.class? key = some b →
        (callbacks d a).allocate key r = allocates d a vm b.allocator r
  /-- An invocation of a foreign method runs the method that is bound to its key. -/
  invokes : ∀ signature frame key,
    r.machine.heap.target (frame.headD .null) signature = .foreign key →
      ∃ b, (bindingsOf vm a r).method? key = some b ∧
        Machine.invoke (callbacks d a) signature frame r =
          Machine.callForeign (executes d a vm b.method) frame r
  /-- A construction of a foreign object runs the allocator that is bound to the key of its class. -/
  constructs : ∀ signature frame owner key,
    r.machine.heap.target (frame.headD .null) signature = .constructForeign owner (some key) →
      ∃ b, (bindingsOf vm a r).class? key = some b ∧
        Machine.invoke (callbacks d a) signature frame r =
          Machine.invoke { callbacks d a with allocate := fun _ => allocates d a vm b.allocator }
            signature frame r
  /-- Programs and calls of handles do not depend on what is done at keys that are not bound, nor on
  what is done where the machine does not serve its classes, and lead to where it does. -/
  runs : ∀ cb', AgreeOnKnown (Serving base vm a active)
      (fun t key => ((bindingsOf vm a t).method? key).isSome)
      (fun t key => ((bindingsOf vm a t).class? key).isSome) cb' (callbacks d a) →
    (∀ nesting module source,
      let run := Machine.interpret (callbacks d a) nesting module source
      Machine.interpret cb' nesting module source r = run r ∧
        ∀ result t, run r = (.value result, t) → Serving base vm a active t) ∧
    ∀ handle,
      let run := Machine.callHandle (callbacks d a) handle
      Machine.callHandle cb' handle r = run r ∧
        ∀ result t, run r = (.value result, t) → Serving base vm a active t
  /-- A program that runs in the middle starts where its machine serves its classes, too. -/
  nests : ∀ {vm' : VmId} {b : Address}, (world a r).LiveAt vm' b →
    Serving base vm' b (b :: active) ⟨(world a r).machine b, world a r⟩

section

variable (k : Keyed (Serving base vm a active) (Regime.cataloguing.Turns a active)
    (Regime.cataloguing.Ends a active) (fun r key => ((bindingsOf vm a r).method? key).isSome)
    (fun r key => ((bindingsOf vm a r).class? key).isSome) (callbacks d a) (callbacks d a))
  (ha : a ∈ active) (hr : Serving base vm a active r)
include k ha hr

/-- What a machine has answered to itself, the binder has answered to the machine. -/
theorem Picked.of_answered {name : MethodName} {key : Key}
    (h : Machine.Answered (Serving base vm a active) (Regime.cataloguing.Turns a active)
      (callbacks d a) name key r t) :
    Picked vm a (AnswersMethod d vm name key) (fun bindings => bindings.method? key) r t := by
  obtain ⟨u, v, hu, hru, hcall, hvt⟩ := h
  obtain ⟨hanswers, hbound⟩ := bindMethod_answer hu.find? (value_of_atHost hcall)
  obtain ⟨b, hb⟩ := Option.isSome_iff_exists.1 hbound
  obtain ⟨hv, -⟩ := hu.of_turns ha ((k.bindMethod name u hu).1.of_value hcall)
  obtain ⟨-, hadvances, hgrows⟩ := hv.of_turns ha hvt
  exact ⟨u, v, b, (hr.of_turns ha hru).2.1, hanswers, hb, hadvances, hgrows.method? hb⟩

/-- **Keys of classes mean what they meant when they were handed out.** -/
theorem Serving.resolution : Resolution d base vm a active r where
  declares module decl t hrun := by
    obtain ⟨id, c, hglobal, hclass, hmethods, hkeys⟩ := Machine.keys_of_declareClass k hr hrun
    have ht := (Machine.follows_declareClass k module decl hr).of_value hrun
    refine ⟨(hr.of_turns ha ht).1, id, c, hglobal, hclass, ?_, fun key hkey => ?_⟩
    · intro isStatic signature key hkey
      obtain ⟨m, hm, hs, hsig, hanswered⟩ := hmethods isStatic signature key hkey
      exact ⟨m, hm, hs, hsig, Picked.of_answered k ha hr hanswered⟩
    · obtain ⟨keys, u, hcall, hut, hkey⟩ := hkeys key hkey
      obtain ⟨hanswers, hbound⟩ := bindClass_answer hr.find? (value_of_atHost hcall) hkey
      obtain ⟨b, hb⟩ := Option.isSome_iff_exists.1 hbound
      obtain ⟨hu, -⟩ := hr.of_turns ha ((k.bindClass _ _ r hr).1.of_value hcall)
      obtain ⟨-, hadvances, hgrows⟩ := hu.of_turns ha hut
      exact ⟨r, u, b, .refl _, hanswers, hb, hadvances, hgrows.class? hb⟩
  binds _ _ hc := hr.binds hc
  resolvesMethod hadvances hb := hr.execute ((hadvances.grows _).method? hb)
  resolvesClass hadvances hb := hr.allocate ((hadvances.grows _).class? hb)
  invokes signature frame key htarget := by
    obtain ⟨id, c, hc, hmethod⟩ := Machine.Heap.hasMethod_of_target htarget
    have hkey := (hr.binds hc).method key hmethod
    obtain ⟨b, hb⟩ := Option.isSome_iff_exists.1 hkey
    refine ⟨b, hb, (Machine.invoke_of_foreign htarget).trans ?_⟩
    refine (Machine.follows_callForeign k hr fun hok ht => ?_).same.symm
    refine ⟨(hok.execute ?_).symm, (k.execute key _ hok (k.keepsMethod hr ht hkey)).within⟩
    exact (hr.of_turns ha ht).2.2.method? hb
  constructs signature frame owner key htarget := by
    obtain ⟨c, hc, hallocate⟩ := Machine.Heap.allocate_of_target htarget
    have hkey := (hr.binds hc).allocator key hallocate
    obtain ⟨b, hb⟩ := Option.isSome_iff_exists.1 hkey
    refine ⟨b, hb, (Machine.invoke_of_constructForeign htarget ?_).symm⟩
    refine (Machine.follows_callForeign k hr fun hok ht => ?_).same
    refine ⟨(hok.allocate ?_).symm, (k.allocate key _ hok (k.keepsClass hr ht hkey)).within⟩
    exact (hr.of_turns ha ht).2.2.class? hb
  runs cb' hagree := by
    have k' := k.of_agree hagree
    have hgoes : ∀ {x : Call (World (Host η)) InterpretResult}
        {y : Call (World (Host η)) InterpretResult},
        Follows (Regime.cataloguing.Turns a active) (Regime.cataloguing.Ends a active) x y r →
          x r = y r ∧ ∀ result t, y r = (.value result, t) → Serving base vm a active t :=
      fun h => ⟨h.same, fun _ _ hy => (hr.of_turns ha (h.of_value hy)).1⟩
    exact ⟨fun nesting module source =>
      hgoes (Machine.follows_interpret k' nesting module source hr),
      fun handle => hgoes (Machine.follows_callHandle k' handle hr)⟩
  nests hl := Serving.of_liveAt hr.steady hr.catalogued hr.advances hl

end

end

/-! ## Hosts -/

namespace Setting

variable [Observer η] (s : Setting η)

/-- Behind any program that has not ended the process, the keys of classes are bound. -/
theorem catalogued_run (p : Program η α) (h : (s.run p).1.isFinal = false) :
    Catalogued (s.run p).2 ∧ s.start.Advances (s.run p).2 := by
  have hserves := serves_engines upheld_cataloguing s.code.obeys_free s.importDepth s.depth
  have hrun : Within (Regime.cataloguing.Moves []) (Regime.cataloguing.Reaches [])
      (p.run s.engines []) s.start :=
    within_program upheld_cataloguing.toSustained hserves p p.obeys_free s.start
  exact (hrun.2 h s.steady_start (.start _ _ _)).2

/-- A machine that is alive behind a program serves its classes where it starts to run. -/
theorem serving_run (p : Program η α) {vm : VmId} {a : Address} (h : (s.run p).1.isFinal = false)
    (hl : (s.run p).2.LiveAt vm a) :
    Serving s.start vm a [a] ⟨(s.run p).2.machine a, (s.run p).2⟩ := by
  obtain ⟨hcatalogued, hadvances⟩ := s.catalogued_run p h
  exact .of_liveAt (s.steady_run p h) hcatalogued hadvances hl

/-- **A key means what was first bound to it, whenever it is called.**  A machine that starts to run
serves its classes, and wherever it does, in the middle of any run, so it does behind whatever the
host performs there.  Its classes keep the keys that binders have answered with, and a call of one
runs what was bound to it first in the service of the machine, as it still is.  What is done at keys
that are not bound makes no difference to any run, as none is ever called.  A key with which a
registration has come back stays bound to one binding, also while others register at once. -/
theorem keys_resolved :
    (∀ {α : Type} (p : Program η α) {vm : VmId} {a : Address}, (s.run p).1.isFinal = false →
      (s.run p).2.LiveAt vm a →
        Serving s.start vm a [a] ⟨(s.run p).2.machine a, (s.run p).2⟩) ∧
    (∀ depth {base : World (Host η)} {vm : VmId} {a : Address} {active : List Address}
        {r : Running (World (Host η))}, a ∈ active → Serving base vm a active r →
      Resolution (s.code.engines s.importDepth depth active).delegates base vm a active r ∧
      ∀ (α : Type) (p : Program η α) outcome w,
        p.run (s.code.engines s.importDepth depth) active (world a r) = (outcome, w) →
          outcome.isFinal = false → Serving base vm a active ⟨w.machine a, w⟩) ∧
    ∀ moves (i : Nat) item key isNew,
      (Traffic.play moves .empty).calls[i]? = some ⟨item, .done key isNew⟩ →
        ∃ b, b.name = item.name ∧ ∀ later,
          (Traffic.play later (Traffic.play moves .empty)).registry.item? (item.kind, key) =
            some b := by
  refine ⟨s.serving_run, fun depth {base vm a active r} ha hr => ⟨?_, ?_⟩, ?_⟩
  · have hbehaved := (serves_engines upheld_cataloguing s.code.obeys_free s.importDepth
      depth).behaved active
    exact hr.resolution (keyed_callbacks base ha hbehaved) ha
  · intro α p outcome w hrun hend
    have hserves := serves_engines upheld_cataloguing s.code.obeys_free s.importDepth depth
    have hwithin : Within (Regime.cataloguing.Moves active) (Regime.cataloguing.Reaches active)
        (p.run (s.code.engines s.importDepth depth) active) (world a r) :=
      within_program upheld_cataloguing.toSustained hserves p p.obeys_free (world a r)
    have hgoes := hwithin.2
    rw [hrun] at hgoes
    refine (hr.of_turns ha fun _ _ => ?_).1
    rw [world_machine]
    exact hgoes hend
  · intro moves i item key isNew hcall
    obtain ⟨b, hname, -, hlater⟩ := (Traffic.ordered_empty.play moves).1.resolves hcall
    exact ⟨b, hname, fun later => (hlater later).2⟩

/-- A host whose binder answers with the first key. -/
def picking : Setting Unit :=
  { silent with code := { silent.code with bindMethod := fun _ _ _ => .done (some 1) } }

/-- A host that declares a class with a method, registers the method again, and takes the binder
away. -/
def engaging : Program Unit Vm :=
  .ask .newService fun service =>
  .ask (.registerMethod service ⟨7, some "first"⟩) fun _ =>
  .ask (.create service ⟨none, none, none, none⟩) fun vm =>
  .ask (.listen vm.id fun l => { l with bindMethod? := some 5 }) fun _ =>
  .ask (.interpret vm.id "main" "class A { foreign static f() }") fun _ =>
  .ask (.registerMethod service ⟨7, some "again"⟩) fun _ =>
  .ask (.registerMethod service ⟨8, none⟩) fun _ =>
  .ask (.listen vm.id fun _ => .none) fun _ => .done vm

/-- The world of the class. -/
def engaged : World (Host Unit) := (picking.run engaging).2

theorem engaged_eq :
    ((picking.run engaging).1.isFinal, (engaged.vm 1).isAlive, (engaged.vm 1).address,
      (engaged.machine 2).heap.target (.object 3) "f()",
      (engaged.serviceOf 1).bindings.method? 1) =
      (false, true, 2, .foreign 1, some ⟨7, some "first"⟩) := by
  cbv

/-- The method of the class runs, although its binder is gone. -/
theorem keys_resolved_engaged :
    let d := (picking.code.engines 1 1 [2]).delegates
    let r : Running (World (Host Unit)) := ⟨engaged.machine 2, engaged⟩
    Serving picking.start 1 2 [2] r ∧
      Machine.invoke (callbacks d 2) "f()" [.object 3] r =
        Machine.callForeign (executes d 2 1 7) [.object 3] r := by
  intro d r
  obtain ⟨hstarts, hresolves, -⟩ := picking.keys_resolved
  have hend : (picking.run engaging).1.isFinal = false := congrArg (·.1) engaged_eq
  have hl : engaged.LiveAt 1 2 :=
    ⟨congrArg (·.2.1) engaged_eq, congrArg (·.2.2.1) engaged_eq⟩
  have hserving : Serving picking.start 1 2 [2] r := hstarts engaging hend hl
  have htarget : r.machine.heap.target (.object 3) "f()" = .foreign 1 :=
    congrArg (·.2.2.2.1) engaged_eq
  obtain ⟨b, hb, hinvoke⟩ := (hresolves 1 List.mem_cons_self hserving).1.invokes _ [.object 3] _
    htarget
  have hbound : (bindingsOf 1 2 r).method? 1 = some ⟨7, some "first"⟩ := by
    rw [bindingsOf, world_machine]
    exact congrArg (·.2.2.2.2) engaged_eq
  cases hbound.symm.trans hb
  exact ⟨hserving, hinvoke⟩

end Setting

end ScriptHost.Bridge
