import ScriptHost.Proofs.Resolution

/-!
# Keys are numbers

Each service numbers its bindings from one, in the order of their first registrations.  A key is such a
number and nothing else: it does not say which service has handed it out.  So services share their keys,
although each of them resolves a key among its own bindings only.  What a binder answers is taken for a
key of the service of its machine, if that has a binding of the kind under the number
(`bindMethod_of_answer`, `bindClass_of_answer`), whichever service it comes from.
-/

namespace ScriptHost.Bridge

open Machine (Key Running MethodName)
open Bindings (numbered?)

variable {η α : Type}

/-! ## Answers of binders -/

section

variable [Observer η] {d : Delegates (Host η)} {a : Address} {vm : VmId} {w t : World (Host η)}
  {listener : Delegate} {key : Key} (hreg : w.registered.find? a = some vm)
include hreg

/-- The key that a binder answers with is looked up among the methods of the service of its machine. -/
theorem bindMethod_of_answer {name : MethodName}
    (hlistener : (w.vm vm).listeners.bindMethod? = some listener)
    (hanswer : d.bindMethod listener vm name w = (.value (some key), t)) :
    (Trampoline.bindMethod d a name w).1 =
      .value (((t.serviceOf vm).bindings.method? key).map fun _ => key) := by
  simp only [Trampoline.bindMethod, Trampoline.lookup_bind hreg, Vm.listeners_bind, hlistener,
    Run.bind_of_value hanswer, Run.gets_bind]
  cases (t.serviceOf vm).bindings.method? key <;> rfl

/-- The key that a binder answers with is looked up among the classes of the service of its machine. -/
theorem bindClass_of_answer {module className : String}
    (hlistener : (w.vm vm).listeners.bindClass? = some listener)
    (hanswer : d.bindClass listener vm module className w = (.value (some key), t)) :
    (Trampoline.bindClass d a module className w).1 =
      .value (((t.serviceOf vm).bindings.class? key).elim .unbound fun _ => ⟨some key, some key⟩) := by
  simp only [Trampoline.bindClass, Trampoline.lookup_bind hreg, Vm.listeners_bind, hlistener,
    Run.bind_of_value hanswer, Run.gets_bind]
  cases (t.serviceOf vm).bindings.class? key <;> rfl

end

/-! ## Numbers -/

/-- The method that an item is. -/
def Item.method? : Item → Option MethodBinding
  | .ofMethod b => some b
  | .ofClass _ => none

/-- The class that an item is. -/
def Item.class? : Item → Option ClassBinding
  | .ofClass b => some b
  | .ofMethod _ => none

namespace Bindings

variable {r : Bindings} {items : List Item}

/-- A key of a kind is the number of a binding of the kind. -/
theorem Lists.item?_eq (h : r.Lists items) (kind : Kind) (key : Key) :
    r.item? (kind, key) = (numbered? items key).filter fun b => b.kind = kind := by
  refine Option.ext fun b => h.bound.trans ?_
  rw [Option.filter_eq_some_iff, decide_eq_true_eq]

theorem Lists.method?_eq (h : r.Lists items) (key : Key) :
    r.method? key = (numbered? items key).bind Item.method? := by
  have hitem : r.method? key = (r.item? (.ofMethod, key)).bind Item.method? := by
    rw [item?]
    cases r.method? key <;> rfl
  rw [hitem, h.item?_eq]
  rcases numbered? items key with _ | _ | _ <;> rfl

theorem Lists.class?_eq (h : r.Lists items) (key : Key) :
    r.class? key = (numbered? items key).bind Item.class? := by
  have hitem : r.class? key = (r.item? (.ofClass, key)).bind Item.class? := by
    rw [item?]
    cases r.class? key <;> rfl
  rw [hitem, h.item?_eq]
  rcases numbered? items key with _ | _ | _ <;> rfl

end Bindings

/-- The bindings of each service, in the order of their numbers. -/
def World.Numbers (w : World η) (items : ServiceId → List Item) : Prop :=
  ∀ service, (w.service service).bindings.Lists (items service)

/-- What keys mean to a machine in the middle of its run, `items` being the bindings of services. -/
structure ByNumber [Observer η] (d : Delegates (Host η)) (vm : VmId) (a : Address)
    (items : ServiceId → List Item) (r : Running (World (Host η))) : Prop where
  /-- Each service has as many bindings as it has handed out keys. -/
  counts : ∀ service, ((world a r).service service).bindings.classCount +
    ((world a r).service service).bindings.methodCount = (items service).length
  /-- A service hands out the number of the binding of a host function, and else the next number. -/
  registers : ∀ service (item : Item), let bindings := ((world a r).service service).bindings
    (∃ key b, numbered? (items service) key = some b ∧ b.name = item.name ∧
      (item.register bindings).1 = (key, false)) ∨
    (item.name ∉ (items service).map Item.name ∧
      (item.register bindings).1 = ((items service).length + 1, true))
  /-- A service resolves a key among its own bindings, by their numbers. -/
  methods : ∀ service key, ((world a r).service service).bindings.method? key =
    (numbered? (items service) key).bind Item.method?
  classes : ∀ service key, ((world a r).service service).bindings.class? key =
    (numbered? (items service) key).bind Item.class?
  /-- A key that any service has handed out is unknown to another one exactly if that has no binding of
  the kind under the number. -/
  meets : ∀ own other key b, numbered? (items other) key = some b →
    (((world a r).service own).bindings.item? (b.kind, key) = none ↔
      ∀ b', numbered? (items own) key = some b' → b'.kind ≠ b.kind)
  /-- The answer of a binder is taken for a number of the service of the machine, to whose bindings the
  binder may have added. -/
  answersMethod : ∀ {listener : Delegate} {name : MethodName} {key : Key} {t : World (Host η)},
    ((world a r).vm vm).listeners.bindMethod? = some listener →
    d.bindMethod listener vm name (world a r) = (.value (some key), t) →
      ∃ more, (t.serviceOf vm).bindings.Lists (items ((world a r).vm vm).service ++ more) ∧
        (Trampoline.bindMethod d a name (world a r)).1 =
          .value (((numbered? (items ((world a r).vm vm).service ++ more) key).bind
            Item.method?).map fun _ => key)
  answersClass : ∀ {listener : Delegate} {module className : String} {key : Key}
      {t : World (Host η)},
    ((world a r).vm vm).listeners.bindClass? = some listener →
    d.bindClass listener vm module className (world a r) = (.value (some key), t) →
      ∃ more, (t.serviceOf vm).bindings.Lists (items ((world a r).vm vm).service ++ more) ∧
        (Trampoline.bindClass d a module className (world a r)).1 =
          .value (((numbered? (items ((world a r).vm vm).service ++ more) key).bind
            Item.class?).elim .unbound fun _ => ⟨some key, some key⟩)
  /-- The classes of the machine keep numbers of bindings of its own service, and run those. -/
  runsMethod : ∀ {id : Machine.ObjectId} {c : Machine.Class} {key : Key},
    r.machine.heap.class? id = some c → c.HasMethod key →
      ∃ b, numbered? (items ((world a r).vm vm).service) key = some (.ofMethod b) ∧
        (callbacks d a).execute key r = executes d a vm b.method r
  runsClass : ∀ {id : Machine.ObjectId} {c : Machine.Class} {key : Key},
    r.machine.heap.class? id = some c → c.allocate? = some key →
      ∃ b, numbered? (items ((world a r).vm vm).service) key = some (.ofClass b) ∧
        (callbacks d a).allocate key r = allocates d a vm b.allocator r

section

variable [Observer η] {base : World (Host η)} {vm : VmId} {a : Address} {active : List Address}
  {d : Delegates (Host η)} {r : Running (World (Host η))}

/-- **Keys are numbers** to a machine that serves its classes. -/
theorem Serving.byNumber (hr : Serving base vm a active r) (h : Regime.cataloguing.Behaved active d) :
    ∃ items, (world a r).Numbers items ∧ ByNumber d vm a items r := by
  choose items hitems using hr.catalogued.listed
  -- behind the answer of a binder, the service of the machine has perhaps more bindings
  have hmore : ∀ {t}, Regime.cataloguing.Moves active (world a r) t →
      ∃ more, (t.serviceOf vm).bindings.Lists (items ((world a r).vm vm).service ++ more) := by
    intro t ht
    obtain ⟨-, -, hadvances⟩ := ht hr.steady hr.catalogued
    exact (hitems _).grows (hadvances.serviceOf hr.known)
  refine ⟨items, hitems, ?_⟩
  exact
    { counts := fun service => (hitems service).count_eq
      registers := by
        intro service item
        rcases (hitems service).register item with ⟨key, b, hb, hname, hregister⟩ |
          ⟨hnew, r', hregister, -⟩
        · exact .inl ⟨key, b, hb, hname, by rw [hregister]⟩
        · exact .inr ⟨hnew, by rw [hregister]⟩
      methods := fun service => (hitems service).method?_eq
      classes := fun service => (hitems service).class?_eq
      meets := by
        intro own other key b _
        rw [(hitems own).item?_eq, Option.filter_eq_none_iff]
        simp only [decide_eq_true_eq]
      answersMethod := by
        intro listener name key t hlistener hanswer
        have hgoes := (h.bindMethod listener vm name (world a r) trivial).2
        rw [hanswer] at hgoes
        obtain ⟨more, hlists⟩ := hmore (hgoes rfl)
        refine ⟨more, hlists, ?_⟩
        rw [bindMethod_of_answer hr.find? hlistener hanswer, hlists.method?_eq]
      answersClass := by
        intro listener module className key t hlistener hanswer
        have hgoes := (h.bindClass listener vm module className (world a r) trivial).2
        rw [hanswer] at hgoes
        obtain ⟨more, hlists⟩ := hmore (hgoes rfl)
        refine ⟨more, hlists, ?_⟩
        rw [bindClass_of_answer hr.find? hlistener hanswer, hlists.class?_eq]
      runsMethod := by
        intro id c key hc hkey
        obtain ⟨b, hb⟩ := Option.isSome_iff_exists.1 ((hr.binds hc).method key hkey)
        obtain ⟨b', hnumber, hmethod⟩ := Option.bind_eq_some_iff.1
          (((hitems _).method?_eq key).symm.trans hb)
        refine ⟨b, ?_, hr.execute hb⟩
        rcases b' with _ | _ <;> cases hmethod
        exact hnumber
      runsClass := by
        intro id c key hc hkey
        obtain ⟨b, hb⟩ := Option.isSome_iff_exists.1 ((hr.binds hc).allocator key hkey)
        obtain ⟨b', hnumber, hclass⟩ := Option.bind_eq_some_iff.1
          (((hitems _).class?_eq key).symm.trans hb)
        refine ⟨b, ?_, hr.allocate hb⟩
        rcases b' with _ | _ <;> cases hclass
        exact hnumber }

end

/-! ## Hosts -/

namespace Setting

variable [Observer η] (s : Setting η)

/-- **Services share their keys.**  Wherever a machine serves its classes, in the middle of any run,
keys are the numbers of the bindings of each service.  A key of another service is taken by the machine
exactly if its own service has a binding of the kind under the number, and then it means that one. -/
theorem keys_by_number :
    (∀ {α : Type} (p : Program η α) {vm : VmId} {a : Address}, (s.run p).1.isFinal = false →
      (s.run p).2.LiveAt vm a →
        Serving s.start vm a [a] ⟨(s.run p).2.machine a, (s.run p).2⟩) ∧
    ∀ depth {base : World (Host η)} {vm : VmId} {a : Address} {active : List Address}
        {r : Running (World (Host η))}, Serving base vm a active r →
      ∃ items, (world a r).Numbers items ∧
        ByNumber (s.code.engines s.importDepth depth active).delegates vm a items r :=
  ⟨s.serving_run, fun depth {_ _ _ active _} hr => hr.byNumber
    ((serves_engines upheld_cataloguing s.code.obeys_free s.importDepth depth).behaved active)⟩

/-- A host with two services, which declares a class of a machine of the first one while its binder
answers with the key that the second one has handed out. -/
def crossing : Program Unit Vm :=
  .ask .newService fun own =>
  .ask .newService fun other =>
  .ask (.registerMethod own ⟨7, none⟩) fun _ =>
  .ask (.registerMethod other ⟨8, none⟩) fun _ =>
  .ask (.create own ⟨none, none, none, none⟩) fun vm =>
  .ask (.listen vm.id fun l => { l with bindMethod? := some 5 }) fun _ =>
  .ask (.interpret vm.id "main" "class A { foreign static f() }") fun _ => .done vm

/-- The world of the class. -/
def crossed : World (Host Unit) := (picking.run crossing).2

theorem crossed_eq :
    ((picking.run crossing).1.isFinal, (crossed.vm 1).isAlive, (crossed.vm 1).address,
      (crossed.vm 1).service, (crossed.machine 3).heap.target (.object 3) "f()",
      (crossed.service 1).bindings.method? 1, (crossed.service 2).bindings.method? 1) =
      (false, true, 3, 1, .foreign 1, some ⟨7, none⟩, some ⟨8, none⟩) := by
  cbv

/-- The machine runs the method of its own service under the key of the other one. -/
theorem keys_by_number_crossed :
    let d := (picking.code.engines 1 1 [3]).delegates
    let r : Running (World (Host Unit)) := ⟨crossed.machine 3, crossed⟩
    Serving picking.start 1 3 [3] r ∧
      ((world 3 r).service 2).bindings.method? 1 = some ⟨8, none⟩ ∧
      (callbacks d 3).execute 1 r = executes d 3 1 7 r := by
  intro d r
  obtain ⟨hstarts, hnumbers⟩ := picking.keys_by_number
  have hend : (picking.run crossing).1.isFinal = false := congrArg (·.1) crossed_eq
  have hl : crossed.LiveAt 1 3 :=
    ⟨congrArg (·.2.1) crossed_eq, congrArg (·.2.2.1) crossed_eq⟩
  have hserving : Serving picking.start 1 3 [3] r := hstarts crossing hend hl
  have hworld : world 3 r = crossed := world_machine 3 crossed
  have htarget : r.machine.heap.target (.object 3) "f()" = .foreign 1 :=
    congrArg (·.2.2.2.2.1) crossed_eq
  obtain ⟨items, -, h⟩ := hnumbers 1 hserving
  obtain ⟨id, c, hc, hmethod⟩ := Machine.Heap.hasMethod_of_target htarget
  obtain ⟨b, hb, hexecute⟩ := h.runsMethod hc hmethod
  have hown : ((world 3 r).vm 1).service = 1 := by
    rw [hworld]
    exact congrArg (·.2.2.2.1) crossed_eq
  have hbound : ((world 3 r).service 1).bindings.method? 1 = some ⟨7, none⟩ := by
    rw [hworld]
    exact congrArg (·.2.2.2.2.2.1) crossed_eq
  rw [hown] at hb
  rw [h.methods, hb] at hbound
  cases hbound
  refine ⟨hserving, ?_, hexecute⟩
  rw [hworld]
  exact congrArg (·.2.2.2.2.2.2) crossed_eq

end Setting

end ScriptHost.Bridge
