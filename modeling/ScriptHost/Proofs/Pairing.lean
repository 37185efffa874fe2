import ScriptHost.Machine.Evaluation
import ScriptHost.Proofs.Frame

/-!
# Evaluation among two hosts

An evaluation is put together from few pieces: own steps of the machine, pins that are added and
forgotten, errors, and calls of the host.  So what is to be shown of a whole evaluation is shown of
these pieces, once the property goes through sequences (`Paired`).  The property is one of two
evaluations of the same program, which call two hosts; with one host on both sides, it is a property
of a single evaluation.

Two properties are carried along.  `T` is that of an evaluation that has forgotten its pins, and `U`
that of one that may have left some.  Variables are read where `reads` allows it: a program that was
checked reads no others (`names_of_checkExpr`).
-/

namespace ScriptHost

namespace Script

/-! ## The variables of a program -/

mutual

/-- The variables that an expression reads. -/
def Expr.names : Expr → List String
  | .variable name _ => [name]
  | .list items => Expr.namesAll items
  | .getter receiver _ => receiver.names
  | .call receiver _ arguments => receiver.names ++ Expr.namesAll arguments
  | .null => []
  | .bool _ => []
  | .number _ => []
  | .text _ => []

/-- The variables that expressions read. -/
def Expr.namesAll : List Expr → List String
  | [] => []
  | e :: rest => e.names ++ Expr.namesAll rest

end

/-- The variables that a statement reads. -/
def Statement.names (st : Statement) : List String :=
  match st.action with
  | .define _ value => value.names
  | .assign _ value => value.names
  | .evaluate value => value.names
  | .importModule _ _ => []
  | .declare _ => []

theorem Scope.seq_ok {α β γ : Type} {x : Except γ α} {f : α → Except γ β} {b : β}
    (h : (x >>= f) = .ok b) : ∃ a, x = .ok a ∧ f a = .ok b := by
  cases x with
  | error e => exact absurd h (by simp [bind, Except.bind])
  | ok a => exact ⟨a, rfl, h⟩

mutual

/-- An expression that was checked reads defined variables only. -/
theorem Scope.names_of_checkExpr {defined : List String} : ∀ {e : Expr},
    Scope.checkExpr defined e = .ok () → ∀ name ∈ e.names, name ∈ defined
  | .variable name line, h => by
    rw [Scope.checkExpr] at h
    split at h
    · next hin =>
      intro name' hname
      rw [List.mem_singleton.1 hname]
      exact List.contains_iff_mem.1 hin
    · exact absurd h (by simp)
  | .list items, h => by
    rw [Scope.checkExpr] at h
    rw [Expr.names]
    exact Scope.names_of_checkAll h
  | .getter receiver _, h => by
    rw [Scope.checkExpr] at h
    rw [Expr.names]
    exact Scope.names_of_checkExpr h
  | .call receiver _ arguments, h => by
    rw [Scope.checkExpr] at h
    obtain ⟨_, hreceiver, harguments⟩ := Scope.seq_ok h
    rw [Expr.names]
    intro name hname
    rcases List.mem_append.1 hname with hname | hname
    · exact Scope.names_of_checkExpr hreceiver name hname
    · exact Scope.names_of_checkAll harguments name hname
  | .null, _ => fun _ hname => absurd hname List.not_mem_nil
  | .bool _, _ => fun _ hname => absurd hname List.not_mem_nil
  | .number _, _ => fun _ hname => absurd hname List.not_mem_nil
  | .text _, _ => fun _ hname => absurd hname List.not_mem_nil

theorem Scope.names_of_checkAll {defined : List String} : ∀ {es : List Expr},
    Scope.checkAll defined es = .ok () → ∀ name ∈ Expr.namesAll es, name ∈ defined
  | [], _ => fun _ hname => absurd hname List.not_mem_nil
  | e :: rest, h => by
    rw [Scope.checkAll] at h
    obtain ⟨_, he, hrest⟩ := Scope.seq_ok h
    rw [Expr.namesAll]
    intro name hname
    rcases List.mem_append.1 hname with hname | hname
    · exact Scope.names_of_checkExpr he name hname
    · exact Scope.names_of_checkAll hrest name hname

end

end Script

namespace Machine

open Script

variable {ε ε' α β : Type}

/-! ## Pieces of an evaluation -/

/-- What evaluation does to a machine by itself: it allocates, defines variables, and moves on in its
program.  Modules stay registered, and variables defined. -/
structure Own (s s' : State) : Prop extends Frame s s', Ages s s' where
  slots : s'.slots = s.slots
  savedFrames : s'.savedFrames = s.savedFrames
  pins : s'.pins = s.pins
  abortRequest? : s'.abortRequest? = s.abortRequest?
  modules : ∀ module, s.hasModule module = true → s'.hasModule module = true
  global? : ∀ module name, (s.global? module name).isSome → (s'.global? module name).isSome

theorem State.own_alloc (s : State) {o : Object} (ho : Heap.isBare o = true) :
    Own s (s.alloc o).2 :=
  ⟨State.frame_alloc s ho, State.ages_alloc s o, rfl, rfl, rfl, rfl, fun _ h => h, fun _ _ h => h⟩

theorem State.hasModule_define (s : State) (module name : String) (v : Value) (module' : String)
    (h : s.hasModule module' = true) : (s.define module name v).hasModule module' = true :=
  Table.contains_iff.2 (Table.mem_keys_insert.2 (Or.inr (Table.contains_iff.1 h)))

theorem State.global?_define_self (s : State) (module name : String) (v : Value) :
    (s.define module name v).global? module name = some v := by
  simp [State.global?, State.define, Table.find?_insert_self]

theorem State.global?_define_ne (s : State) {module name module' name' : String} (v : Value)
    (h : module' ≠ module ∨ name' ≠ name) :
    (s.define module name v).global? module' name' = s.global? module' name' := by
  unfold State.global? State.define
  by_cases hm : module' = module
  · subst hm
    have hn : name' ≠ name := h.resolve_left (fun hne => hne rfl)
    rw [Table.find?_insert_self, Option.bind_some, Table.find?_insert_ne _ _ hn]
    cases s.modules.find? module' <;> rfl
  · rw [Table.find?_insert_ne _ _ hm]

theorem State.own_define (s : State) (module name : String) (v : Value) :
    Own s (s.define module name v) := by
  refine ⟨State.frame_define s module name v, .of_heap rfl rfl, rfl, rfl, rfl, rfl,
    State.hasModule_define s module name v, fun module' name' h => ?_⟩
  by_cases hself : module' = module ∧ name' = name
  · obtain ⟨rfl, rfl⟩ := hself
    rw [State.global?_define_self]
    rfl
  · rwa [State.global?_define_ne s v (Decidable.not_and_iff_not_or_not.1 hself)]

theorem State.own_locate (s : State) (location : Location) : Own s { s with location } :=
  ⟨Frame.of_heap rfl rfl rfl rfl, .of_heap rfl rfl, rfl, rfl, rfl, rfl, fun _ h => h,
    fun _ _ h => h⟩

/-- A new module has no variables. -/
theorem State.global?_addModule (s : State) (module module' name : String) :
    (s.addModule module).global? module' name = s.global? module' name := by
  unfold State.addModule
  split
  · rfl
  · next hnew =>
    unfold State.global?
    by_cases hm : module' = module
    · subst hm
      have hnone : s.modules.find? module' = none := by
        refine Table.find?_eq_none_iff.2 fun hin => hnew ?_
        exact Table.contains_iff.2 hin
      rw [hnone, Table.find?_insert_self]
      rfl
    · rw [Table.find?_insert_ne _ _ hm]

/-- A module is registered, beside those that were there. -/
theorem State.hasModule_addModule (s : State) (module module' : String) :
    (s.addModule module).hasModule module' = true ↔
      s.hasModule module' = true ∨ module' = module := by
  unfold State.addModule
  split
  · next hthere =>
    refine ⟨Or.inl, fun h => h.elim id fun heq => ?_⟩
    rwa [heq]
  · unfold State.hasModule
    rw [Table.contains_iff, Table.contains_iff, Table.mem_keys_insert, or_comm]

theorem State.own_addModule (s : State) (module : String) : Own s (s.addModule module) := by
  have hmodules : ∀ module', s.hasModule module' = true →
      (s.addModule module).hasModule module' = true :=
    fun module' h => (s.hasModule_addModule module module').2 (Or.inl h)
  have hglobal : ∀ module' name, (s.global? module' name).isSome →
      ((s.addModule module).global? module' name).isSome := by
    intro module' name h
    rwa [State.global?_addModule]
  unfold State.addModule at hmodules hglobal ⊢
  split
  · exact ⟨Frame.refl s, .refl s, rfl, rfl, rfl, rfl, fun _ h => h, fun _ _ h => h⟩
  · next hnew =>
    rw [if_neg hnew] at hmodules hglobal
    exact ⟨Frame.of_heap rfl rfl rfl rfl, .of_heap rfl rfl, rfl, rfl, rfl, rfl, hmodules, hglobal⟩

/-- All classes of a machine are classes of another one, under the same numbers. -/
def State.OldClasses (s s' : State) : Prop :=
  ∀ id c, s'.heap.class? id = some c → s.heap.class? id = some c

theorem State.OldClasses.of_heap {s s' : State} (h : s'.heap = s.heap) : State.OldClasses s s' := by
  intro id c hc
  rwa [h] at hc

theorem State.OldClasses.refl (s : State) : State.OldClasses s s := fun _ _ hc => hc

theorem State.OldClasses.trans {s t u : State} (h : State.OldClasses s t)
    (h' : State.OldClasses t u) : State.OldClasses s u :=
  fun id c hc => h id c (h' id c hc)

theorem State.OldClasses.setSlot {s t : State} (h : State.OldClasses s t) (index : Int) (v : Value) :
    State.OldClasses s (t.setSlot index v) := by
  refine h.trans (.of_heap ?_)
  unfold State.setSlot
  split <;> rfl

theorem Heap.class?_eq_some {h : Heap} {id : ObjectId} {c : Class} :
    h.class? id = some c ↔ h.get? id = some (.classDef c) := by
  unfold Heap.class?
  split
  · next c' hc' =>
    rw [hc']
    exact ⟨fun heq => by rw [Option.some.inj heq], fun heq => by cases heq; rfl⟩
  · next hne => exact ⟨fun heq => absurd heq (by simp), fun heq => absurd heq (hne c)⟩

/-- The classes behind an allocation: the new object, if it is one, and those that were there. -/
theorem Heap.class?_alloc {h : Heap} {o : Object} {id : ObjectId} {c : Class}
    (hc : (h.alloc o).2.class? id = some c) : o = .classDef c ∨ h.class? id = some c := by
  rw [Heap.class?_eq_some] at hc ⊢
  by_cases hid : id = h.lastId + 1
  · subst hid
    rw [Heap.get?, Heap.alloc, Table.find?_insert_self] at hc
    exact Or.inl (Option.some.inj hc)
  · rw [Heap.get?, Heap.alloc, Table.find?_insert_ne _ _ hid] at hc
    exact Or.inr hc

theorem State.oldClasses_alloc (s : State) {o : Object} (ho : ∀ c, o ≠ .classDef c) :
    State.OldClasses s (s.alloc o).2 :=
  fun _ c hc => (Heap.class?_alloc hc).resolve_left (ho c)

/-- Own work of a machine that declares no class. -/
structure Plain (s s' : State) : Prop extends Own s s' where
  classes : State.OldClasses s s'

theorem State.plain_alloc (s : State) {o : Object} (ho : Heap.isBare o = true)
    (hclass : ∀ c, o ≠ .classDef c) : Plain s (s.alloc o).2 :=
  ⟨State.own_alloc s ho, State.oldClasses_alloc s hclass⟩

theorem State.plain_define (s : State) (module name : String) (v : Value) :
    Plain s (s.define module name v) :=
  ⟨State.own_define s module name v, .of_heap rfl⟩

theorem State.plain_locate (s : State) (location : Location) : Plain s { s with location } :=
  ⟨State.own_locate s location, .of_heap rfl⟩

theorem State.heap_addModule (s : State) (module : String) :
    (s.addModule module).heap = s.heap := by
  unfold State.addModule
  split <;> rfl

theorem State.plain_addModule (s : State) (module : String) : Plain s (s.addModule module) :=
  ⟨State.own_addModule s module, .of_heap (s.heap_addModule module)⟩

/-- Makes a class and defines it in its module. -/
def State.declare (s : State) (module name : String) (c : Class) : State :=
  (s.alloc (.classDef c)).2.define module name (.object (s.alloc (.classDef c)).1)

theorem State.own_declare (s : State) (module name : String) (c : Class) :
    Own s (s.declare module name c) := by
  have halloc : Own s (s.alloc (.classDef c)).2 := State.own_alloc s rfl
  have hdefine := State.own_define (s.alloc (.classDef c)).2 module name
    (.object (s.alloc (.classDef c)).1)
  exact ⟨halloc.toFrame.trans hdefine.toFrame, halloc.toAges.trans hdefine.toAges, rfl, rfl, rfl,
    rfl, fun m h => hdefine.modules m (halloc.modules m h),
    fun m n h => hdefine.global? m n (halloc.global? m n h)⟩

/-- Reads a variable in a module. -/
def readVariable (module name : String) : Eval ε Value := do
  match (← machine).lookup? module name with
  | some v => return v
  | none => raise (.undefinedVariable name)

theorem eval_variable (cb : Callbacks ε) (module name : String) (line : Nat) :
    eval cb module (.variable name line) = readVariable module name := by
  rw [eval]
  rfl

/-- Goes on behind a program that was to be run, if it does not compile. -/
def recover (x : Eval ε Unit) (refused : CompileError → Eval ε Unit) : Eval ε Unit := do
  match ← x.attempt with
  | .ok () => return ()
  | .error (.compile e) => refused e
  | .error e => Run.fault e

/-- The end of an import of a module that does not compile. -/
def refuseModule (cb : Callbacks ε) (module : String) (e : CompileError) : Eval ε Unit := do
  (reportCompile cb module e).widen
  raise (.brokenModule module)

/-- Loads and runs a module that is not there. -/
def bringModule (cb : Callbacks ε) (run : String → String → Eval ε Unit) (module : String) :
    Eval ε Unit := do
  let source ← loadModule cb module
  recover (run module source) (refuseModule cb module)

/-- An import finds the module, brings it if it is not there, and takes its variables. -/
theorem importModule_eq (cb : Callbacks ε) (run : String → String → Eval ε Unit)
    (importer name : String) (names : List String) :
    importModule cb run importer name names = (do
      let module ← resolveModule cb importer name
      if !(← machine).hasModule module then bringModule cb run module
      importNames importer module names) := by
  unfold importModule bringModule recover
  refine congrArg _ (funext fun module => congrArg _ (funext fun s => ?_))
  split
  · simp only [bind_assoc]
    refine congrArg _ (funext fun source => congrArg _ (funext fun result => ?_))
    rcases result with (e | e) | _
    · unfold refuseModule
      simp only [bind_assoc]
    · rfl
    · rfl
  · rfl

/-- Does something about a module that is not there. -/
def whenAbsent (module : String) (bring : Eval ε Unit) : Eval ε Unit := do
  if !(← machine).hasModule module then bring

/-- Imports a module, which is brought by `bring` unless it is there already. -/
def importWith (cb : Callbacks ε) (bring : String → Eval ε Unit) (importer name : String)
    (names : List String) : Eval ε Unit := do
  let module ← resolveModule cb importer name
  whenAbsent module (bring module)
  importNames importer module names

/-- Executes a statement of a module, with imported modules brought by `bring`. -/
def execWith (cb : Callbacks ε) (bring : String → Eval ε Unit) (module : String)
    (st : Statement) : Eval ε Unit := do
  match st.action with
  | .importModule name names => importWith cb bring module name names
  | .define name value =>
    let v ← eval cb module value
    update fun s => s.define module name v
  | .assign name value =>
    let v ← eval cb module value
    update fun s => s.define module name v
  | .declare decl => declareClass cb module decl
  | .evaluate value =>
    let _ ← eval cb module value
    return ()

/-- Executes statements one after the other, with imported modules brought by `bring`. -/
def execAllWith (cb : Callbacks ε) (bring : String → Eval ε Unit) (module : String) :
    List Statement → Eval ε Unit
  | [] => return ()
  | st :: rest => do
    update fun s => { s with location := ⟨module, st.line⟩ }
    execWith cb bring module st
    execAllWith cb bring module rest

theorem importModule_with (cb : Callbacks ε) (run : String → String → Eval ε Unit) :
    importModule cb run = importWith cb (bringModule cb run) := by
  funext importer name names
  rw [importModule_eq]
  unfold importWith whenAbsent
  simp only [bind_assoc]
  refine congrArg _ (funext fun module => congrArg _ (funext fun s => ?_))
  split
  · rfl
  · rfl

theorem exec_with (cb : Callbacks ε) (run : String → String → Eval ε Unit) (module : String)
    (st : Statement) : exec cb run module st = execWith cb (bringModule cb run) module st := by
  obtain ⟨action, line⟩ := st
  cases action with
  | importModule name names =>
    exact congrFun (congrFun (congrFun (importModule_with cb run) module) name) names
  | define | assign | declare | evaluate => rfl

/-- Execution brings the modules that it imports by loading and running them. -/
theorem execAll_with (cb : Callbacks ε) (run : String → String → Eval ε Unit) (module : String)
    (sts : List Statement) : execAll cb run module sts =
      execAllWith cb (bringModule cb run) module sts := by
  induction sts with
  | nil => rfl
  | cons st rest ih =>
    rw [execAll, execAllWith, ih, exec_with]

/-! ## Properties of two evaluations -/

/-- A property of two evaluations of one program that goes through its sequences and own steps, `cb`
and `cb'` being their hosts. -/
structure Sequenced (T U : ∀ ⦃α : Type⦄, Eval ε α → Eval ε' α → Prop)
    (reads : String → String → Prop) (cb : Callbacks ε) (cb' : Callbacks ε') : Prop where
  pure : ∀ {α : Type} (a : α), T (Pure.pure a) (Pure.pure a)
  raise : ∀ {α : Type} (e : RuntimeError), (∀ name, e ≠ .undefinedVariable name) →
    T (Machine.raise e : Eval ε α) (Machine.raise e)
  bind : ∀ {α β : Type} {x : Eval ε α} {y : Eval ε' α} {f : α → Eval ε β} {g : α → Eval ε' β},
    T x y → (∀ a, T (f a) (g a)) → T (x >>= f) (y >>= g)
  machine : T (Machine.machine : Eval ε State) Machine.machine
  own : ∀ {f : State → State}, (∀ s, Plain s (f s)) → T (update f : Eval ε Unit) (update f)
  reading : ∀ module name, reads module name →
    T (readVariable module name : Eval ε Value) (readVariable module name)
  /-- Pins may be left, and are forgotten again. -/
  pinning : ∀ {α : Type} {x : Eval ε α} {y : Eval ε' α}, T x y → U x y
  bindPinning : ∀ {α β : Type} {x : Eval ε α} {y : Eval ε' α} {f : α → Eval ε β}
    {g : α → Eval ε' β}, U x y → (∀ a, U (f a) (g a)) → U (x >>= f) (y >>= g)
  pin : ∀ values : List Value, U (update fun s => { s with pins := values ++ s.pins } : Eval ε Unit)
    (update fun s => { s with pins := values ++ s.pins })
  withPins : ∀ {α : Type} {x : Eval ε α} {y : Eval ε' α}, U x y →
    T (Machine.withPins x) (Machine.withPins y)
  resolve : ∀ importer name, T (resolveModule cb importer name) (resolveModule cb' importer name)
  load : ∀ name, T (cb.load name).widen (cb'.load name).widen

/-- Such a property that goes through whole invocations of methods and declarations of classes. -/
structure Assembled (T U : ∀ ⦃α : Type⦄, Eval ε α → Eval ε' α → Prop)
    (reads : String → String → Prop) (cb : Callbacks ε) (cb' : Callbacks ε') : Prop
    extends Sequenced T U reads cb cb' where
  invoke : ∀ signature frame, T (Machine.invoke cb signature frame) (Machine.invoke cb' signature frame)
  declare : ∀ module decl, T (declareClass cb module decl) (declareClass cb' module decl)

/-- Such a property that goes through each call of the host, and through any new class. -/
structure Paired (T U : ∀ ⦃α : Type⦄, Eval ε α → Eval ε' α → Prop)
    (reads : String → String → Prop) (cb : Callbacks ε) (cb' : Callbacks ε') : Prop
    extends Sequenced T U reads cb cb' where
  declared : ∀ module name (c : Class),
    T (update fun s => s.declare module name c : Eval ε Unit) (update fun s => s.declare module name c)
  write : ∀ text, T (cb.write text).widen (cb'.write text).widen
  bindClass : ∀ module className,
    T (cb.bindClass module className).widen (cb'.bindClass module className).widen
  bindMethod : ∀ name, T (cb.bindMethod name).widen (cb'.bindMethod name).widen
  execute : ∀ key frame,
    T (callForeign (cb.execute key) frame) (callForeign (cb'.execute key) frame)
  allocate : ∀ key frame,
    T (callForeign (cb.allocate key) frame) (callForeign (cb'.allocate key) frame)

section

variable {T U : ∀ ⦃α : Type⦄, Eval ε α → Eval ε' α → Prop} {reads : String → String → Prop}
  {cb : Callbacks ε} {cb' : Callbacks ε'}

section

variable (p : Sequenced T U reads cb cb')
include p

theorem paired_alloc {o : Object} (ho : Heap.isBare o = true) (hclass : ∀ c, o ≠ .classDef c) :
    T (updateGet fun s => s.alloc o : Eval ε ObjectId) (updateGet fun s => s.alloc o) := by
  have hsplit {δ : Type} : (updateGet fun s => s.alloc o : Eval δ ObjectId) = (do
      let s ← machine
      update fun s => (s.alloc o).2
      return (s.alloc o).1) := rfl
  rw [hsplit, hsplit]
  refine p.bind p.machine fun s => ?_
  exact p.bind (p.own fun s => State.plain_alloc s ho hclass) fun _ => p.pure _

theorem paired_new {o : Object} (ho : Heap.isBare o = true) (hclass : ∀ c, o ≠ .classDef c) :
    T (do return Value.object (← updateGet fun s => s.alloc o) : Eval ε Value)
      (do return Value.object (← updateGet fun s => s.alloc o)) :=
  p.bind (paired_alloc p ho hclass) fun _ => p.pure _

theorem paired_withPinned {x : Eval ε α} {y : Eval ε' α} (h : T x y) (values : List Value) :
    T (withPinned values x) (withPinned values y) :=
  p.withPins (p.bindPinning (p.pin _) fun _ => p.pinning h)

end

/-! ## Invocations and declarations -/

section

variable (p : Paired T U reads cb cb')
include p

theorem paired_invoke (signature : String) (frame : List Value) :
    T (invoke cb signature frame) (invoke cb' signature frame) := by
  unfold invoke
  refine p.bind p.machine fun s => ?_
  split
  · refine p.bind (p.write _) fun _ => ?_
    exact p.bind (p.write _) fun _ => p.pure _
  · exact p.bind (p.write _) fun _ => p.pure _
  · exact p.raise _ fun _ => by simp
  · exact paired_new p.toSequenced rfl fun _ => by simp
  · split
    · exact p.raise _ fun _ => by simp
    · refine p.bind (p.allocate _ frame) fun created => p.bind p.machine fun s => ?_
      split
      · exact p.pure _
      · exact p.raise _ fun _ => by simp
  · exact p.execute _ frame
  · exact p.raise _ fun _ => by simp

theorem paired_bindMethods (module className : String) (methods : List MethodDecl) :
    ∀ c : Class, T (bindMethods cb module className methods c)
      (bindMethods cb' module className methods c) := by
  induction methods with
  | nil => exact fun c => p.pure c
  | cons m rest ih =>
    intro c
    rw [bindMethods, bindMethods]
    refine p.bind (p.bindMethod _) fun bound => ?_
    split
    · exact p.raise _ fun _ => by simp
    · exact ih _

theorem paired_declareClass (module : String) (decl : ClassDecl) :
    T (declareClass cb module decl) (declareClass cb' module decl) := by
  have hdefine : ∀ c : Class, T (do
      let c ← bindMethods cb module decl.name decl.methods c
      update fun s => s.declare module decl.name c : Eval ε Unit) (do
      let c ← bindMethods cb' module decl.name decl.methods c
      update fun s => s.declare module decl.name c) := fun c =>
    p.bind (paired_bindMethods p module decl.name decl.methods c) fun c =>
      p.declared module decl.name c
  unfold declareClass
  dsimp only
  split
  · exact p.bind (p.bindClass _ _) fun keys => hdefine _
  · exact p.bind (p.pure _) fun keys => hdefine _

theorem Paired.assembled : Assembled T U reads cb cb' where
  toSequenced := p.toSequenced
  invoke := paired_invoke p
  declare := paired_declareClass p

end

variable (p : Assembled T U reads cb cb')
include p

/-! ## Expressions -/

mutual

/-- **Whatever goes through the pieces of an evaluation goes through the evaluation of an
expression**, if its variables may be read. -/
theorem paired_eval (module : String) : ∀ e : Expr, (∀ name ∈ e.names, reads module name) →
    T (eval cb module e) (eval cb' module e)
  | .null, _ => by
    rw [eval, eval]
    exact p.pure _
  | .bool b, _ => by
    rw [eval, eval]
    exact p.pure _
  | .number x, _ => by
    rw [eval, eval]
    exact p.pure _
  | .text s, _ => by
    rw [eval, eval]
    exact p.pure _
  | .variable name line, h => by
    rw [eval_variable, eval_variable]
    exact p.reading module name (h name List.mem_cons_self)
  | .list items, h => by
    rw [eval, eval]
    rw [Expr.names] at h
    refine p.bind (p.withPins (paired_evalAll module items h)) fun values => ?_
    exact paired_new p.toSequenced rfl fun _ => by simp
  | .getter receiver name, h => by
    rw [eval, eval]
    rw [Expr.names] at h
    refine p.bind (p.withPins ?_) fun frame => ?_
    · exact p.bindPinning (paired_evalPinned module receiver h) fun v => p.pinning (p.pure _)
    · exact paired_withPinned p.toSequenced (p.invoke _ frame) frame
  | .call receiver name arguments, h => by
    rw [eval, eval]
    rw [Expr.names] at h
    have hreceiver := fun n hn => h n (List.mem_append_left _ hn)
    have harguments := fun n hn => h n (List.mem_append_right _ hn)
    refine p.bind (p.withPins ?_) fun frame => ?_
    · refine p.bindPinning (paired_evalPinned module receiver hreceiver) fun v => ?_
      refine p.bindPinning (paired_evalAll module arguments harguments) fun vs => ?_
      exact p.pinning (p.pure _)
    · exact paired_withPinned p.toSequenced (p.invoke _ frame) frame

theorem paired_evalPinned (module : String) : ∀ e : Expr,
    (∀ name ∈ e.names, reads module name) → U (evalPinned cb module e) (evalPinned cb' module e)
  | e, h => by
    rw [evalPinned, evalPinned]
    refine p.bindPinning (p.pinning (paired_eval module e h)) fun v => ?_
    exact p.bindPinning (p.pin [v]) fun _ => p.pinning (p.pure _)

theorem paired_evalAll (module : String) : ∀ es : List Expr,
    (∀ name ∈ Expr.namesAll es, reads module name) →
      U (evalAll cb module es) (evalAll cb' module es)
  | [], _ => by
    rw [evalAll, evalAll]
    exact p.pinning (p.pure _)
  | e :: rest, h => by
    rw [evalAll, evalAll]
    rw [Expr.namesAll] at h
    have he := fun n hn => h n (List.mem_append_left _ hn)
    have hrest := fun n hn => h n (List.mem_append_right _ hn)
    refine p.bindPinning (paired_evalPinned module e he) fun v => ?_
    refine p.bindPinning (paired_evalAll module rest hrest) fun vs => ?_
    exact p.pinning (p.pure _)

end

/-! ## Statements -/

theorem paired_importNames (importer source : String) (names : List String) :
    T (importNames importer source names : Eval ε Unit) (importNames importer source names) := by
  induction names with
  | nil => exact p.pure ()
  | cons name rest ih =>
    rw [importNames]
    refine p.bind p.machine fun s => ?_
    split
    · exact p.bind (p.own fun s => State.plain_define s importer name _) fun _ => ih
    · exact p.raise _ fun _ => by simp

theorem paired_loadModule (name : String) :
    T (loadModule cb name) (loadModule cb' name) := by
  unfold loadModule
  refine p.bind (p.load _) fun source => ?_
  split
  · exact p.pure _
  · exact p.raise _ fun _ => by simp

section

variable {bring : String → Eval ε Unit} {bring' : String → Eval ε' Unit}

theorem paired_importWith
    (hbring : ∀ module, T (whenAbsent module (bring module)) (whenAbsent module (bring' module)))
    (importer name : String) (names : List String) :
    T (importWith cb bring importer name names) (importWith cb' bring' importer name names) :=
  p.bind (p.resolve importer name) fun module => p.bind (hbring module) fun _ =>
    paired_importNames p importer module names

/-- **Whatever goes through the pieces of an evaluation goes through a statement**, if it goes
through its import. -/
theorem paired_execWith (module : String) (st : Statement)
    (himport : ∀ name names, st.action = .importModule name names →
      T (importWith cb bring module name names) (importWith cb' bring' module name names))
    (h : ∀ name ∈ st.names, reads module name) :
    T (execWith cb bring module st) (execWith cb' bring' module st) := by
  unfold Statement.names at h
  unfold execWith
  split
  · next name names hst => exact himport name names hst
  · next name value hst =>
    rw [hst] at h
    refine p.bind (paired_eval p module value h) fun v => ?_
    exact p.own fun s => State.plain_define s module name v
  · next name value hst =>
    rw [hst] at h
    refine p.bind (paired_eval p module value h) fun v => ?_
    exact p.own fun s => State.plain_define s module name v
  · exact p.declare module _
  · next value hst =>
    rw [hst] at h
    exact p.bind (paired_eval p module value h) fun v => p.pure _

theorem paired_execAllWith (module : String) (sts : List Statement)
    (himport : ∀ st ∈ sts, ∀ name names, st.action = .importModule name names →
      T (importWith cb bring module name names) (importWith cb' bring' module name names))
    (h : ∀ st ∈ sts, ∀ name ∈ st.names, reads module name) :
    T (execAllWith cb bring module sts) (execAllWith cb' bring' module sts) := by
  induction sts with
  | nil => exact p.pure ()
  | cons st rest ih =>
    rw [execAllWith, execAllWith]
    have hst := paired_execWith p module st (himport st List.mem_cons_self) (h st List.mem_cons_self)
    refine p.bind (p.own fun s => State.plain_locate s _) fun _ => p.bind hst fun _ => ?_
    exact ih (fun st' hst' => himport st' (List.mem_cons_of_mem st hst'))
      fun st' hst' => h st' (List.mem_cons_of_mem st hst')

end

theorem paired_whenAbsent {x : Eval ε Unit} {y : Eval ε' Unit} (h : T x y) (module : String) :
    T (whenAbsent module x) (whenAbsent module y) := by
  refine p.bind p.machine fun s => ?_
  split
  · exact h
  · exact p.pure _

variable {run : String → String → Eval ε Unit} {run' : String → String → Eval ε' Unit}
  (hbring : ∀ module, T (bringModule cb run module) (bringModule cb' run' module))
include hbring

theorem paired_exec (module : String) (st : Statement)
    (h : ∀ name ∈ st.names, reads module name) :
    T (exec cb run module st) (exec cb' run' module st) := by
  rw [exec_with, exec_with]
  refine paired_execWith p module st (fun name names _ => ?_) h
  exact paired_importWith p (fun m => paired_whenAbsent p (hbring m) m) module name names

theorem paired_execAll (module : String) (sts : List Statement)
    (h : ∀ st ∈ sts, ∀ name ∈ st.names, reads module name) :
    T (execAll cb run module sts) (execAll cb' run' module sts) := by
  rw [execAll_with, execAll_with]
  refine paired_execAllWith p module sts (fun _ _ name names _ => ?_) h
  exact paired_importWith p (fun m => paired_whenAbsent p (hbring m) m) module name names

end

/-! ## Runs -/

/-- A property of two runs that goes through the ends of their programs: refusals, and what is done
about them. -/
structure Concluded (T : ∀ ⦃α : Type⦄, Eval ε α → Eval ε' α → Prop) (cb : Callbacks ε)
    (cb' : Callbacks ε') : Prop where
  refuse : ∀ {α : Type} (e : CompileError),
    T (Run.fault (.compile e) : Eval ε α) (Run.fault (.compile e))
  exhausted : T (Run.halt .exhausted : Eval ε Unit) (Run.halt .exhausted)
  report : ∀ diagnostic, T (cb.report diagnostic).widen (cb'.report diagnostic).widen
  recover : ∀ {x : Eval ε Unit} {y : Eval ε' Unit} {refused : CompileError → Eval ε Unit}
    {refused' : CompileError → Eval ε' Unit}, T x y → (∀ e, T (refused e) (refused' e)) →
      T (Machine.recover x refused) (Machine.recover y refused')

/-- A property of two runs of one program, which goes through their invocations and declarations. -/
structure AssembledRuns (T U : ∀ ⦃α : Type⦄, Eval ε α → Eval ε' α → Prop) (cb : Callbacks ε)
    (cb' : Callbacks ε') : Prop
    extends Assembled T U (fun _ _ => True) cb cb', Concluded T cb cb'

/-- A property of two runs of one program, which goes through each call of the host. -/
structure PairedRuns (T U : ∀ ⦃α : Type⦄, Eval ε α → Eval ε' α → Prop) (cb : Callbacks ε)
    (cb' : Callbacks ε') : Prop
    extends Paired T U (fun _ _ => True) cb cb', Concluded T cb cb'

theorem PairedRuns.assembled {T U : ∀ ⦃α : Type⦄, Eval ε α → Eval ε' α → Prop} {cb : Callbacks ε}
    {cb' : Callbacks ε'} (p : PairedRuns T U cb cb') : AssembledRuns T U cb cb' :=
  ⟨p.toPaired.assembled, p.toConcluded⟩

section

variable {T U : ∀ ⦃α : Type⦄, Eval ε α → Eval ε' α → Prop} {cb : Callbacks ε} {cb' : Callbacks ε'}
  (p : AssembledRuns T U cb cb')
include p

theorem paired_compile (module source : String) :
    T (compile module source : Eval ε (List Statement)) (compile module source) := by
  unfold compile
  split
  · exact p.refuse _
  · refine p.bind (p.own fun s => State.plain_addModule s module) fun _ => p.bind p.machine fun s => ?_
    split
    · exact p.refuse _
    · exact p.pure _

theorem paired_bringModule {run : String → String → Eval ε Unit}
    {run' : String → String → Eval ε' Unit}
    (hrun : ∀ module source, T (run module source) (run' module source)) (module : String) :
    T (bringModule cb run module) (bringModule cb' run' module) := by
  refine p.bind (paired_loadModule p.toAssembled module) fun source => ?_
  refine p.recover (hrun module source) fun e => ?_
  exact p.bind (p.report _) fun _ => p.raise _ fun _ => by simp

/-- **Whatever goes through the pieces of a run goes through the run of a program**, imports
included. -/
theorem paired_runModule (depth : Nat) : ∀ module source,
    T (runModule cb depth module source) (runModule cb' depth module source) := by
  induction depth with
  | zero => exact fun _ _ => p.exhausted
  | succ depth ih =>
    intro module source
    rw [runModule, runModule]
    refine p.bind (paired_compile p module source) fun statements => ?_
    exact paired_execAll p.toAssembled (paired_bringModule p ih) module statements
      fun _ _ _ _ => trivial

end

end Machine

end ScriptHost
