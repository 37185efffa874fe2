import ScriptHost.Proofs.Imports
import ScriptHost.Proofs.Names

/-!
# Programs in two parts

A program may as well be run in two parts, the second one if the first has succeeded.  The second part
is checked on its own then, against the names that are defined when the first has run, and these are
the names that the check of the whole takes to be defined there.

They are, because nothing but its own statements defines variables in the module of a program
(`Writes`), or in the core module.  A module that is imported runs in a module that was not there, and
so in neither; and the host is one that runs no programs on the machine while it is called (`Sparing`).
-/

namespace ScriptHost.Script

/-! ## Checks of parts -/

/-- The variables that a statement writes. -/
def Statement.writes (st : Statement) : List String :=
  match st.action with
  | .importModule _ names => names
  | .define name _ => [name]
  | .assign name _ => [name]
  | .declare decl => [decl.name]
  | .evaluate _ => []

theorem Scope.mem_defineAll {line : Nat} : ∀ {names defined defined' : List String},
    names.foldlM (fun ds name => Scope.define ds name line) defined = .ok defined' →
      ∀ name, name ∈ defined' ↔ name ∈ defined ∨ name ∈ names
  | [], _, _, h, name => by
    cases h
    simp
  | first :: rest, defined, defined', h, name => by
    rw [List.foldlM_cons] at h
    obtain ⟨between, hfirst, hrest⟩ := Scope.seq_ok h
    rw [Scope.mem_of_define hfirst] at hrest
    rw [Scope.mem_defineAll hrest name, List.mem_cons, List.mem_cons]
    tauto

/-- Behind a statement, a check knows what the statement has written. -/
theorem Scope.mem_afterStatement {defined defined' : List String} {st : Statement}
    (h : Scope.afterStatement defined st = .ok defined') (name : String) :
    name ∈ defined' ↔ name ∈ defined ∨ name ∈ st.writes := by
  unfold Scope.afterStatement at h
  unfold Statement.writes
  cases hst : st.action with
  | importModule _ names =>
    rw [hst] at h
    exact Scope.mem_defineAll h name
  | define defining value =>
    rw [hst] at h
    obtain ⟨_, -, hdefine⟩ := Scope.seq_ok h
    dsimp only
    rw [Scope.mem_of_define hdefine, List.mem_cons, List.mem_singleton, or_comm]
  | assign assigned value =>
    rw [hst] at h
    obtain ⟨_, -, hassign⟩ := Scope.seq_ok h
    split at hassign
    · next hin =>
      cases hassign
      -- what is assigned was defined
      refine ⟨Or.inl, fun hname => hname.elim id fun hname => ?_⟩
      rw [List.mem_singleton.1 hname]
      exact List.contains_iff_mem.1 hin
    · exact absurd hassign (by simp)
  | declare decl =>
    rw [hst] at h
    dsimp only at h ⊢
    rw [Scope.mem_of_define h, List.mem_cons, List.mem_singleton, or_comm]
  | evaluate value =>
    rw [hst] at h
    obtain ⟨_, -, hkeep⟩ := Scope.seq_ok h
    cases hkeep
    simp

/-- Behind a program, a check knows what its statements have written. -/
theorem Scope.mem_check : ∀ {statements : List Statement} {defined defined' : List String},
    Scope.check defined statements = .ok defined' →
      ∀ name, name ∈ defined' ↔ name ∈ defined ∨ name ∈ statements.flatMap Statement.writes
  | [], _, _, h, name => by
    cases h
    simp
  | st :: rest, defined, defined', h, name => by
    rw [Scope.check, List.foldlM_cons] at h
    obtain ⟨between, hfirst, hrest⟩ := Scope.seq_ok h
    rw [Scope.mem_check hrest name, Scope.mem_afterStatement hfirst name, List.flatMap_cons,
      List.mem_append, or_assoc]

theorem Scope.check_append (defined : List String) (first second : List Statement) :
    Scope.check defined (first ++ second) =
      (Scope.check defined first >>= fun between => Scope.check between second) :=
  List.foldlM_append

/-- Two checks end alike: with one error, or with the same names. -/
def Scope.Alike : Except CompileError (List String) → Except CompileError (List String) → Prop
  | .ok defined, .ok defined' => ∀ name, name ∈ defined ↔ name ∈ defined'
  | .error e, .error e' => e = e'
  | _, _ => False

theorem Scope.Alike.error_iff {x y : Except CompileError (List String)} (h : Scope.Alike x y)
    (e : CompileError) : x = .error e ↔ y = .error e := by
  rcases x with e₁ | defined <;> rcases y with e₂ | defined'
  · cases (h : e₁ = e₂)
    rfl
  · exact h.elim
  · exact h.elim
  · simp

theorem Scope.Alike.ok_iff {x y : Except CompileError (List String)} (h : Scope.Alike x y) :
    (∃ defined, x = .ok defined) ↔ ∃ defined, y = .ok defined := by
  rcases x with e₁ | defined <;> rcases y with e₂ | defined'
  · simp
  · exact h.elim
  · exact h.elim
  · simp

theorem Scope.contains_congr {defined defined' : List String}
    (h : ∀ name, name ∈ defined ↔ name ∈ defined') (name : String) :
    defined.contains name = defined'.contains name :=
  Bool.eq_iff_iff.2 (List.contains_iff_mem.trans ((h name).trans List.contains_iff_mem.symm))

mutual

theorem Scope.checkExpr_congr {defined defined' : List String}
    (h : ∀ name, name ∈ defined ↔ name ∈ defined') : ∀ e : Expr,
      Scope.checkExpr defined e = Scope.checkExpr defined' e
  | .variable name line => by
    rw [Scope.checkExpr, Scope.checkExpr, Scope.contains_congr h]
  | .list items => by
    rw [Scope.checkExpr, Scope.checkExpr, Scope.checkAll_congr h items]
  | .getter receiver _ => by
    rw [Scope.checkExpr, Scope.checkExpr, Scope.checkExpr_congr h receiver]
  | .call receiver _ arguments => by
    rw [Scope.checkExpr, Scope.checkExpr, Scope.checkExpr_congr h receiver,
      Scope.checkAll_congr h arguments]
  | .null | .bool _ | .number _ | .text _ => by
    rw [Scope.checkExpr, Scope.checkExpr]

theorem Scope.checkAll_congr {defined defined' : List String}
    (h : ∀ name, name ∈ defined ↔ name ∈ defined') : ∀ es : List Expr,
      Scope.checkAll defined es = Scope.checkAll defined' es
  | [] => by
    rw [Scope.checkAll, Scope.checkAll]
  | e :: rest => by
    rw [Scope.checkAll, Scope.checkAll, Scope.checkExpr_congr h e, Scope.checkAll_congr h rest]

end

theorem Scope.alike_define {defined defined' : List String}
    (h : ∀ name, name ∈ defined ↔ name ∈ defined') (name : String) (line : Nat) :
    Scope.Alike (Scope.define defined name line) (Scope.define defined' name line) := by
  unfold Scope.define
  rw [Scope.contains_congr h]
  split
  · exact rfl
  · intro other
    rw [List.mem_cons, List.mem_cons, h]

theorem Scope.Alike.bind {x y : Except CompileError (List String)}
    {f g : List String → Except CompileError (List String)} (h : Scope.Alike x y)
    (hf : ∀ {defined defined'}, (∀ name, name ∈ defined ↔ name ∈ defined') →
      Scope.Alike (f defined) (g defined')) : Scope.Alike (x >>= f) (y >>= g) := by
  rcases x with e₁ | defined <;> rcases y with e₂ | defined'
  · exact h
  · exact h.elim
  · exact h.elim
  · exact hf h

/-- Steps that end alike make a fold that does. -/
theorem Scope.alike_foldlM {α : Type} {f : List String → α → Except CompileError (List String)}
    (hf : ∀ {defined defined'}, (∀ name, name ∈ defined ↔ name ∈ defined') →
      ∀ a, Scope.Alike (f defined a) (f defined' a)) : ∀ (items : List α) {defined defined'},
    (∀ name, name ∈ defined ↔ name ∈ defined') →
      Scope.Alike (items.foldlM f defined) (items.foldlM f defined')
  | [], _, _, h => h
  | a :: rest, _, _, h => by
    rw [List.foldlM_cons, List.foldlM_cons]
    exact (hf h a).bind fun h => Scope.alike_foldlM hf rest h

theorem Scope.alike_afterStatement {defined defined' : List String}
    (h : ∀ name, name ∈ defined ↔ name ∈ defined') (st : Statement) :
    Scope.Alike (Scope.afterStatement defined st) (Scope.afterStatement defined' st) := by
  have hvalue : ∀ (value : Expr) {f g : Unit → Except CompileError (List String)},
      Scope.Alike (f ()) (g ()) →
        Scope.Alike (Scope.checkExpr defined value >>= f) (Scope.checkExpr defined' value >>= g) := by
    intro value f g hfg
    rw [Scope.checkExpr_congr h value]
    cases Scope.checkExpr defined' value with
    | error e => exact rfl
    | ok => exact hfg
  unfold Scope.afterStatement
  split
  · exact Scope.alike_foldlM (fun h name => Scope.alike_define h name _) _ h
  · exact hvalue _ (Scope.alike_define h _ _)
  · refine hvalue _ ?_
    rw [Scope.contains_congr h]
    split
    · exact h
    · exact rfl
  · exact Scope.alike_define h _ _
  · exact hvalue _ h

/-- **A check depends on which names are defined, and not on their order.** -/
theorem Scope.alike_check {defined defined' : List String}
    (h : ∀ name, name ∈ defined ↔ name ∈ defined') (statements : List Statement) :
    Scope.Alike (Scope.check defined statements) (Scope.check defined' statements) :=
  Scope.alike_foldlM (fun h st => Scope.alike_afterStatement h st) statements h

end ScriptHost.Script

namespace ScriptHost.Machine

open Script

variable {ε φ α β : Type} {cb : Callbacks ε} {module : String} {r t : Running ε}

/-! ## Work that leaves the modules alone -/

/-- Behind a value, the modules are as they were. -/
def Spares (x : Run (Running ε) φ α) : Prop :=
  ∀ r a t, x r = (.value a, t) → t.machine.modules = r.machine.modules

theorem spares_pure (a : α) : Spares (pure a : Run (Running ε) φ α) := by
  intro r b t h
  cases h
  rfl

theorem spares_raise (e : RuntimeError) : Spares (raise e : Eval ε α) :=
  fun _ _ _ h => absurd (congrArg Prod.fst h) (by simp [raise, Run.fault])

theorem spares_machine : Spares (machine : Run (Running ε) φ State) := by
  intro r s t h
  cases h
  rfl

theorem spares_update {f : State → State} (hf : ∀ s, (f s).modules = s.modules) :
    Spares (update f : Run (Running ε) φ Unit) := by
  intro r a t h
  cases h
  exact hf r.machine

theorem Spares.bind {x : Run (Running ε) φ α} {f : α → Run (Running ε) φ β} (h : Spares x)
    (hf : ∀ a, Spares (f a)) : Spares (x >>= f) := by
  intro r b t hrun
  obtain ⟨a, s, hx, hrest⟩ := Run.value_of_bind hrun
  exact (hf a s b t hrest).trans (h r a s hx)

theorem Spares.widen {x : Call ε α} (h : Spares x) : Spares (x.widen : Run (Running ε) φ α) := by
  intro r a t hrun
  rw [Run.widen] at hrun
  split at hrun
  · next hx =>
    cases hrun
    exact h r a t hx
  · exact absurd (congrArg Prod.fst hrun) (by simp)

theorem Spares.withPins {x : Eval ε α} (h : Spares x) : Spares (Machine.withPins x) := by
  refine spares_machine.bind fun s r a t hrun => ?_
  rw [Run.andFinally] at hrun
  split at hrun
  · next u hx =>
    cases hrun
    exact h r a u hx
  · exact absurd (congrArg Prod.fst hrun) (by simp)
  · exact absurd (congrArg Prod.fst hrun) (by simp)

theorem Spares.withPinned {x : Eval ε α} (h : Spares x) (values : List Value) :
    Spares (Machine.withPinned values x) :=
  Spares.withPins (Spares.bind (spares_update fun _ => rfl) fun _ => h)

theorem spares_new (o : Object) :
    Spares (do return Value.object (← updateGet fun s => s.alloc o) : Eval ε Value) := by
  intro r a t h
  cases h
  rfl

theorem Spares.callForeign {function : Call ε Unit} (h : Spares function) (frame : List Value) :
    Spares (Machine.callForeign function frame) := by
  refine Spares.bind (spares_update fun _ => rfl) fun _ => h.widen.bind fun _ => ?_
  refine spares_machine.bind fun s => Spares.bind (spares_update fun _ => rfl) fun _ => ?_
  split
  · exact spares_pure _
  · exact spares_pure _
  · exact spares_raise _

/-- A host that leaves the modules alone while it is called.  Nothing but a program changes them, so
all that is asked of the host is that it runs none on the machine. -/
structure Callbacks.Sparing (cb : Callbacks ε) : Prop where
  write : ∀ text, Spares (cb.write text)
  resolve : ∀ f, cb.resolve? = some f → ∀ importer name, Spares (f importer name)
  load : ∀ name, Spares (cb.load name)
  bindClass : ∀ module className, Spares (cb.bindClass module className)
  bindMethod : ∀ name, Spares (cb.bindMethod name)
  execute : ∀ key, Spares (cb.execute key)
  allocate : ∀ key, Spares (cb.allocate key)

section

variable (hcb : cb.Sparing)
include hcb

theorem spares_invoke (signature : String) (frame : List Value) :
    Spares (invoke cb signature frame) := by
  unfold invoke
  refine spares_machine.bind fun s => ?_
  split
  · exact (hcb.write _).widen.bind fun _ => (hcb.write _).widen.bind fun _ => spares_pure _
  · exact (hcb.write _).widen.bind fun _ => spares_pure _
  · exact spares_raise _
  · exact spares_new _
  · split
    · exact spares_raise _
    · refine ((hcb.allocate _).callForeign frame).bind fun created => spares_machine.bind fun s => ?_
      split
      · exact spares_pure _
      · exact spares_raise _
  · exact (hcb.execute _).callForeign frame
  · exact spares_raise _

end

mutual

/-- **An expression defines no variables.** -/
theorem spares_eval {cb : Callbacks ε} (hcb : cb.Sparing) (module : String) :
    ∀ e : Expr, Spares (eval cb module e)
  | .null | .bool _ | .number _ | .text _ => by
    rw [eval]
    exact spares_pure _
  | .variable name line => by
    rw [eval]
    refine spares_machine.bind fun s => ?_
    split
    · exact spares_pure _
    · exact spares_raise _
  | .list items => by
    rw [eval]
    exact (spares_evalAll hcb module items).withPins.bind fun values => spares_new _
  | .getter receiver name => by
    rw [eval]
    refine ((spares_evalPinned hcb module receiver).bind fun v => spares_pure _).withPins.bind ?_
    exact fun frame => (spares_invoke hcb _ frame).withPinned frame
  | .call receiver name arguments => by
    rw [eval]
    refine ((spares_evalPinned hcb module receiver).bind fun v =>
      (spares_evalAll hcb module arguments).bind fun vs => spares_pure _).withPins.bind ?_
    exact fun frame => (spares_invoke hcb _ frame).withPinned frame

theorem spares_evalPinned {cb : Callbacks ε} (hcb : cb.Sparing) (module : String) :
    ∀ e : Expr, Spares (evalPinned cb module e)
  | e => by
    rw [evalPinned]
    refine (spares_eval hcb module e).bind fun v => ?_
    exact Spares.bind (spares_update fun _ => rfl) fun _ => spares_pure v

theorem spares_evalAll {cb : Callbacks ε} (hcb : cb.Sparing) (module : String) :
    ∀ es : List Expr, Spares (evalAll cb module es)
  | [] => by
    rw [evalAll]
    exact spares_pure _
  | e :: rest => by
    rw [evalAll]
    exact (spares_evalPinned hcb module e).bind fun v =>
      (spares_evalAll hcb module rest).bind fun vs => spares_pure _

end

section

variable (hcb : cb.Sparing)
include hcb

theorem spares_bindMethods (module className : String) : ∀ (methods : List MethodDecl) (c : Class),
    Spares (bindMethods cb module className methods c)
  | [], c => spares_pure c
  | m :: rest, c => by
    rw [bindMethods]
    refine (hcb.bindMethod _).widen.bind fun bound => ?_
    split
    · exact spares_raise _
    · exact spares_bindMethods module className rest _

theorem spares_resolveModule (importer name : String) :
    Spares (resolveModule cb importer name) := by
  unfold resolveModule
  split
  · exact spares_pure _
  · next f hf =>
    refine (hcb.resolve f hf _ _).widen.bind fun resolved => ?_
    split
    · exact spares_pure _
    · exact spares_raise _

theorem spares_loadModule (name : String) : Spares (loadModule cb name) := by
  refine (hcb.load _).widen.bind fun source => ?_
  split
  · exact spares_pure _
  · exact spares_raise _

end

/-! ## Work in one module -/

/-- Work that changes one module only.  Others may be new. -/
structure KeepsOthers (module : String) (s t : State) : Prop where
  adds : Adds s t
  others : ∀ other, s.hasModule other = true → other ≠ module →
    ∀ name, t.global? other name = s.global? other name

/-- Work that changes one module only, and writes the variables `names` there. -/
structure Writes (module : String) (names : List String) (s t : State) : Prop
    extends KeepsOthers module s t where
  own : ∀ name, (t.global? module name).isSome ↔
    (s.global? module name).isSome ∨ name ∈ names

theorem KeepsOthers.trans {s t u : State} (h : KeepsOthers module s t) (h' : KeepsOthers module t u) :
    KeepsOthers module s u :=
  ⟨h.adds.trans h'.adds, fun other hthere hne name =>
    (h'.others other (h.adds other hthere) hne name).trans (h.others other hthere hne name)⟩

theorem Writes.append {names names' : List String} {s t u : State} (h : Writes module names s t)
    (h' : Writes module names' t u) : Writes module (names ++ names') s u := by
  refine ⟨h.toKeepsOthers.trans h'.toKeepsOthers, fun name => ?_⟩
  rw [h'.own, h.own, List.mem_append, or_assoc]

theorem writes_of_global {s t : State} (hadds : Adds s t)
    (h : ∀ other, s.hasModule other = true → ∀ name, t.global? other name = s.global? other name)
    (hthere : s.hasModule module = true) : Writes module [] s t := by
  refine ⟨⟨hadds, fun other hother _ => h other hother⟩, fun name => ?_⟩
  rw [h module hthere, List.mem_nil_iff, or_false]

theorem writes_of_modules {s t : State} (h : t.modules = s.modules) : Writes module [] s t := by
  have hglobal : ∀ other name, t.global? other name = s.global? other name := by
    intro other name
    rw [State.global?, State.global?, h]
  refine ⟨⟨.of_modules h, fun other _ _ => hglobal other⟩, fun name => ?_⟩
  rw [hglobal, List.mem_nil_iff, or_false]

theorem writes_define (s : State) (module name : String) (v : Value) :
    Writes module [name] s (s.define module name v) := by
  refine ⟨⟨State.hasModule_define s module name v, fun other _ hne name' =>
    State.global?_define_ne s v (Or.inl hne)⟩, fun name' => ?_⟩
  rw [List.mem_singleton]
  by_cases hname : name' = name
  · subst hname
    rw [State.global?_define_self]
    simp
  · rw [State.global?_define_ne s v (Or.inr hname)]
    simp [hname]

/-- A machine behind which others may be new. -/
theorem writes_addModule (s : State) (module other : String) :
    Writes module [] s (s.addModule other) := by
  refine ⟨⟨adds_addModule s other, fun other' _ _ name => s.global?_addModule other other' name⟩,
    fun name => ?_⟩
  rw [s.global?_addModule, List.mem_nil_iff, or_false]

theorem Spares.writes {x : Eval ε α} (h : Spares x) {a : α} (hx : x r = (.value a, t)) :
    Writes module [] r.machine t.machine :=
  writes_of_modules (h r a t hx)

theorem writes_importNames {importer source : String} : ∀ {names : List String} {r t : Running ε},
    importNames importer source names r = (.value (), t) →
      Writes importer names r.machine t.machine
  | [], r, t, h => by
    cases h
    exact writes_of_modules rfl
  | first :: rest, r, t, h => by
    rw [importNames, machine_bind] at h
    cases hv : r.machine.global? source first with
    | none =>
      rw [hv] at h
      exact absurd (congrArg Prod.fst h) (by simp [raise, Run.fault])
    | some v =>
      rw [hv] at h
      obtain ⟨_, u, hdefine, hrest⟩ := Run.value_of_bind h
      cases hdefine
      exact (writes_define r.machine importer first v).append (writes_importNames hrest)

theorem writes_definition {name : String} {x : Eval ε Value} (hx : Spares x)
    (h : (do let v ← x; update fun s => s.define module name v : Eval ε Unit) r = (.value (), t)) :
    Writes module [name] r.machine t.machine := by
  obtain ⟨v, u, hv, hdefine⟩ := Run.value_of_bind h
  cases hdefine
  exact (hx.writes hv).append (writes_define u.machine module name v)

section

variable (hcb : cb.Sparing)
include hcb

theorem writes_declareClass {decl : ClassDecl} (h : declareClass cb module decl r = (.value (), t)) :
    Writes module [decl.name] r.machine t.machine := by
  have hbound : ∀ {c : Class} {s : Running ε}, (do
      let c ← bindMethods cb module decl.name decl.methods c
      update fun s => s.declare module decl.name c : Eval ε Unit) s = (.value (), t) →
        Writes module [decl.name] s.machine t.machine := by
    intro c s h
    obtain ⟨c', u, hu, hdefine⟩ := Run.value_of_bind h
    cases hdefine
    have halloc : Writes module [] u.machine (u.machine.alloc (.classDef c')).2 :=
      writes_of_modules rfl
    have hmethods : Writes module [] s.machine u.machine :=
      (spares_bindMethods hcb module decl.name decl.methods c).writes hu
    exact hmethods.append (halloc.append (writes_define _ module decl.name _))
  unfold declareClass at h
  dsimp only at h
  split at h
  · obtain ⟨keys, s, hkeys, h⟩ := Run.value_of_bind h
    exact ((hcb.bindClass _ _).widen.writes hkeys).append (hbound h)
  · exact hbound h

variable {run : String → String → Eval ε Unit} (hrun : ∀ found source r t,
  run found source r = (.value (), t) → KeepsOthers found r.machine t.machine)
include hrun

/-- A module is brought by its own program. -/
theorem keepsOthers_bringModule {found : String} (h : bringModule cb run found r = (.value (), t)) :
    KeepsOthers found r.machine t.machine := by
  obtain ⟨source, u, hload, h⟩ := Run.value_of_bind h
  obtain ⟨result, v, hattempt, h⟩ := Run.value_of_bind h
  have hloaded : Writes found [] r.machine u.machine := (spares_loadModule hcb found).writes hload
  rcases hprogram : run found source u with ⟨_ | e | w, v'⟩
  · cases (Run.attempt_of_value hprogram).symm.trans hattempt
    cases h
    exact hloaded.toKeepsOthers.trans (hrun found source u _ hprogram)
  · cases (Run.attempt_of_fault hprogram).symm.trans hattempt
    cases e with
    | runtime e => exact absurd (congrArg Prod.fst h) (by simp [Run.fault])
    | compile e =>
      obtain ⟨_, u', -, h⟩ := Run.value_of_bind h
      exact absurd (congrArg Prod.fst h) (by simp [raise, Run.fault])
  · rw [Run.attempt, hprogram] at hattempt
    exact absurd (congrArg Prod.fst hattempt) (by simp)

/-- An import writes the variables that it names, as what it brings was not there. -/
theorem writes_importModule {name : String} {names : List String}
    (hthere : r.machine.hasModule module = true)
    (h : importModule cb run module name names r = (.value (), t)) :
    Writes module names r.machine t.machine := by
  rw [importModule_with, importWith] at h
  obtain ⟨found, u, hresolve, h⟩ := Run.value_of_bind h
  obtain ⟨_, v, hbring, h⟩ := Run.value_of_bind h
  have hresolved : Writes module [] r.machine u.machine :=
    (spares_resolveModule hcb module name).writes hresolve
  have hthere' := hresolved.adds module hthere
  rw [whenAbsent, machine_bind] at hbring
  have hbrought : Writes module [] u.machine v.machine := by
    cases habsent : u.machine.hasModule found with
    | true =>
      rw [habsent] at hbring
      cases hbring
      exact writes_of_modules rfl
    | false =>
      rw [habsent] at hbring
      have hkeeps := keepsOthers_bringModule hcb hrun hbring
      refine writes_of_global hkeeps.adds (fun other hother => hkeeps.others other hother ?_) hthere'
      rintro rfl
      exact absurd (habsent.symm.trans hother) (by simp)
  exact (hresolved.append hbrought).append (writes_importNames h)

/-- **A statement writes its own variables, and no others**, of those that were there. -/
theorem writes_exec {st : Statement} (hthere : r.machine.hasModule module = true)
    (h : exec cb run module st r = (.value (), t)) :
    Writes module st.writes r.machine t.machine := by
  rcases st with ⟨action, line⟩
  cases action with
  | importModule name names => exact writes_importModule hcb hrun hthere h
  | define name value | assign name value => exact writes_definition (spares_eval hcb module value) h
  | declare decl => exact writes_declareClass hcb h
  | evaluate value =>
    obtain ⟨v, u, hv, h⟩ := Run.value_of_bind h
    cases h
    exact (spares_eval hcb module value).writes hv

/-- **A program writes the variables of its statements, and no others**, of those that were there. -/
theorem writes_execAll : ∀ {statements : List Statement} {r : Running ε},
    r.machine.hasModule module = true → execAll cb run module statements r = (.value (), t) →
      Writes module (statements.flatMap Statement.writes) r.machine t.machine
  | [], _, _, h => by
    cases h
    exact writes_of_modules rfl
  | st :: rest, r, hthere, h => by
    rw [execAll] at h
    obtain ⟨_, u, hlocate, h⟩ := Run.value_of_bind h
    cases hlocate
    obtain ⟨_, v, hst, h⟩ := Run.value_of_bind h
    have hfirst : Writes module ([] ++ st.writes) r.machine v.machine := by
      refine Writes.append (writes_of_modules ?_) (writes_exec hcb hrun ?_ hst)
      · rfl
      · exact hthere
    rw [List.flatMap_cons]
    exact hfirst.append (writes_execAll (hfirst.adds module hthere) h)

omit hrun

/-- A program changes no module but its own. -/
theorem keepsOthers_runModule : ∀ (depth : Nat) (module source : String) (r t : Running ε),
    runModule cb depth module source r = (.value (), t) → KeepsOthers module r.machine t.machine
  | 0, _, _, _, _, h => absurd (congrArg Prod.fst h) (by simp [runModule, Run.halt])
  | depth + 1, module, source, r, t, h => by
    rw [runModule] at h
    obtain ⟨statements, u, hcompile, h⟩ := Run.value_of_bind h
    rcases compile_cases module source r with ⟨e, s, -, hrefused⟩ | ⟨sts, defined, -, haccepted⟩
    · exact absurd (congrArg Prod.fst (hrefused.symm.trans hcompile)) (by simp)
    · cases haccepted.symm.trans hcompile
      have hadd : Writes module [] r.machine (r.withModule module).machine :=
        writes_addModule r.machine module module
      have hexec := writes_execAll hcb (keepsOthers_runModule depth)
        (hasModule_addModule_self r.machine module) h
      exact hadd.toKeepsOthers.trans hexec.toKeepsOthers

end

/-! ## Names behind a program -/

theorem hasModule_of_global? {s : State} {name : String}
    (h : (s.global? module name).isSome) : s.hasModule module = true := by
  unfold State.global? at h
  cases hfind : s.modules.find? module with
  | none =>
    rw [hfind] at h
    exact absurd h (by simp)
  | some globals =>
    rw [State.hasModule, Table.contains, hfind]
    rfl

theorem mem_namesIn_iff {s : State} {name : String} :
    name ∈ s.namesIn module ↔
      (s.global? module name).isSome ∨ (s.global? State.coreModule name).isSome := by
  rw [← lookup?_isSome_iff]
  refine ⟨covers_namesIn s module name, fun h => ?_⟩
  have hin : ∀ m ∈ [State.coreModule, module], (s.global? m name).isSome →
      name ∈ s.namesIn module := by
    intro m hm hdefined
    unfold State.global? at hdefined
    cases hfind : s.modules.find? m with
    | none =>
      rw [hfind] at hdefined
      exact absurd hdefined (by simp)
    | some globals =>
      rw [hfind, Option.bind_some] at hdefined
      obtain ⟨v, hv⟩ := Option.isSome_iff_exists.1 hdefined
      refine List.mem_flatMap.2 ⟨m, hm, ?_⟩
      rw [hfind]
      exact Table.mem_keys_of_find? hv
  rcases lookup?_isSome_iff.1 h with hown | hcore
  · exact hin module (List.mem_cons_of_mem _ List.mem_cons_self) hown
  · exact hin State.coreModule List.mem_cons_self hcore

/-- The names behind work in one module are those that were there and those that it has written. -/
theorem Writes.mem_namesIn {names : List String} {s t : State} (h : Writes module names s t)
    (hcore : s.hasModule State.coreModule = true) (name : String) :
    name ∈ t.namesIn module ↔ name ∈ s.namesIn module ∨ name ∈ names := by
  rw [mem_namesIn_iff, mem_namesIn_iff, h.own]
  by_cases hmodule : State.coreModule = module
  · subst hmodule
    rw [h.own]
    tauto
  · rw [h.others State.coreModule hcore hmodule]
    tauto

/-! ## Runs in two parts -/

/-- Checks the names of statements and executes them. -/
def runStatements (cb : Callbacks ε) (depth : Nat) (module : String) (statements : List Statement) :
    Eval ε Unit := do
  update fun s => s.addModule module
  match Scope.check ((← machine).namesIn module) statements with
  | .error e => Run.fault (.compile e)
  | .ok _ => execAll cb (runModule cb depth) module statements

/-- Ends a run of the host with its result, and reports how it has failed. -/
def concluded (cb : Callbacks ε) (module : String) (x : Eval ε Unit) : Call ε InterpretResult := do
  match ← x.attempt with
  | .ok () => return .success
  | .error (.compile e) =>
    reportCompile cb module e
    return .compileError
  | .error (.runtime e) =>
    reportRuntime cb e.message
    return .runtimeError

/-- Runs statements in a module, as a program that consists of them. -/
def interpretStatements (cb : Callbacks ε) (depth : Nat) (module : String)
    (statements : List Statement) : Call ε InterpretResult :=
  concluded cb module (runStatements cb depth module statements)

/-- Runs a second program, if the first one succeeds. -/
def andThen (x y : Call ε InterpretResult) : Call ε InterpretResult := do
  match ← x with
  | .success => y
  | result => return result

theorem interpret_eq_concluded (cb : Callbacks ε) (depth : Nat) (module source : String) :
    interpret cb depth module source = concluded cb module (runModule cb depth module source) := rfl

/-- A program is run by its statements. -/
theorem interpret_of_parse (cb : Callbacks ε) (depth : Nat) (module : String) {source : String}
    {statements : List Statement} (h : parse source = .ok statements) :
    interpret cb (depth + 1) module source = interpretStatements cb depth module statements := by
  have hrun : runModule cb (depth + 1) module source = runStatements cb depth module statements := by
    rw [runModule, compile, h, runStatements]
    simp only [bind_assoc]
    refine congrArg _ (funext fun _ => congrArg _ (funext fun s => ?_))
    cases Scope.check (s.namesIn module) statements <;> rfl
  rw [interpret_eq_concluded, hrun, interpretStatements]

theorem namesIn_addModule (s : State) (module : String) :
    ∀ name, name ∈ (s.addModule module).namesIn module ↔ name ∈ s.namesIn module := by
  intro name
  rw [mem_namesIn_iff, mem_namesIn_iff, s.global?_addModule, s.global?_addModule]

theorem runStatements_of_error {depth : Nat} {statements : List Statement} {e : CompileError}
    (h : Scope.check (r.machine.namesIn module) statements = .error e) :
    runStatements cb depth module statements r = (.fault (.compile e), r.withModule module) := by
  have hchecked := (Scope.alike_check (namesIn_addModule r.machine module) statements).error_iff e
  have hadd : (update fun s => s.addModule module : Eval ε Unit) r =
      (.value (), r.withModule module) := rfl
  rw [runStatements, Run.bind_of_value hadd, machine_bind]
  rw [show Scope.check ((r.withModule module).machine.namesIn module) statements = _ from hchecked.2 h]
  rfl

theorem runStatements_of_ok {depth : Nat} {statements : List Statement}
    (h : ∃ defined, Scope.check (r.machine.namesIn module) statements = .ok defined) :
    runStatements cb depth module statements r =
      execAll cb (runModule cb depth) module statements (r.withModule module) := by
  obtain ⟨defined, hchecked⟩ :=
    (Scope.alike_check (namesIn_addModule r.machine module) statements).ok_iff.2 h
  have hadd : (update fun s => s.addModule module : Eval ε Unit) r =
      (.value (), r.withModule module) := rfl
  rw [runStatements, Run.bind_of_value hadd, machine_bind]
  rw [show Scope.check ((r.withModule module).machine.namesIn module) statements = _ from hchecked]

theorem concluded_congr {x y : Eval ε Unit} {r' : Running ε} (h : x r = y r') :
    concluded cb module x r = concluded cb module y r' := by
  have hattempt : (x.attempt : Call ε (Except Fault Unit)) r = y.attempt r' := by
    rw [Run.attempt, Run.attempt, h]
  rcases hy : (y.attempt : Call ε (Except Fault Unit)) r' with ⟨result | e | w, t⟩
  · rw [concluded, concluded, Run.bind_of_value hy, Run.bind_of_value (hattempt.trans hy)]
  · exact e.elim
  · rw [concluded, concluded, Run.bind_of_halt hy, Run.bind_of_halt (hattempt.trans hy)]

theorem concluded_of_value {x : Eval ε Unit} (h : x r = (.value (), t)) :
    concluded cb module x r = (.value .success, t) := by
  rw [concluded, Run.bind_of_value (Run.attempt_of_value h)]
  rfl

/-- A run that succeeds has come to its end. -/
theorem value_of_concluded {x : Eval ε Unit} (h : concluded cb module x r = (.value .success, t)) :
    x r = (.value (), t) := by
  obtain ⟨result, s, hattempt, h⟩ := Run.value_of_bind h
  rcases hx : x r with ⟨_ | (e | e) | w, s'⟩
  · cases (Run.attempt_of_value hx).symm.trans hattempt
    cases h
    rfl
  · cases (Run.attempt_of_fault hx).symm.trans hattempt
    obtain ⟨_, u, -, h⟩ := Run.value_of_bind h
    exact absurd (congrArg Prod.fst h) (by simp [Pure.pure, Run.pure])
  · cases (Run.attempt_of_fault hx).symm.trans hattempt
    obtain ⟨_, u, -, h⟩ := Run.value_of_bind h
    exact absurd (congrArg Prod.fst h) (by simp [Pure.pure, Run.pure])
  · rw [Run.attempt, hx] at hattempt
    exact absurd (congrArg Prod.fst hattempt) (by simp)

/-- A run that does not come to its end does not succeed. -/
theorem andThen_concluded {x : Eval ε Unit} {y : Call ε InterpretResult}
    (h : ∀ t, x r ≠ (.value (), t)) :
    andThen (concluded cb module x) y r = concluded cb module x r := by
  rcases hrun : concluded cb module x r with ⟨result | e | w, t⟩
  · rw [andThen, Run.bind_of_value hrun]
    cases result with
    | success => exact absurd (value_of_concluded hrun) (h t)
    | compileError | runtimeError => rfl
  · exact e.elim
  · rw [andThen, Run.bind_of_halt hrun]

theorem execAll_append (run : String → String → Eval ε Unit) (module : String) :
    ∀ first second : List Statement, execAll cb run module (first ++ second) =
      (execAll cb run module first >>= fun _ => execAll cb run module second)
  | [], _ => rfl
  | st :: rest, second => by
    rw [List.cons_append, execAll, execAll, execAll_append run module rest second]
    simp only [bind_assoc]

theorem addModule_of_hasModule {s : State} (h : s.hasModule module = true) :
    s.addModule module = s := by
  rw [State.addModule, if_pos h]

section

variable (hcb : cb.Sparing) (hcore : r.machine.hasModule State.coreModule = true)
include hcb hcore

/-- **The names that are defined when the first part has run are those that the check of the whole
takes to be defined there.** -/
theorem alike_second {depth : Nat} {first : List Statement} (second : List Statement)
    (h : runStatements cb depth module first r = (.value (), t)) :
    t.machine.hasModule module = true ∧
      Scope.Alike (Scope.check (t.machine.namesIn module) second)
        (Scope.check (r.machine.namesIn module) (first ++ second)) := by
  cases hcheck : Scope.check (r.machine.namesIn module) first with
  | error e =>
    exact absurd (congrArg Prod.fst ((runStatements_of_error hcheck).symm.trans h)) (by simp)
  | ok defined =>
    rw [runStatements_of_ok ⟨defined, hcheck⟩] at h
    have hadd : Writes module [] r.machine (r.withModule module).machine :=
      writes_addModule r.machine module module
    have hexec := writes_execAll hcb (keepsOthers_runModule hcb depth)
      (hasModule_addModule_self r.machine module) h
    have hwrites : Writes module ([] ++ first.flatMap Statement.writes) r.machine t.machine :=
      hadd.append hexec
    refine ⟨hexec.adds module (hasModule_addModule_self r.machine module), ?_⟩
    rw [Scope.check_append, hcheck]
    refine Scope.alike_check (fun name => ?_) second
    rw [hwrites.mem_namesIn hcore, Scope.mem_check hcheck, List.nil_append]

/-- A program whose names are accepted does what its parts do. -/
theorem interpretStatements_append (depth : Nat) {first second : List Statement}
    (hcheck : ∃ defined,
      Scope.check (r.machine.namesIn module) (first ++ second) = .ok defined) :
    interpretStatements cb depth module (first ++ second) r =
      andThen (interpretStatements cb depth module first)
        (interpretStatements cb depth module second) r := by
  have hfirst : ∃ defined, Scope.check (r.machine.namesIn module) first = .ok defined := by
    obtain ⟨defined, h⟩ := hcheck
    rw [Scope.check_append] at h
    obtain ⟨between, hbetween, -⟩ := Scope.seq_ok h
    exact ⟨between, hbetween⟩
  have hwhole : runStatements cb depth module (first ++ second) r =
      (execAll cb (runModule cb depth) module first >>= fun _ =>
        execAll cb (runModule cb depth) module second) (r.withModule module) := by
    rw [runStatements_of_ok hcheck, execAll_append]
  have hpart : runStatements cb depth module first r =
      execAll cb (runModule cb depth) module first (r.withModule module) := runStatements_of_ok hfirst
  rw [interpretStatements, interpretStatements, interpretStatements]
  rcases hrun : runStatements cb depth module first r with ⟨_ | e | w, t⟩
  · obtain ⟨hthere, halike⟩ := alike_second hcb hcore second hrun
    have hagain : t.withModule module = t := by
      rw [Running.withModule, addModule_of_hasModule hthere]
    have hrest : runStatements cb depth module second t =
        execAll cb (runModule cb depth) module second t := by
      rw [runStatements_of_ok (halike.ok_iff.2 hcheck), hagain]
    rw [andThen, Run.bind_of_value (concluded_of_value hrun)]
    refine concluded_congr ?_
    rw [hwhole, Run.bind_of_value (hpart.symm.trans hrun), hrest]
  · rw [andThen_concluded fun t' => by rw [hrun]; simp]
    refine concluded_congr ?_
    rw [hwhole, Run.bind_of_fault (hpart.symm.trans hrun), hrun]
  · rw [andThen_concluded fun t' => by rw [hrun]; simp]
    refine concluded_congr ?_
    rw [hwhole, Run.bind_of_halt (hpart.symm.trans hrun), hrun]

/-- **A program may be run in two parts**, on a host that runs no programs on the machine meanwhile.
If the names of the whole are accepted, then the result, the machine and all that the host has seen are
those of running the first part and then, if it has succeeded, the second one.  And when the first part
has succeeded, the names of the second are accepted if and only if those of the whole were accepted
before; otherwise both are refused with one error.

The core module has to be there, as it is from the beginning (`Setting.core_stays`). -/
theorem programs_split (depth : Nat) (module : String) (first second : List Statement) :
    ((∃ defined, Scope.check (r.machine.namesIn module) (first ++ second) = .ok defined) →
      interpretStatements cb depth module (first ++ second) r =
        andThen (interpretStatements cb depth module first)
          (interpretStatements cb depth module second) r ∧
      ∀ source source₁ source₂, parse source = .ok (first ++ second) → parse source₁ = .ok first →
        parse source₂ = .ok second →
          interpret cb (depth + 1) module source r =
            andThen (interpret cb (depth + 1) module source₁)
              (interpret cb (depth + 1) module source₂) r) ∧
    ∀ t, interpretStatements cb depth module first r = (.value .success, t) →
      ((∃ defined, Scope.check (t.machine.namesIn module) second = .ok defined) ↔
        ∃ defined, Scope.check (r.machine.namesIn module) (first ++ second) = .ok defined) ∧
      ∀ e, Scope.check (t.machine.namesIn module) second = .error e ↔
        Scope.check (r.machine.namesIn module) (first ++ second) = .error e := by
  refine ⟨fun hcheck => ?_, fun t h => ?_⟩
  · have hsplit := interpretStatements_append hcb hcore depth hcheck
    refine ⟨hsplit, fun source source₁ source₂ h h₁ h₂ => ?_⟩
    rw [interpret_of_parse cb depth module h, interpret_of_parse cb depth module h₁,
      interpret_of_parse cb depth module h₂, hsplit]
  · obtain ⟨-, halike⟩ := alike_second hcb hcore second (value_of_concluded h)
    exact ⟨halike.ok_iff, halike.error_iff⟩

end

/-- A host with one module. -/
def library : Callbacks Unit :=
  { mirror with load := fun name => pure (if name = "left" then some "var y = null" else none) }

theorem sparing_library : library.Sparing := by
  have hmethod : Spares (update fun s => s.setSlot 0 (s.slot 1) : Call Unit Unit) :=
    spares_update fun s => State.setSlot_modules s 0 _
  exact
    { write := fun _ => spares_pure _
      resolve := fun f hf => absurd hf (by simp [library, mirror])
      load := fun _ => spares_pure _
      bindClass := fun _ _ => spares_pure _
      bindMethod := fun _ => spares_pure _
      execute := fun _ => hmethod
      allocate := fun _ => hmethod }

/-- A program that takes a variable from the module, and hides a class of the core module behind it. -/
def shadowing : List Statement :=
  [⟨.importModule "left" ["y"], 1⟩, ⟨.assign "System" (.variable "y" 2), 2⟩]

/-- A program that goes on from there. -/
def gathering : List Statement :=
  [⟨.define "x" (.list [.variable "System" 3, .variable "y" 3]), 3⟩]

set_option maxRecDepth 8000 in
/-- The second part reads what the first one has defined, and ends where the whole ends. -/
theorem programs_split_shadowing :
    let r : Running Unit := ⟨State.create 0, ()⟩
    r.machine.hasModule State.coreModule = true ∧
      (∃ defined, Scope.check (r.machine.namesIn "main") (shadowing ++ gathering) = .ok defined) ∧
      ∃ t u, interpretStatements library 2 "main" shadowing r = (.value .success, t) ∧
        (∃ defined, Scope.check (t.machine.namesIn "main") gathering = .ok defined) ∧
        interpretStatements library 2 "main" gathering t = (.value .success, u) ∧
        interpretStatements library 2 "main" (shadowing ++ gathering) r = (.value .success, u) := by
  intro r
  have hcore : r.machine.hasModule State.coreModule = true := by decide
  have hcheck : ∃ defined,
      Scope.check (r.machine.namesIn "main") (shadowing ++ gathering) = .ok defined :=
    ⟨["x", "y", "System", "Fiber"], by rfl⟩
  obtain ⟨hsplit, hnames⟩ := programs_split sparing_library hcore 2 "main" shadowing gathering
  have hfirst : (interpretStatements library 2 "main" shadowing r).1 = .value .success := by cbv
  have hwhole : (interpretStatements library 2 "main" (shadowing ++ gathering) r).1 =
      .value .success := by cbv
  rcases ht : interpretStatements library 2 "main" shadowing r with ⟨o, t⟩
  rcases hu : interpretStatements library 2 "main" (shadowing ++ gathering) r with ⟨o', u⟩
  rw [ht] at hfirst
  rw [hu] at hwhole
  obtain rfl : o = .value .success := hfirst
  obtain rfl : o' = .value .success := hwhole
  have hsecond := (hsplit hcheck).1
  rw [andThen, Run.bind_of_value ht, hu] at hsecond
  exact ⟨hcore, hcheck, t, u, rfl, (hnames t ht).1.2 hcheck, hsecond.symm, rfl⟩

end ScriptHost.Machine

namespace ScriptHost.Bridge

open Machine (State Grows)

variable {η α : Type} [Observer η] {vm : VmId} {a : Address}

/-! ## The core module -/

/-- A machine has the first variable of its core module. -/
def HasCore (m : State) : Prop := (m.global? State.coreModule State.systemName).isSome

/-- The core module has its variables from the beginning, and keeps them. -/
theorem tends_core : Tends HasCore Grows where
  refl := .refl
  trans _ _ _ := .trans
  touch h := by
    have hgrows := Grows.of_modules h.modules
    exact ⟨hgrows State.coreModule State.systemName, hgrows⟩
  create := by
    rw [HasCore]
    decide

theorem upheld_core (vm : VmId) (a : Address) :
    (Regime.about .free vm a HasCore Grows : Regime η).Upheld :=
  upheld_about tends_core (balanced_of_modules (fun _ _ _ => .trans) .of_modules fun h => h.inner.grows)
    (fun h => h.grows _ _) fun m v => .of_modules (State.setSlot_modules m 0 v)

/-- **Every machine has its core module**, behind any program of its host. -/
theorem Setting.core_stays (s : Setting η) {p : Program η α} (hend : (s.run p).1.isFinal = false)
    (hl : (s.run p).2.LiveAt vm a) :
    ((s.run p).2.machine a).hasModule State.coreModule = true := by
  have k := upheld_core (η := η) vm a
  have hmoves := (within_program k.toSustained (serves_engines k s.code.obeys_free s.importDepth s.depth)
    p p.obeys_free s.start).2 hend s.steady_start fun hlive => absurd hlive.1 Bool.false_ne_true
  exact Machine.hasModule_of_global? (hmoves.2.1 hl)

end ScriptHost.Bridge
