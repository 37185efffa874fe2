import ScriptHost.Proofs.Alarms
import ScriptHost.Proofs.Compilation
import ScriptHost.Proofs.Retention

/-!
# Checked programs read defined variables

The names of a program are checked when it is compiled, against the names that are defined then; the
variables are read when it runs, and by then other programs have run.  What joins the two is that
variables that are defined stay defined (`Grows`), whatever the host does in the meantime and whatever
else is run.  So a machine that covers the names of a check goes on to cover them
(`Covers.of_grows`), and behind each statement it covers the names that the check adds for it
(`lasting_exec`).  Programs that compile, and the modules that they import, never fail for a variable
that is not defined (`Setting.variables_defined`).
-/

namespace ScriptHost.Script

/-! ## What a check says of a statement -/

/-- The variables that a statement defines. -/
def Statement.defines (st : Statement) : List String :=
  match st.action with
  | .importModule _ names => names
  | .define name _ => [name]
  | .declare decl => [decl.name]
  | .assign _ _ => []
  | .evaluate _ => []

theorem Scope.mem_of_define {defined defined' : List String} {name : String} {line : Nat}
    (h : Scope.define defined name line = .ok defined') : defined' = name :: defined := by
  unfold Scope.define at h
  split at h
  · exact absurd h (by simp)
  · exact (Except.ok.inj h).symm

theorem Scope.mem_of_defineAll {names : List String} {line : Nat} : ∀ {defined defined' : List String},
    names.foldlM (fun ds name => Scope.define ds name line) defined = .ok defined' →
      ∀ name ∈ defined', name ∈ names ∨ name ∈ defined := by
  induction names with
  | nil =>
    intro defined defined' h name hname
    cases h
    exact Or.inr hname
  | cons first rest ih =>
    intro defined defined' h name hname
    rw [List.foldlM_cons] at h
    obtain ⟨between, hfirst, hrest⟩ := Scope.seq_ok h
    rw [Scope.mem_of_define hfirst] at hrest
    rcases ih hrest name hname with hin | hin
    · exact Or.inl (List.mem_cons_of_mem first hin)
    · refine (List.mem_cons.1 hin).imp (fun heq => ?_) id
      rw [heq]
      exact List.mem_cons_self

/-- A statement that was checked reads defined variables only, and adds those that it defines. -/
theorem Scope.afterStatement_ok {defined defined' : List String} {st : Statement}
    (h : Scope.afterStatement defined st = .ok defined') :
    (∀ name ∈ st.names, name ∈ defined) ∧
      ∀ name ∈ defined', name ∈ st.defines ∨ name ∈ defined := by
  unfold Scope.afterStatement at h
  unfold Statement.names Statement.defines
  split at h
  · next hst =>
    rw [hst]
    exact ⟨fun _ hname => absurd hname List.not_mem_nil, Scope.mem_of_defineAll h⟩
  · next hst =>
    rw [hst]
    obtain ⟨_, hvalue, hdefine⟩ := Scope.seq_ok h
    rw [Scope.mem_of_define hdefine]
    exact ⟨Scope.names_of_checkExpr hvalue,
      fun name hname => (List.mem_cons.1 hname).imp List.mem_singleton.2 id⟩
  · next hst =>
    rw [hst]
    obtain ⟨_, hvalue, hassign⟩ := Scope.seq_ok h
    split at hassign
    · cases hassign
      exact ⟨Scope.names_of_checkExpr hvalue, fun name hname => Or.inr hname⟩
    · exact absurd hassign (by simp)
  · next hst =>
    rw [hst]
    rw [Scope.mem_of_define h]
    exact ⟨fun _ hname => absurd hname List.not_mem_nil,
      fun name hname => (List.mem_cons.1 hname).imp List.mem_singleton.2 id⟩
  · next hst =>
    rw [hst]
    obtain ⟨_, hvalue, hkeep⟩ := Scope.seq_ok h
    cases hkeep
    exact ⟨Scope.names_of_checkExpr hvalue, fun name hname => Or.inr hname⟩

end ScriptHost.Script

namespace ScriptHost.Machine

open Script

variable {ε α : Type}

/-! ## Names that a machine covers -/

/-- A machine covers names in a module if each is a variable of the module or of the core module. -/
def Covers (s : State) (module : String) (names : List String) : Prop :=
  ∀ name ∈ names, (s.lookup? module name).isSome

theorem lookup?_isSome_iff {s : State} {module name : String} :
    (s.lookup? module name).isSome ↔
      (s.global? module name).isSome ∨ (s.global? State.coreModule name).isSome := by
  rw [State.lookup?, Option.isSome_or, Bool.or_eq_true]

/-- The names against which a program is checked are covered. -/
theorem covers_namesIn (s : State) (module : String) : Covers s module (s.namesIn module) := by
  intro name hname
  obtain ⟨m, hm, hin⟩ := List.mem_flatMap.1 hname
  have hdefined : (s.global? m name).isSome := by
    unfold State.global?
    cases hfind : s.modules.find? m with
    | none =>
      rw [hfind] at hin
      exact absurd hin List.not_mem_nil
    | some globals =>
      rw [hfind] at hin
      obtain ⟨v, hv⟩ := Table.exists_find?_of_mem hin
      rw [Option.bind_some, hv]
      rfl
  rcases List.mem_cons.1 hm with rfl | hm
  · exact lookup?_isSome_iff.2 (Or.inr hdefined)
  · rw [List.mem_singleton.1 hm] at hdefined
    exact lookup?_isSome_iff.2 (Or.inl hdefined)

/-- Names that are covered stay covered. -/
theorem Covers.of_grows {s s' : State} {module : String} {names : List String}
    (h : Covers s module names) (hg : Grows s s') : Covers s' module names := by
  intro name hname
  rcases lookup?_isSome_iff.1 (h name hname) with hown | hcore
  · exact lookup?_isSome_iff.2 (Or.inl (hg module name hown))
  · exact lookup?_isSome_iff.2 (Or.inr (hg State.coreModule name hcore))

/-! ## What statements define -/

/-- Imported variables are defined, and the others stay defined. -/
theorem importNames_defines {importer source : String} : ∀ {names : List String} {r t : Running ε},
    importNames importer source names r = (.value (), t) →
      Grows r.machine t.machine ∧ ∀ name ∈ names, (t.machine.global? importer name).isSome
  | [], r, t, h => by
    cases h
    exact ⟨.refl r.machine, fun _ hname => absurd hname List.not_mem_nil⟩
  | first :: rest, r, t, h => by
    rw [importNames, machine_bind] at h
    cases hv : r.machine.global? source first with
    | none =>
      rw [hv] at h
      exact absurd (congrArg Prod.fst h) (by simp [raise, Run.fault])
    | some v =>
      rw [hv] at h
      obtain ⟨_, u, hdefine, hrest⟩ := Run.value_of_bind h
      cases hdefine
      obtain ⟨hgrows, hdefined⟩ := importNames_defines hrest
      have hfirst := State.own_define r.machine importer first v
      refine ⟨hfirst.inner.grows.trans hgrows, fun name hname => ?_⟩
      rcases List.mem_cons.1 hname with rfl | hname
      · refine hgrows importer name ?_
        change ((r.machine.define importer name v).global? importer name).isSome
        rw [State.global?_define_self]
        rfl
      · exact hdefined name hname

theorem define_defines {module name : String} {x : Eval ε Value} {r t : Running ε}
    (h : (do let v ← x; update fun s => s.define module name v : Eval ε Unit) r = (.value (), t)) :
    (t.machine.global? module name).isSome := by
  obtain ⟨v, u, -, hdefine⟩ := Run.value_of_bind h
  cases hdefine
  change ((u.machine.define module name v).global? module name).isSome
  rw [State.global?_define_self]
  rfl

theorem declareClass_defines {cb : Callbacks ε} {module : String} {decl : ClassDecl}
    {r t : Running ε} (h : declareClass cb module decl r = (.value (), t)) :
    (t.machine.global? module decl.name).isSome := by
  have hbound : ∃ (x : Eval ε Class) (s : Running ε), (do
      let c ← x
      update fun s => (s.alloc (.classDef c)).2.define module decl.name
        (.object (s.alloc (.classDef c)).1) : Eval ε Unit) s = (.value (), t) := by
    unfold declareClass at h
    dsimp only at h
    split at h
    · obtain ⟨keys, s, -, h⟩ := Run.value_of_bind h
      exact ⟨_, s, h⟩
    · exact ⟨_, r, h⟩
  obtain ⟨x, s, h⟩ := hbound
  obtain ⟨c, u, -, hdefine⟩ := Run.value_of_bind h
  cases hdefine
  change (((u.machine.alloc (.classDef c)).2.define module decl.name _).global? _ _).isSome
  rw [State.global?_define_self]
  rfl

/-- A statement has defined its variables when it has been executed. -/
theorem exec_defines {cb : Callbacks ε} {run : String → String → Eval ε Unit} {module : String}
    {st : Statement} {r t : Running ε} (h : exec cb run module st r = (.value (), t)) :
    ∀ name ∈ st.defines, (t.machine.global? module name).isSome := by
  rcases st with ⟨action, line⟩
  cases action with
  | importModule source names =>
    change importModule cb run module source names r = _ at h
    rw [importModule_eq] at h
    obtain ⟨resolved, u, -, h⟩ := Run.value_of_bind h
    rw [machine_bind] at h
    cases hthere : u.machine.hasModule resolved with
    | true =>
      rw [hthere] at h
      exact (importNames_defines h).2
    | false =>
      rw [hthere] at h
      obtain ⟨_, v, -, h⟩ := Run.value_of_bind h
      exact (importNames_defines h).2
  | define first value =>
    intro name hname
    rw [List.mem_singleton.1 hname]
    exact define_defines h
  | declare decl =>
    intro name hname
    rw [List.mem_singleton.1 hname]
    exact declareClass_defines h
  | assign | evaluate => exact fun _ hname => absurd hname List.not_mem_nil

/-! ## Runs of checked programs -/

/-- A fault that is not about a variable that is not defined. -/
def Fault.Bound (e : Fault) : Prop := ∀ name, e ≠ .runtime (.undefinedVariable name)

section

variable {Ok : Running ε → Prop} {L S : Running ε → Running ε → Prop} {cb : Callbacks ε}
  {F : Fault → Prop} {r : Running ε} {P : State → Prop}

/-- What is known on the way need not be kept in mind. -/
theorem Lasting.forget {K : State → State → Prop} {x : Eval ε α}
    (h : Lasting (fun r => Ok r ∧ P r.machine) L S K F x r) : Lasting Ok L S K F x r where
  value a t hx := by
    obtain ⟨hl, hok, hk⟩ := h.value a t hx
    exact ⟨hl, hok.1, hk⟩
  fault e t hx := by
    obtain ⟨⟨hl, hok, hk⟩, he⟩ := h.fault e t hx
    exact ⟨⟨hl, hok.1, hk⟩, he⟩
  halt := h.halt

variable (p : Steered Ok L S Grows Grows Grows cb)
include p

/-- Among covered names, evaluation never fails for a variable that is not defined. -/
theorem paired_covered (module : String) (defined : List String) :
    Paired (fun _ x _ => ∀ r, (Ok r ∧ Covers r.machine module defined) →
        Lasting (fun r => Ok r ∧ Covers r.machine module defined) L S Grows Fault.Bound x r)
      (fun _ x _ => ∀ r, (Ok r ∧ Covers r.machine module defined) →
        Lasting (fun r => Ok r ∧ Covers r.machine module defined) L S Grows Fault.Bound x r)
      (fun module' name => module' = module ∧ name ∈ defined) cb cb := by
  have hgrows : ∀ {s t : State}, Grows s t → Covers s module defined → Covers t module defined :=
    fun h hcovers => hcovers.of_grows h
  refine paired_lasting (p.along (P := fun r => Covers r.machine module defined)
    (fun _ h _ _ => hgrows h.grows) (fun _ _ _ => hgrows) fun _ _ _ => hgrows) ?_ ?_
  · rintro e he name heq
    exact he name (Fault.runtime.inj heq)
  · rintro _ name ⟨rfl, hname⟩ r hok
    exact Or.inl (hok.2 name hname)

/-- Where no variables are read, none is missing. -/
theorem paired_bound :
    Paired (fun _ x _ => ∀ r, Ok r → Lasting Ok L S Grows Fault.Bound x r)
      (fun _ x _ => ∀ r, Ok r → Lasting Ok L S Grows Fault.Bound x r) (fun _ _ => False) cb cb := by
  refine paired_lasting p ?_ fun _ _ h => h.elim
  rintro e he name heq
  exact he name (Fault.runtime.inj heq)

variable {run : String → String → Eval ε Unit}
  (hbring : ∀ module r, Ok r → Lasting Ok L S Grows Fault.Bound (bringModule cb run module) r)
include hbring

/-- **A checked statement reads defined variables**, and behind it those are defined that the check
takes to be. -/
theorem lasting_exec {module : String} {defined defined' : List String} {st : Statement}
    (hcheck : Scope.afterStatement defined st = .ok defined') (hok : Ok r)
    (hcovers : Covers r.machine module defined) :
    Lasting Ok L S Grows Fault.Bound (exec cb run module st) r ∧
      ∀ t, exec cb run module st r = (.value (), t) → Covers t.machine module defined' := by
  obtain ⟨hreads, hdefines⟩ := Scope.afterStatement_ok hcheck
  have hrun : Lasting (fun r => Ok r ∧ Covers r.machine module defined) L S Grows Fault.Bound
      (exec cb run module st) r := by
    have hpaired := paired_covered p module defined
    refine @paired_exec ε ε _ _ _ cb cb hpaired.assembled run run (fun module' r hok => ?_) module st
      (fun name hname => ⟨rfl, hreads name hname⟩) r ⟨hok, hcovers⟩
    exact (hbring module' r hok.1).along fun t hg => hok.2.of_grows hg
  refine ⟨hrun.forget (P := fun s => Covers s module defined), fun t ht name hname => ?_⟩
  obtain ⟨-, ⟨-, hcovers'⟩, -⟩ := hrun.value () t ht
  rcases hdefines name hname with hnew | hold
  · exact lookup?_isSome_iff.2 (Or.inl (exec_defines ht name hnew))
  · exact hcovers' name hold

/-- **A checked program reads defined variables**, and behind it those are defined that the check
takes to be. -/
theorem lasting_execAll {module : String} : ∀ {statements : List Statement}
    {defined defined' : List String} {r : Running ε},
    Scope.check defined statements = .ok defined' → Ok r → Covers r.machine module defined →
      Lasting Ok L S Grows Fault.Bound (execAll cb run module statements) r ∧
      ∀ t, execAll cb run module statements r = (.value (), t) → Covers t.machine module defined'
  | [], _, _, r, hcheck, hok, hcovers => by
    cases hcheck
    refine ⟨lasting_pure p hok (), fun t ht => ?_⟩
    cases ht
    exact hcovers
  | st :: rest, defined, defined', r, hcheck, hok, hcovers => by
    rw [Scope.check, List.foldlM_cons] at hcheck
    obtain ⟨between, hfirst, hrest⟩ := Scope.seq_ok hcheck
    have hown : Own r.machine { r.machine with location := ⟨module, st.line⟩ } :=
      State.own_locate r.machine _
    have hlocate : Lasting Ok L S Grows Fault.Bound
        (update fun s => { s with location := ⟨module, st.line⟩ } : Eval ε Unit) r :=
      lasting_own p hok hown
    rw [execAll]
    obtain ⟨-, hok₁, hgrows⟩ := hlocate.value () _ rfl
    have hstatement := lasting_exec p hbring hfirst hok₁ (hcovers.of_grows hgrows)
    refine ⟨lasting_bind p.span p.balanced.trans hlocate fun _ t ht _ => ?_, fun t ht => ?_⟩
    · cases ht
      refine lasting_bind p.span p.balanced.trans hstatement.1 fun _ t ht hok₂ => ?_
      exact (lasting_execAll hrest hok₂ (hstatement.2 t ht)).1
    · obtain ⟨_, t₁, ht₁, ht⟩ := Run.value_of_bind ht
      cases ht₁
      obtain ⟨_, t₂, ht₂, ht⟩ := Run.value_of_bind ht
      obtain ⟨-, hok₂, -⟩ := hstatement.1.value () t₂ ht₂
      exact (lasting_execAll hrest hok₂ (hstatement.2 t₂ ht₂)).2 t ht

omit hbring

/-- Compiling leads to a program whose names are covered, or to a compile error. -/
theorem lasting_compile (hok : Ok r) (module source : String) :
    Lasting Ok L S Grows Fault.Bound (compile module source) r ∧
      ∀ statements t, compile module source r = (.value statements, t) →
        ∃ defined defined', Scope.check defined statements = .ok defined' ∧
          Covers t.machine module defined := by
  have hown : Own r.machine (r.withModule module).machine := State.own_addModule r.machine module
  have hadd : L r (r.withModule module) ∧ Ok (r.withModule module) ∧
      Grows r.machine (r.withModule module).machine := by
    obtain ⟨hl, hok'⟩ := p.work hok hown.inner
    exact ⟨hl, hok', hown.inner.grows⟩
  have hbound : ∀ e, Fault.Bound (.compile e) := fun e name => by simp
  rcases compile_cases module source r with ⟨e, t, href, hrun⟩ | ⟨statements, defined, hacc, hrun⟩
  · refine ⟨?_, fun statements t' ht' => absurd (hrun.symm.trans ht') (by simp)⟩
    cases href with
    | grammar _ => exact .of_fault hrun ⟨p.span.refl r, hok, .refl r.machine⟩ (hbound e)
    | names _ _ => exact .of_fault hrun hadd (hbound e)
  · refine ⟨.of_value hrun hadd, fun statements' t ht => ?_⟩
    cases hrun.symm.trans ht
    exact ⟨_, defined, hacc.2, covers_namesIn _ module⟩

omit p in
theorem bound_raise {e : RuntimeError} (he : ∀ name, e ≠ .undefinedVariable name) :
    Fault.Bound (.runtime e) := fun name heq => he name (Fault.runtime.inj heq)

/-- A module is brought by a run of its program. -/
theorem lasting_bringModule
    (hrun : ∀ module source r, Ok r → Lasting Ok L S Grows Fault.Bound (run module source) r)
    (module : String) (r : Running ε) (hok : Ok r) :
    Lasting Ok L S Grows Fault.Bound (bringModule cb run module) r := by
  refine lasting_bind p.span p.balanced.trans (paired_loadModule (paired_bound p).assembled module r hok)
    fun source t _ hok => ?_
  refine lasting_recover p (hrun module source t hok) fun e u hok => ?_
  refine lasting_bind p.span p.balanced.trans
    (lasting_host hok (p.report _) (p.contained.report _)) fun _ v _ hok => ?_
  exact lasting_fault p hok (bound_raise fun _ => by simp)

/-- **No run of a program, imports included, fails for a variable that is not defined.** -/
theorem lasting_runModule : ∀ (depth : Nat) (module source : String) (r : Running ε), Ok r →
    Lasting Ok L S Grows Fault.Bound (runModule cb depth module source) r
  | 0, _, _, _, hok => .of_halt rfl rfl (p.span.stop hok)
  | depth + 1, module, source, r, hok => by
    have hbring := lasting_bringModule p (lasting_runModule depth)
    obtain ⟨hcompile, hnames⟩ := lasting_compile p hok module source
    rw [runModule]
    refine lasting_bind p.span p.balanced.trans hcompile fun statements t ht hok' => ?_
    obtain ⟨defined, defined', hcheck, hcovers⟩ := hnames statements t ht
    exact (lasting_execAll p hbring hcheck hok' hcovers).1

end

end ScriptHost.Machine

namespace ScriptHost.Bridge

open Machine (State Running Callbacks Eval Fault Grows Covers Agree Steered Lasting)
open Run (Within)

variable {η α : Type}

section

variable [Observer η] {vm : VmId} {a : Address} {active : List Address} {d : Delegates (Host η)}

/-- **No work of a host takes a variable from a machine.** -/
theorem upheld_grows (vm : VmId) (a : Address) : (Regime.relating vm a Grows : Regime η).Upheld :=
  upheld_of_modules (fun _ _ _ => .trans) .of_modules (fun h => h.inner.grows) vm a

theorem steered_grows (h : (Regime.relating vm a Grows).Behaved active d) (ha : a ∈ active) :
    Steered (Working vm a active) (Passes active a) (Leaves vm a active fun _ => True) Grows Grows Grows
      (callbacks d a) :=
  steered_of_modules (fun _ _ _ => .trans) .of_modules (fun h => h.inner.grows) ha h

end

/-- From `r`, a part of a run does not fail for a variable that is not defined. -/
def ReadsDefined (x : Eval (World (Host η)) α) (r : Running (World (Host η))) : Prop :=
  ∀ name t, x r ≠ (.fault (.runtime (.undefinedVariable name)), t)

theorem ReadsDefined.of_lasting {Ok : Running (World (Host η)) → Prop}
    {L S : Running (World (Host η)) → Running (World (Host η)) → Prop} {K : State → State → Prop}
    {x : Eval (World (Host η)) α} {r : Running (World (Host η))}
    (h : Lasting Ok L S K Fault.Bound x r) : ReadsDefined x r :=
  fun name t hx => (h.fault _ t hx).2 name rfl

namespace Setting

variable [Observer η] (s : Setting η) {vm : VmId} {a : Address} {active : List Address}

/-- **Evaluation never fails for a variable that is not defined.**  This holds of all that a machine
runs, from any world of rest: of programs with their imports, and of methods that the host invokes.
It holds of a checked program by itself, although it runs long after the check, among the callbacks of
any host; behind it, the variables of the check are defined.  Callbacks are called in worlds of rest
again, since they may be any others elsewhere, and programs of the host lead from there to worlds of
rest where the variables are still defined. -/
theorem variables_defined (depth : Nat) {r : Running (World (Host η))} (ha : a ∈ active)
    (hw : Steady active (world a r)) (hl : (world a r).LiveAt vm a) :
    let cb := callbacks (s.code.engines s.importDepth depth active).delegates a
    (∀ nesting module source, ReadsDefined (Machine.runModule cb nesting module source) r) ∧
    (∀ signature frame, ReadsDefined (Machine.invoke cb signature frame) r) ∧
    (∀ checked module statements defined, Grows checked r.machine →
      Script.Scope.check (checked.namesIn module) statements = .ok defined → ∀ nesting,
        let program := Machine.execAll cb (Machine.runModule cb nesting) module statements
        ReadsDefined program r ∧
        ∀ t, program r = (.value (), t) → Covers t.machine module defined) ∧
    (∀ cb', Agree (Working vm a active) cb' cb →
      (∀ nesting module source,
        Machine.interpret cb' nesting module source r =
          Machine.interpret cb nesting module source r) ∧
      ∀ handle, Machine.callHandle cb' handle r = Machine.callHandle cb handle r) ∧
    ∀ (α : Type) (p : Program η α) outcome w,
      p.run (s.code.engines s.importDepth depth) active (world a r) = (outcome, w) →
        outcome.isFinal = false →
          Steady active w ∧ w.LiveAt vm a ∧ Grows r.machine (w.machine a) := by
  have k : (Regime.relating vm a Grows : Regime η).Upheld := upheld_grows vm a
  have hserves := serves_engines k s.code.obeys_free s.importDepth depth
  have hok : Working vm a active r := ⟨hw, hl⟩
  intro cb
  have p : Steered (Working vm a active) (Passes active a) (Leaves vm a active fun _ => True) Grows Grows Grows cb :=
    steered_grows (hserves.behaved active) ha
  refine ⟨fun nesting module source => ?_, fun signature frame => ?_,
    fun checked module statements defined hgrows hcheck nesting => ?_, fun cb' hagree => ⟨?_, ?_⟩, ?_⟩
  · exact .of_lasting (Machine.lasting_runModule p nesting module source r hok)
  · exact .of_lasting (Machine.paired_invoke (Machine.paired_bound p) signature frame r hok)
  · have hcovers : Covers r.machine module (checked.namesIn module) :=
      (Machine.covers_namesIn checked module).of_grows hgrows
    have hbring := Machine.lasting_bringModule p (Machine.lasting_runModule p nesting)
    obtain ⟨hrun, hdefined⟩ := Machine.lasting_execAll p hbring hcheck hok hcovers
    exact ⟨.of_lasting hrun, hdefined⟩
  · exact fun nesting module source => Machine.interpret_of_agree p hagree hok nesting module source
  · exact fun handle => Machine.callHandle_of_agree p hagree hok handle
  · intro α program outcome w hrun hend
    obtain ⟨hsteady, hlive, -, hgrows⟩ :=
      hok.of_program trivial ha k.toSustained hserves program.obeys_free hrun hend
    exact ⟨hsteady, hlive, hgrows⟩

/-- The script `var x = null`, with `System.print(x)` in its second line. -/
def printing : List Script.Statement :=
  [⟨.define "x" .null, 1⟩,
    ⟨.evaluate (.call (.variable "System" 2) "print" [.variable "x" 2]), 2⟩]

set_option maxRecDepth 4000 in
theorem execAll_printing :
    let cb := callbacks (tidying.code.engines 1 1 [2]).delegates 2
    (Machine.execAll cb (Machine.runModule cb 1) "main" printing
      ⟨listened.machine 2, listened⟩).1 = .value () := by
  cbv

/-- A checked program reads the variable that it has defined, and garbage is collected meanwhile. -/
theorem variables_defined_printing :
    let r : Running (World (Host Unit)) := ⟨listened.machine 2, listened⟩
    let cb := callbacks (tidying.code.engines 1 1 [2]).delegates 2
    Steady [2] (world 2 r) ∧ (world 2 r).LiveAt 1 2 ∧
      Script.Scope.check (r.machine.namesIn "main") printing = .ok ["x", "System", "Fiber"] ∧
      ∃ t, Machine.execAll cb (Machine.runModule cb 1) "main" printing r = (.value (), t) ∧
        Covers t.machine "main" ["x", "System", "Fiber"] := by
  intro r cb
  obtain ⟨hs, hl⟩ := working_listened
  obtain ⟨-, -, hchecked, -, -⟩ := tidying.variables_defined 1 List.mem_cons_self hs hl
  have hcheck : Script.Scope.check (r.machine.namesIn "main") printing =
      .ok ["x", "System", "Fiber"] := by rfl
  obtain ⟨-, hcovers⟩ := hchecked r.machine "main" printing _ (.refl r.machine) hcheck 1
  have hvalue : Machine.execAll cb (Machine.runModule cb 1) "main" printing r =
      (.value (), (Machine.execAll cb (Machine.runModule cb 1) "main" printing r).2) :=
    Prod.ext execAll_printing rfl
  exact ⟨hs, hl, hcheck, _, hvalue, hcovers _ hvalue⟩

end Setting

end ScriptHost.Bridge
