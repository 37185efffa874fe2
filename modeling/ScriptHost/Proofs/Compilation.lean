import Mathlib
import ScriptHost.Proofs.Pairing
import ScriptHost.Proofs.Signatures

/-!
# Programs that do not compile

A program is refused for its grammar or for its names, and only before it runs: a module that fails to
compile inside of an import makes the import fail with a runtime error (`compiled_execAll`).  So a
refused program has changed nothing but the module table (`Spared`).

It does change the table if its grammar is good and its module is new.  The names are checked once
the module is registered, and nothing takes it out of the table again, so that a later import finds
the module and does not ask for its source (`refused_programs`).
-/

namespace ScriptHost.Machine

open Script

variable {ε α β : Type}

/-! ## Refusals -/

/-- A run with one more module. -/
def Running.withModule (r : Running ε) (module : String) : Running ε :=
  { r with machine := r.machine.addModule module }

/-- How a program is refused, with an error and with the run that is left. -/
inductive Refusal (module source : String) (r : Running ε) : CompileError → Running ε → Prop where
  | grammar {e : CompileError} (h : parse source = .error e) : Refusal module source r e r
  | names {e : CompileError} {statements : List Statement} (h : parse source = .ok statements)
      (hnames : Scope.check ((r.machine.addModule module).namesIn module) statements = .error e) :
      Refusal module source r e (r.withModule module)

/-- A program that is accepted, with the names that are defined behind it. -/
def Accepted (module source : String) (r : Running ε) (statements : List Statement)
    (defined : List String) : Prop :=
  parse source = .ok statements ∧
    Scope.check ((r.machine.addModule module).namesIn module) statements = .ok defined

theorem compile_of_refusal {module source : String} {r s : Running ε} {e : CompileError}
    (h : Refusal module source r e s) : compile module source r = (.fault (.compile e), s) := by
  unfold compile
  cases h with
  | grammar h =>
    rw [h]
    rfl
  | names h hnames =>
    have hadd : (update fun s => s.addModule module : Eval ε Unit) r =
        (.value (), r.withModule module) := rfl
    rw [h]
    refine (Run.bind_of_value hadd _).trans ?_
    rw [machine_bind, show Scope.check ((r.withModule module).machine.namesIn module) _ = _ from hnames]
    rfl

theorem compile_of_accepted {module source : String} {r : Running ε} {statements : List Statement}
    {defined : List String} (h : Accepted module source r statements defined) :
    compile module source r = (.value statements, r.withModule module) := by
  have hadd : (update fun s => s.addModule module : Eval ε Unit) r =
      (.value (), r.withModule module) := rfl
  unfold compile
  rw [h.1]
  refine (Run.bind_of_value hadd _).trans ?_
  rw [machine_bind, show Scope.check ((r.withModule module).machine.namesIn module) _ = _ from h.2]
  rfl

theorem compile_cases (module source : String) (r : Running ε) :
    (∃ e t, Refusal module source r e t ∧ compile module source r = (.fault (.compile e), t)) ∨
      ∃ statements defined, Accepted module source r statements defined ∧
        compile module source r = (.value statements, r.withModule module) := by
  cases hparse : parse source with
  | error e => exact Or.inl ⟨e, r, .grammar hparse, compile_of_refusal (.grammar hparse)⟩
  | ok statements =>
    cases hcheck : Scope.check ((r.machine.addModule module).namesIn module) statements with
    | error e =>
      have href : Refusal module source r e (r.withModule module) := .names hparse hcheck
      exact Or.inl ⟨e, _, href, compile_of_refusal href⟩
    | ok defined =>
      have haccepted : Accepted module source r statements defined := ⟨hparse, hcheck⟩
      exact Or.inr ⟨statements, defined, haccepted, compile_of_accepted haccepted⟩

/-! ## Compile errors of a running program -/

/-- A computation that never ends with a compile error. -/
def Compiled (x : Eval ε α) : Prop := ∀ r e t, x r ≠ (.fault (.compile e), t)

theorem compiled_bind {x : Eval ε α} {f : α → Eval ε β} (hx : Compiled x)
    (hf : ∀ a, Compiled (f a)) : Compiled (x >>= f) := by
  intro r e t hrun
  rcases hxr : x r with ⟨a | e' | w, s⟩
  · rw [Run.bind_of_value hxr] at hrun
    exact hf a s e t hrun
  · rw [Run.bind_of_fault hxr] at hrun
    cases hrun
    exact hx r e _ hxr
  · rw [Run.bind_of_halt hxr] at hrun
    exact absurd (congrArg Prod.fst hrun) (by simp)

theorem compiled_raise (e : RuntimeError) : Compiled (raise e : Eval ε α) := by
  intro r e' t hrun
  exact absurd (congrArg Prod.fst hrun) (by simp [raise, Run.fault])

theorem compiled_pure (a : α) : Compiled (pure a : Eval ε α) := by
  intro r e t hrun
  exact absurd (congrArg Prod.fst hrun) (by simp [Pure.pure, Run.pure])

theorem compiled_update (f : State → State) : Compiled (update f : Eval ε Unit) := by
  intro r e t hrun
  exact absurd (congrArg Prod.fst hrun) (by simp [update, Run.modify])

theorem compiled_machine : Compiled (machine : Eval ε State) := by
  intro r e t hrun
  exact absurd (congrArg Prod.fst hrun) (by simp [machine, Run.gets])

theorem compiled_widen (x : Call ε α) : Compiled (x.widen : Eval ε α) := by
  intro r e t hrun
  rw [Run.widen] at hrun
  split at hrun
  · exact absurd (congrArg Prod.fst hrun) (by simp)
  · exact absurd (congrArg Prod.fst hrun) (by simp)

theorem compiled_withPins {x : Eval ε α} (hx : Compiled x) : Compiled (withPins x) := by
  refine compiled_bind compiled_machine fun s r e t hrun => ?_
  rw [Run.andFinally] at hrun
  split at hrun
  · exact absurd (congrArg Prod.fst hrun) (by simp)
  · next e' s hxr =>
    cases congrArg Prod.fst hrun
    exact hx r e s hxr
  · exact absurd (congrArg Prod.fst hrun) (by simp)

theorem compiled_callForeign (function : Call ε Unit) (frame : List Value) :
    Compiled (callForeign function frame) := by
  refine compiled_bind (compiled_update _) fun _ => compiled_bind (compiled_widen _) fun _ => ?_
  refine compiled_bind compiled_machine fun s => compiled_bind (compiled_update _) fun _ => ?_
  split
  · exact compiled_pure _
  · exact compiled_pure _
  · exact compiled_raise _

theorem compiled_resolveModule (cb : Callbacks ε) (importer name : String) :
    Compiled (resolveModule cb importer name) := by
  unfold resolveModule
  split
  · exact compiled_pure _
  · refine compiled_bind (compiled_widen _) fun resolved => ?_
    split
    · exact compiled_pure _
    · exact compiled_raise _

theorem compiled_recover (x : Eval ε Unit) {refused : CompileError → Eval ε Unit}
    (h : ∀ e, Compiled (refused e)) : Compiled (recover x refused) := by
  have hattempt : Compiled (x.attempt : Eval ε (Except Fault Unit)) :=
    fun r e t => Run.attempt_ne_fault x r t (Fault.compile e)
  refine compiled_bind hattempt fun result => ?_
  split
  · exact compiled_pure _
  · exact h _
  · next e hne =>
    intro r e' t hrun
    cases congrArg Prod.fst hrun
    exact hne e' rfl

/-- A running program reports no compile errors: not those of modules that it imports. -/
theorem paired_compiled (cb : Callbacks ε) :
    Paired (fun _ x _ => Compiled x) (fun _ x _ => Compiled x) (fun _ _ => True) cb cb where
  pure := compiled_pure
  raise e _ := compiled_raise e
  bind := compiled_bind
  machine := compiled_machine
  own _ := compiled_update _
  declared _ _ _ := compiled_update _
  reading module name _ := by
    refine compiled_bind compiled_machine fun s => ?_
    split
    · exact compiled_pure _
    · exact compiled_raise _
  pinning h := h
  bindPinning := compiled_bind
  pin _ := compiled_update _
  withPins := compiled_withPins
  write _ := compiled_widen _
  resolve := compiled_resolveModule cb
  load _ := compiled_widen _
  bindClass _ _ := compiled_widen _
  bindMethod _ := compiled_widen _
  execute _ := compiled_callForeign _
  allocate _ := compiled_callForeign _

/-- **A program that runs does not end with a compile error**, whatever it imports. -/
theorem compiled_execAll (cb : Callbacks ε) (run : String → String → Eval ε Unit) (module : String)
    (statements : List Statement) : Compiled (execAll cb run module statements) := by
  have hbring : ∀ module, Compiled (bringModule cb run module) := fun module =>
    compiled_bind (paired_loadModule (paired_compiled cb).assembled module) fun source =>
      compiled_recover _ fun e => compiled_bind (compiled_widen _) fun _ => compiled_raise _
  exact @paired_execAll ε ε _ _ _ cb cb (paired_compiled cb).assembled run run hbring module statements
    fun _ _ _ _ => trivial

/-- A program that ends with a compile error was refused before it ran. -/
theorem refusal_of_runModule {cb : Callbacks ε} : ∀ {depth : Nat} {module source : String}
    {r t : Running ε} {e : CompileError},
    runModule cb depth module source r = (.fault (.compile e), t) → Refusal module source r e t
  | 0, _, _, _, _, _, h => absurd (congrArg Prod.fst h) (by simp [runModule, Run.halt])
  | depth + 1, module, source, r, t, e, h => by
    rw [runModule] at h
    rcases compile_cases module source r with ⟨e', s, href, hrun⟩ | ⟨statements, defined, -, hrun⟩
    · rw [Run.bind_of_fault hrun] at h
      cases h
      exact href
    · rw [Run.bind_of_value hrun] at h
      exact absurd h (compiled_execAll cb _ module statements _ e t)

/-! ## What a refused program leaves behind -/

/-- What a refused program leaves alone: everything but the module table, and of that all variables.
Its module is there behind it if it was, or if the grammar was good. -/
structure Spared (module source : String) (r s : Running ε) : Prop where
  host : s.host = r.host
  machine : s.machine = { r.machine with modules := s.machine.modules }
  lookups : ∀ module' name, s.machine.global? module' name = r.machine.global? module' name
  modules : ∀ module', s.machine.hasModule module' = true ↔
    r.machine.hasModule module' = true ∨
      module' = module ∧ ∃ statements, parse source = .ok statements

theorem State.addModule_eq (s : State) (module : String) :
    s.addModule module = { s with modules := (s.addModule module).modules } := by
  unfold State.addModule
  split <;> rfl

theorem Refusal.spared {module source : String} {r s : Running ε} {e : CompileError}
    (h : Refusal module source r e s) : Spared module source r s := by
  cases h with
  | grammar h =>
    refine ⟨rfl, rfl, fun _ _ => rfl, fun module' => ⟨Or.inl, fun hmodule => ?_⟩⟩
    refine hmodule.elim id fun hgood => ?_
    obtain ⟨-, statements, hok⟩ := hgood
    exact absurd (h.symm.trans hok) (by simp)
  | names h hnames =>
    refine ⟨rfl, r.machine.addModule_eq module, fun module' name => ?_, fun module' => ?_⟩
    · exact r.machine.global?_addModule module module' name
    · refine (r.machine.hasModule_addModule module module').trans (or_congr_right ?_)
      exact ⟨fun heq => ⟨heq, _, h⟩, And.left⟩

/-- The module table stays as it is only if the grammar is bad or the module was there. -/
theorem Spared.modules_eq_iff {module source : String} {r s : Running ε}
    (h : Spared module source r s) :
    (∀ module', s.machine.hasModule module' = r.machine.hasModule module') ↔
      r.machine.hasModule module = true ∨ ∃ e, parse source = .error e := by
  constructor
  · intro hsame
    cases hparse : parse source with
    | error e => exact Or.inr ⟨e, rfl⟩
    | ok statements =>
      rw [← hsame module]
      exact Or.inl ((h.modules module).2 (Or.inr ⟨rfl, statements, hparse⟩))
  · intro hspared module'
    refine Bool.eq_iff_iff.2 ((h.modules module').trans ⟨fun hor => ?_, Or.inl⟩)
    rcases hor with hthere | ⟨rfl, statements, hok⟩
    · exact hthere
    · exact hspared.resolve_right fun ⟨e, hbad⟩ => absurd (hbad.symm.trans hok) (by simp)

theorem interpret_of_value {cb : Callbacks ε} {depth : Nat} {module source : String}
    {r t : Running ε} (h : interpret cb depth module source r = (.value .compileError, t)) :
    ∃ e s, Refusal module source r e s ∧ reportCompile cb module e s = (.value (), t) := by
  unfold interpret at h
  obtain ⟨result, s, hattempt, h⟩ := Run.value_of_bind h
  rcases hrun : runModule cb depth module source r with ⟨_ | (e | e) | w, s'⟩
  · cases (Run.attempt_of_value hrun).symm.trans hattempt
    exact absurd (congrArg Prod.fst h) (by simp [Pure.pure, Run.pure])
  · cases (Run.attempt_of_fault hrun).symm.trans hattempt
    obtain ⟨_, u, hreport, h⟩ := Run.value_of_bind h
    cases h
    exact ⟨e, s, refusal_of_runModule hrun, hreport⟩
  · cases (Run.attempt_of_fault hrun).symm.trans hattempt
    obtain ⟨_, u, -, h⟩ := Run.value_of_bind h
    exact absurd (congrArg Prod.fst h) (by simp [Pure.pure, Run.pure])
  · rw [Run.attempt, hrun] at hattempt
    exact absurd (congrArg Prod.fst hattempt) (by simp)

theorem interpret_of_refusal {cb : Callbacks ε} {depth : Nat} {module source : String}
    {r s t : Running ε} {e : CompileError} (h : Refusal module source r e s)
    (hreport : reportCompile cb module e s = (.value (), t)) :
    interpret cb (depth + 1) module source r = (.value .compileError, t) := by
  have hrun : runModule cb (depth + 1) module source r = (.fault (.compile e), s) := by
    rw [runModule]
    exact Run.bind_of_fault (compile_of_refusal h) _
  unfold interpret
  rw [Run.bind_of_value (Run.attempt_of_fault hrun)]
  exact Run.bind_of_value hreport _

theorem bringModule_of_refused {cb : Callbacks ε} {run : String → String → Eval ε Unit}
    {module source : String} {u v w : Running ε} {e : CompileError}
    (hload : loadModule cb module u = (.value source, v))
    (hrun : run module source v = (.fault (.compile e), w)) :
    bringModule cb run module u = refuseModule cb module e w := by
  unfold bringModule recover
  rw [Run.bind_of_value hload, Run.bind_of_value (Run.attempt_of_fault hrun)]

/-- **A program that does not compile changes nothing, but that its module is registered if the
grammar was good.**  This is how a run of such a program by the host leaves things before the report,
and how the import of such a module does.  A module that is registered is not asked for again: any
later import goes on to take its variables. -/
theorem refused_programs (cb : Callbacks ε) (depth : Nat) :
    (∀ module source r t, interpret cb depth module source r = (.value .compileError, t) →
      ∃ e s, reportCompile cb module e s = (.value (), t) ∧ Spared module source r s ∧
        ((∀ module', s.machine.hasModule module' = r.machine.hasModule module') ↔
          r.machine.hasModule module = true ∨ ∃ e, parse source = .error e)) ∧
    (∀ module source u v w e, loadModule cb module u = (.value source, v) →
      runModule cb depth module source v = (.fault (.compile e), w) →
        bringModule cb (runModule cb depth) module u = refuseModule cb module e w ∧
        Spared module source v w) ∧
    ∀ importer name names module r u, resolveModule cb importer name r = (.value module, u) →
      importModule cb (runModule cb depth) importer name names r =
        if u.machine.hasModule module then importNames importer module names u
        else (bringModule cb (runModule cb depth) module >>= fun _ =>
          importNames importer module names) u := by
  refine ⟨fun module source r t h => ?_, fun module source u v w e hload hrun => ?_,
    fun importer name names module r u hresolve => ?_⟩
  · obtain ⟨e, s, hrefusal, hreport⟩ := interpret_of_value h
    exact ⟨e, s, hreport, hrefusal.spared, hrefusal.spared.modules_eq_iff⟩
  · exact ⟨bringModule_of_refused hload hrun, (refusal_of_runModule hrun).spared⟩
  · rw [importModule_eq, Run.bind_of_value hresolve, machine_bind]
    cases u.machine.hasModule module <;> rfl

/-- The program reads a variable that is not defined.  It is refused, and its module is there. -/
theorem refused_programs_undefined :
    let r : Running Unit := ⟨State.create 0, ()⟩
    ∃ t, interpret mirror 1 "main" "x" r = (.value .compileError, t) ∧
      r.machine.hasModule "main" = false ∧ t.machine.hasModule "main" = true := by
  intro r
  have hparse : parse "x" = .ok [⟨.evaluate (.variable "x" 1), 1⟩] := by cbv
  have hrefusal : Refusal "main" "x" r (Scope.undefined "x" 1) (r.withModule "main") :=
    .names hparse rfl
  have hrun : interpret mirror 1 "main" "x" r = (.value .compileError, r.withModule "main") :=
    interpret_of_refusal hrefusal rfl
  obtain ⟨e, s, hreport, hspared, -⟩ := (refused_programs mirror 1).1 "main" "x" r _ hrun
  obtain rfl : s = r.withModule "main" := congrArg Prod.snd hreport
  refine ⟨_, hrun, rfl, ?_⟩
  exact (hspared.modules "main").2 (Or.inr ⟨rfl, _, hparse⟩)

end ScriptHost.Machine
