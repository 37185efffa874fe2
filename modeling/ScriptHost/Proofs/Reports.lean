import ScriptHost.Proofs.Failures
import ScriptHost.Proofs.Imports

/-!
# Reports that account for the outcome

A run reports a fault where the host has started it, at its end, and a module that does not compile
where it is imported, in the middle.  From there the fault travels on as a runtime error, through all
imports and calls around, and is not reported again before it arrives at the host.  So the reports of a
run tell its result, and the other way round (`Accounts`).

To say what a run reports, runs are repeated with a record of their reports (`Informed`).  They do the
same, and each part of a run has a list of reports, whatever was on record before (`Informs`).  Nothing
is on record behind a part that comes back, nor behind one whose program is refused; behind a runtime
error there may be the report of an import (`Early`).
-/

namespace ScriptHost.Machine

open Script

variable {ε φ ψ α β : Type}

/-! ## Runs on record -/

/-- A host with a record of the diagnostics that were reported to it, oldest first. -/
structure Informed (ε : Type) where
  host : ε
  reports : List Diagnostic

/-- A run with a record. -/
def Running.informed (r : Running ε) (reports : List Diagnostic) : Running (Informed ε) :=
  ⟨r.machine, ⟨r.host, reports⟩⟩

/-- A call of the host that puts `late` on record. -/
def informing (x : Call ε α) (late : List Diagnostic) : Call (Informed ε) α := fun r =>
  ((x ⟨r.machine, r.host.host⟩).1,
    (x ⟨r.machine, r.host.host⟩).2.informed (r.host.reports ++ late))

/-- The calls of a host, with reports put on record. -/
def Callbacks.informed (cb : Callbacks ε) : Callbacks (Informed ε) where
  write text := informing (cb.write text) []
  report diagnostic := informing (cb.report diagnostic) [diagnostic]
  resolve? := cb.resolve?.map fun f importer name => informing (f importer name) []
  load name := informing (cb.load name) []
  bindClass module className := informing (cb.bindClass module className) []
  bindMethod name := informing (cb.bindMethod name) []
  execute key := informing (cb.execute key) []
  allocate key := informing (cb.allocate key) []
  finalize block key := informing (cb.finalize block key) []

/-- From `r`, work with a record does what it does without one, and what it adds to the record goes
with its outcome as `R` says. -/
def Informs (R : Outcome φ α → List Diagnostic → Prop) (x : Run (Running ε) φ α)
    (y : Run (Running (Informed ε)) φ α) (r : Running ε) : Prop :=
  ∃ late, (∀ earlier, y (r.informed earlier) = ((x r).1, (x r).2.informed (earlier ++ late))) ∧
    R (x r).1 late

section

variable {P : Outcome φ α → List Diagnostic → Prop} {R : Outcome ψ β → List Diagnostic → Prop}
  {x : Run (Running ε) φ α} {y : Run (Running (Informed ε)) φ α} {r : Running ε}

/-- Work that reports nothing. -/
theorem Informs.of_quiet (h : ∀ earlier, y (r.informed earlier) = ((x r).1, (x r).2.informed earlier))
    (hP : P (x r).1 []) : Informs P x y r := by
  refine ⟨[], fun earlier => ?_, hP⟩
  rw [h earlier, List.append_nil]

theorem informs_informing (x : Call ε α) (late : List Diagnostic) :
    Informs (fun _ late' => late' = late) x (informing x late) r :=
  ⟨late, fun _ => rfl, rfl⟩

theorem Informs.mono {P' : Outcome φ α → List Diagnostic → Prop} (h : Informs P x y r)
    (hP : ∀ late, P (x r).1 late → P' (x r).1 late) : Informs P' x y r := by
  obtain ⟨late, hy, hlate⟩ := h
  exact ⟨late, hy, hP late hlate⟩

theorem Informs.congr {x' : Run (Running ε) φ α} {y' : Run (Running (Informed ε)) φ α} {r' : Running ε}
    (h : Informs P x' y' r') (hx : x r = x' r')
    (hy : ∀ earlier, y (r.informed earlier) = y' (r'.informed earlier)) : Informs P x y r := by
  obtain ⟨late, hrun, hlate⟩ := h
  refine ⟨late, fun earlier => ?_, ?_⟩
  · rw [hy, hrun, hx]
  · rwa [hx]

/-- Work goes on behind an attempt, and so does the record. -/
theorem Informs.attempt_bind {f : Except φ α → Run (Running ε) ψ β}
    {g : Except φ α → Run (Running (Informed ε)) ψ β} (h : Informs P x y r)
    (hvalue : ∀ a t late, x r = (.value a, t) → P (.value a) late →
      Informs (fun o late' => R o (late ++ late')) (f (.ok a)) (g (.ok a)) t)
    (hfault : ∀ e t late, x r = (.fault e, t) → P (.fault e) late →
      Informs (fun o late' => R o (late ++ late')) (f (.error e)) (g (.error e)) t)
    (hhalt : ∀ w late, R (.halt w) late) :
    Informs R (x.attempt >>= f) (y.attempt >>= g) r := by
  obtain ⟨late, hy, hP⟩ := h
  rcases hx : x r with ⟨a | e | w, t⟩
  · rw [hx] at hy hP
    obtain ⟨late', hk, hR⟩ := hvalue a t late hx hP
    refine ⟨late ++ late', fun earlier => ?_, ?_⟩
    · rw [Run.bind_of_value (Run.attempt_of_value (hy earlier)), hk,
        Run.bind_of_value (Run.attempt_of_value hx), List.append_assoc]
    · rwa [Run.bind_of_value (Run.attempt_of_value hx)]
  · rw [hx] at hy hP
    obtain ⟨late', hk, hR⟩ := hfault e t late hx hP
    refine ⟨late ++ late', fun earlier => ?_, ?_⟩
    · rw [Run.bind_of_value (Run.attempt_of_fault (hy earlier)), hk,
        Run.bind_of_value (Run.attempt_of_fault hx), List.append_assoc]
    · rwa [Run.bind_of_value (Run.attempt_of_fault hx)]
  · rw [hx] at hy
    have hattempt : (x.attempt : Run (Running ε) ψ (Except φ α)) r = (.halt w, t) := by
      rw [Run.attempt, hx]
    refine ⟨late, fun earlier => ?_, ?_⟩
    · have hattempt' : (y.attempt : Run (Running (Informed ε)) ψ (Except φ α))
          (r.informed earlier) = (.halt w, t.informed (earlier ++ late)) := by
        rw [Run.attempt, hy]
      rw [Run.bind_of_halt hattempt', Run.bind_of_halt hattempt]
    · rw [Run.bind_of_halt hattempt]
      exact hhalt w late

/-- Work goes on behind other work, and so does the record. -/
theorem Informs.bind {R : Outcome φ β → List Diagnostic → Prop} {f : α → Run (Running ε) φ β}
    {g : α → Run (Running (Informed ε)) φ β} (h : Informs P x y r)
    (hf : ∀ a t late, x r = (.value a, t) → P (.value a) late →
      Informs (fun o late' => R o (late ++ late')) (f a) (g a) t)
    (hfault : ∀ e late, P (.fault e) late → R (.fault e) late)
    (hhalt : ∀ w late, R (.halt w) late) : Informs R (x >>= f) (y >>= g) r := by
  obtain ⟨late, hy, hP⟩ := h
  rcases hx : x r with ⟨a | e | w, t⟩
  · rw [hx] at hy hP
    obtain ⟨late', hg, hR⟩ := hf a t late hx hP
    refine ⟨late ++ late', fun earlier => ?_, ?_⟩
    · rw [Run.bind_of_value (hy earlier), hg, Run.bind_of_value hx, List.append_assoc]
    · rwa [Run.bind_of_value hx]
  · rw [hx] at hy hP
    refine ⟨late, fun earlier => ?_, ?_⟩
    · rw [Run.bind_of_fault (hy earlier), Run.bind_of_fault hx]
    · rw [Run.bind_of_fault hx]
      exact hfault e late hP
  · rw [hx] at hy
    refine ⟨late, fun earlier => ?_, ?_⟩
    · rw [Run.bind_of_halt (hy earlier), Run.bind_of_halt hx]
    · rw [Run.bind_of_halt hx]
      exact hhalt w late

end

/-! ## Reports in the middle of a run -/

/-- What is on record behind a part of a run: at most the report of an import, behind a runtime
error. -/
def Early (broken : Diagnostic → Prop) : Outcome Fault α → List Diagnostic → Prop
  | .value _, late => late = []
  | .fault (.compile _), late => late = []
  | .fault (.runtime _), late => late = [] ∨ ∃ d, broken d ∧ late = [d]
  | .halt _, _ => True

theorem early_nil (broken : Diagnostic → Prop) : ∀ o : Outcome Fault α, Early broken o []
  | .value _ => rfl
  | .fault (.compile _) => rfl
  | .fault (.runtime _) => Or.inl rfl
  | .halt _ => trivial

/-- A runtime error is one of the whole. -/
theorem Early.fault {broken : Diagnostic → Prop} {e : Fault} {late : List Diagnostic}
    (h : Early broken (.fault e : Outcome Fault α) late) :
    Early broken (.fault e : Outcome Fault β) late := by
  cases e with
  | compile | runtime => exact h

theorem Informs.bind_early {broken : Diagnostic → Prop} {x : Eval ε α} {y : Eval (Informed ε) α}
    {f : α → Eval ε β} {g : α → Eval (Informed ε) β} {r : Running ε}
    (h : Informs (Early broken) x y r)
    (hf : ∀ a t, x r = (.value a, t) → Informs (Early broken) (f a) (g a) t) :
    Informs (Early broken) (x >>= f) (y >>= g) r := by
  refine h.bind (fun a t late hx hlate => ?_) (fun e late => Early.fault) fun w late => trivial
  obtain rfl : late = [] := hlate
  exact hf a t hx

/-- A part of the run of a machine in which a module is registered. -/
structure Recorded (Ok : Running ε → Prop) (L S : Running ε → Running ε → Prop)
    (broken : Diagnostic → Prop) (x : Eval ε α) (y : Eval (Informed ε) α) (r : Running ε) :
    Prop where
  lasting : Lasting Ok L S Adds (fun _ => True) x r
  informs : Informs (Early broken) x y r

section

variable {Ok : Running ε → Prop} {L S : Running ε → Running ε → Prop} {cb : Callbacks ε}
  {broken : Diagnostic → Prop} {module : String} {r : Running ε}

theorem Recorded.bind (span : Route Ok L S) {x : Eval ε α} {y : Eval (Informed ε) α} {f : α → Eval ε β}
    {g : α → Eval (Informed ε) β} (h : Recorded Ok L S broken x y r)
    (hf : ∀ a t, x r = (.value a, t) → Ok t → Adds r.machine t.machine →
      Recorded Ok L S broken (f a) (g a) t) : Recorded Ok L S broken (x >>= f) (y >>= g) r := by
  refine ⟨lasting_bind span (fun _ _ _ => .trans) h.lasting fun a t hx hok => ?_,
    h.informs.bind_early fun a t hx => ?_⟩
  · exact (hf a t hx hok (h.lasting.value a t hx).2.2).lasting
  · obtain ⟨-, hok, hadds⟩ := h.lasting.value a t hx
    exact (hf a t hx hok hadds).informs

theorem informs_pins {x : Eval ε α} {y : Eval (Informed ε) α}
    (h : Informs (Early broken) x y r) : Informs (Early broken) (withPins x) (withPins y) r := by
  obtain ⟨late, hy, hlate⟩ := h
  have hrun {δ : Type} (z : Eval δ α) (u : Running δ) : withPins z u = z.andFinally
      (fun t => { t with machine := t.machine.unpinTo u.machine.pins.length }) u := rfl
  have hx := hrun x r
  refine ⟨late, fun earlier => ?_, ?_⟩
  · rw [hrun y, hx, Run.andFinally, Run.andFinally, hy]
    rcases x r with ⟨a | e | w, t⟩ <;> rfl
  · rw [hx, Run.andFinally]
    rcases hxr : x r with ⟨a | e | w, t⟩ <;> rwa [hxr] at hlate

theorem informs_widen (x : Call ε α) (late : List Diagnostic) :
    Informs (fun o late' => late' = late ∧ ∀ e, o ≠ .fault e) (x.widen : Run (Running ε) φ α)
      (informing x late).widen r := by
  have hx' : ∀ earlier, x ⟨(r.informed earlier).machine, (r.informed earlier).host.host⟩ = x r :=
    fun _ => rfl
  refine ⟨late, fun earlier => ?_, rfl, ?_⟩
  · rw [Run.widen, Run.widen, informing, hx']
    rcases x r with ⟨a | e | w, t⟩
    · rfl
    · exact e.elim
    · rfl
  · rw [Run.widen]
    rcases x r with ⟨a | e | w, t⟩
    · simp
    · exact e.elim
    · simp

theorem informs_host (x : Call ε α) :
    Informs (Early broken) (x.widen : Eval ε α) (informing x []).widen r := by
  refine (informs_widen x []).mono fun late hlate => ?_
  rw [hlate.1]
  exact early_nil broken _

theorem informs_update (f : State → State) :
    Informs (Early broken) (update f : Eval ε Unit) (update f) r :=
  .of_quiet (fun _ => rfl) rfl

theorem informs_machine : Informs (Early broken) (machine : Eval ε State) machine r :=
  .of_quiet (fun _ => rfl) rfl

theorem informs_callForeign (function : Call ε Unit) (frame : List Value) :
    Informs (Early broken) (callForeign function frame) (callForeign (informing function []) frame)
      r := by
  unfold callForeign
  refine (informs_update _).bind_early fun _ t _ => ?_
  refine (informs_host function).bind_early fun _ t _ => ?_
  refine informs_machine.bind_early fun s t _ => ?_
  refine (informs_update _).bind_early fun _ t _ => ?_
  split <;> exact .of_quiet (fun _ => rfl) (early_nil broken _)

theorem informs_resolveModule (importer name : String) :
    Informs (Early broken) (resolveModule cb importer name)
      (resolveModule cb.informed importer name) r := by
  unfold resolveModule
  have hinformed : cb.informed.resolve? =
      cb.resolve?.map fun f importer name => informing (f importer name) [] := rfl
  rw [hinformed]
  cases cb.resolve? with
  | none => exact .of_quiet (fun _ => rfl) (early_nil broken _)
  | some f =>
    refine (informs_host _).bind_early fun resolved t _ => ?_
    split <;> exact .of_quiet (fun _ => rfl) (early_nil broken _)

/-- Such parts, wherever `P` holds. -/
def Records (Ok : Running ε → Prop) (L S : Running ε → Running ε → Prop)
    (broken : Diagnostic → Prop) (P : State → Prop) ⦃α : Type⦄ (x : Eval ε α)
    (y : Eval (Informed ε) α) : Prop :=
  ∀ r, Ok r → P r.machine → Recorded Ok L S broken x y r

variable (p : Steered Ok L S Adds Adds Adds cb) {P : State → Prop}
  (hP : ∀ {s t}, Adds s t → P s → P t)
include p hP

theorem records_bind {x : Eval ε α} {y : Eval (Informed ε) α} {f : α → Eval ε β}
    {g : α → Eval (Informed ε) β} (h : Records Ok L S broken P x y)
    (hf : ∀ a, Records Ok L S broken P (f a) (g a)) :
    Records Ok L S broken P (x >>= f) (y >>= g) := fun r hok hr =>
  (h r hok hr).bind p.span fun a t _ hok hadds => hf a t hok (hP hadds hr)

variable (broken) in
/-- **The pieces of an evaluation report nothing.** -/
theorem paired_records : Paired (Records Ok L S broken P) (Records Ok L S broken P)
    (fun _ _ => True) cb cb.informed := by
  have l := pairedRuns_lasting p
  have hquiet : ∀ {δ : Type} (o : Outcome Fault δ), Early broken o [] := early_nil broken
  exact
    { pure := fun a r hok _ => ⟨l.pure a r hok, .of_quiet (fun _ => rfl) (hquiet _)⟩
      raise := fun e he r hok _ => ⟨l.raise e he r hok, .of_quiet (fun _ => rfl) (hquiet _)⟩
      bind := records_bind p hP
      machine := fun r hok _ => ⟨l.machine r hok, informs_machine⟩
      own := fun hf r hok _ => ⟨l.own hf r hok, informs_update _⟩
      declared := fun module name c r hok _ => ⟨l.declared module name c r hok, informs_update _⟩
      reading := fun module name h r hok _ => by
        refine ⟨l.reading module name h r hok, informs_machine.bind_early fun s t _ => ?_⟩
        split <;> exact .of_quiet (fun _ => rfl) (hquiet _)
      pinning := fun h => h
      bindPinning := records_bind p hP
      pin := fun values r hok _ => ⟨l.pin values r hok, informs_update _⟩
      withPins := fun h r hok hr =>
        ⟨lasting_withPins p (h r hok hr).lasting, informs_pins (h r hok hr).informs⟩
      write := fun text r hok _ => ⟨l.write text r hok, informs_host _⟩
      resolve := fun importer name r hok _ =>
        ⟨l.resolve importer name r hok, informs_resolveModule importer name⟩
      load := fun name r hok _ => ⟨l.load name r hok, informs_host _⟩
      bindClass := fun module className r hok _ =>
        ⟨l.bindClass module className r hok, informs_host _⟩
      bindMethod := fun name r hok _ => ⟨l.bindMethod name r hok, informs_host _⟩
      execute := fun key frame r hok _ => ⟨l.execute key frame r hok, informs_callForeign _ frame⟩
      allocate := fun key frame r hok _ => ⟨l.allocate key frame r hok, informs_callForeign _ frame⟩ }

end

/-! ## Imports of broken modules -/

/-- The report of a module that does not compile. -/
def compileReport (module : String) (e : CompileError) : Diagnostic :=
  ⟨.compile, some module, e.line, Text.strip e.message⟩

/-- The report of the place where an error was raised. -/
def traceReport (location : Location) : Diagnostic :=
  ⟨.stackTrace, some (Text.strip location.module), location.line, "(script)"⟩

/-- The report of an imported module that does not compile, in a run of `module`. -/
inductive Broken (cb : Callbacks ε) (module : String) : Diagnostic → Prop where
  | intro {importer name found source : String} {r s t u v : Running ε} {e : CompileError}
      (hresolve : resolveModule cb importer name r = (.value found, s)) (hne : found ≠ module)
      (hload : loadModule cb found t = (.value source, u)) (hrefusal : Refusal found source u e v) :
      Broken cb module (compileReport found e)

/-- The report of a program that does not compile, in the module in which it was to run. -/
def Refused (module source : String) (r : Running ε) (d : Diagnostic) : Prop :=
  ∃ e t, Refusal module source r e t ∧ d = compileReport module e

section

variable {Ok : Running ε → Prop} {L S : Running ε → Running ε → Prop} {cb : Callbacks ε}
  {module : String} {r : Running ε}

theorem informs_compile (module source : String) (broken : Diagnostic → Prop) :
    Informs (Early broken) (compile module source : Eval ε (List Statement))
      (compile module source) r := by
  unfold compile
  split
  · exact .of_quiet (fun _ => rfl) (early_nil broken _)
  · refine (informs_update _).bind_early fun _ t _ => informs_machine.bind_early fun s u _ => ?_
    split <;> exact .of_quiet (fun _ => rfl) (early_nil broken _)

theorem reportCompile_eq {found : String} (hstrip : Text.strip found = found) (e : CompileError) :
    reportCompile cb found e = cb.report (compileReport found e) := by
  rw [reportCompile, hstrip]
  rfl

variable (p : Steered Ok L S Adds Adds Adds cb)
include p

/-- **A module that does not compile is reported when it is brought**, and the error that travels on
is not one of compilation. -/
theorem recorded_bringModule {run : String → String → Eval ε Unit}
    {run' : String → String → Eval (Informed ε) Unit} {importer name found : String}
    {r₀ s : Running ε} (hresolve : resolveModule cb importer name r₀ = (.value found, s))
    (hstrip : Text.strip found = found) (hne : found ≠ module)
    (hrun : ∀ source, Records Ok L S (Broken cb module) (fun s => s.hasModule module = true)
      (run found source) (run' found source))
    (hrefusal : ∀ source r e t, run found source r = (.fault (.compile e), t) →
      Refusal found source r e t) :
    Records Ok L S (Broken cb module) (fun s => s.hasModule module = true)
      (bringModule cb run found) (bringModule cb.informed run' found) := by
  have hP : ∀ {s t : State}, Adds s t → s.hasModule module = true → t.hasModule module = true :=
    fun h => h module
  have q := paired_records (Broken cb module) p hP
  have l := pairedRuns_lasting p
  intro r hok hthere
  refine (paired_loadModule q.assembled found r hok hthere).bind p.span fun source t ht hok hadds => ?_
  obtain ⟨hlasting, hinforms⟩ := hrun source t hok (hP hadds hthere)
  refine ⟨lasting_recover p hlasting fun e u hok => ?_, hinforms.attempt_bind ?_ ?_ fun _ _ => trivial⟩
  · exact lasting_bind p.span p.balanced.trans (l.report _ u hok) fun _ v _ hok =>
      l.raise (.brokenModule found) (fun _ => by simp) v hok
  · intro _ u late _ hlate
    obtain rfl : late = [] := hlate
    exact .of_quiet (fun _ => rfl) rfl
  · intro e u late hu hlate
    cases e with
    | runtime e => exact .of_quiet (fun _ => rfl) (by rwa [List.append_nil])
    | compile e =>
      obtain rfl : late = [] := hlate
      have hbroken : Broken cb module (compileReport found e) :=
        .intro hresolve hne ht (hrefusal source t e u hu)
      have hreport : Informs (fun o late => late = [compileReport found e] ∧ ∀ e, o ≠ .fault e)
          ((reportCompile cb found e).widen : Eval ε Unit) (reportCompile cb.informed found e).widen
          u := by
        rw [reportCompile_eq hstrip, reportCompile_eq hstrip]
        exact informs_widen _ _
      refine hreport.bind (fun _ v late _ hlate => ?_) (fun e _ hlate => absurd rfl (hlate.2 e))
        fun _ _ => trivial
      refine .of_quiet (fun _ => rfl) (Or.inr ⟨_, hbroken, ?_⟩)
      rw [hlate.1, List.append_nil, List.nil_append]

/-! ## Runs of programs -/

/-- **What an import reports is that it does not find a program to run.** -/
theorem records_importWith {run : String → String → Eval ε Unit}
    {run' : String → String → Eval (Informed ε) Unit} (hres : ∃ f, cb.resolve? = some f)
    (hrun : ∀ found source, Records Ok L S (Broken cb module) (fun s => s.hasModule module = true)
      (run found source) (run' found source))
    (hrefusal : ∀ found source r e t, run found source r = (.fault (.compile e), t) →
      Refusal found source r e t) (importer name : String) (names : List String) :
    Records Ok L S (Broken cb module) (fun s => s.hasModule module = true)
      (importWith cb (bringModule cb run) importer name names)
      (importWith cb.informed (bringModule cb.informed run') importer name names) := by
  have hP : ∀ {s t : State}, Adds s t → s.hasModule module = true → t.hasModule module = true :=
    fun h => h module
  have q := (paired_records (Broken cb module) p hP).assembled
  obtain ⟨f, hf⟩ := hres
  intro r hok hthere
  refine (q.resolve importer name r hok hthere).bind p.span fun found t ht hok hadds => ?_
  have hthere' := hP hadds hthere
  refine Recorded.bind p.span ?_ fun _ u _ hok hadds' =>
    paired_importNames q importer found names u hok (hP hadds' hthere')
  -- a module that is brought was not there, and so is not the one that runs
  refine (q.machine t hok hthere').bind p.span fun s u hu hok hadds' => ?_
  cases hu
  by_cases hfound : t.machine.hasModule found = true
  · rw [hfound]
    exact q.pure () t hok hthere'
  · rw [Bool.not_eq_true] at hfound
    rw [hfound]
    have hne : found ≠ module := by
      rintro rfl
      exact absurd (hfound.symm.trans hthere') (by simp)
    exact recorded_bringModule p ht (strip_of_resolveModule hf ht) hne (hrun found)
      (hrefusal found) t hok hthere'

/-- **A run of a program reports at most one import**, behind a runtime error, once its module is
registered. -/
theorem recorded_runModule (hres : ∃ f, cb.resolve? = some f) : ∀ (depth : Nat)
    (module' source : String) (r : Running ε), Ok r →
    (r.machine.addModule module').hasModule module = true →
      Recorded Ok L S (Broken cb module) (runModule cb depth module' source)
        (runModule cb.informed depth module' source) r
  | 0, _, _, r, hok, _ => by
    have l := pairedRuns_lasting p
    exact ⟨l.exhausted r hok, .of_quiet (fun _ => rfl) trivial⟩
  | depth + 1, module', source, r, hok, hthere => by
    have hP : ∀ {s t : State}, Adds s t → s.hasModule module = true → t.hasModule module = true :=
      fun h => h module
    have q := (paired_records (Broken cb module) p hP).assembled
    have l := pairedRuns_lasting p
    have hrun : ∀ found source, Records Ok L S (Broken cb module)
        (fun s => s.hasModule module = true) (runModule cb depth found source)
        (runModule cb.informed depth found source) := fun found source t hok hthere =>
      recorded_runModule hres depth found source t hok (hP (adds_addModule _ _) hthere)
    rw [runModule, runModule]
    have hcompile : Recorded Ok L S (Broken cb module) (compile module' source : Eval ε _)
        (compile module' source) r :=
      ⟨paired_compile l.assembled module' source r hok, informs_compile module' source _⟩
    refine hcompile.bind p.span fun statements t ht hok _ => ?_
    have hregistered : t.machine.hasModule module = true := by
      rcases compile_cases module' source r with ⟨e, u, -, hu⟩ | ⟨sts, defined, -, hu⟩
      · exact absurd (congrArg Prod.fst (hu.symm.trans ht)) (by simp)
      · cases hu.symm.trans ht
        exact hthere
    rw [execAll_with, execAll_with]
    refine paired_execAllWith q module' statements (fun _ _ name names _ => ?_)
      (fun _ _ _ _ => trivial) t hok hregistered
    exact records_importWith p hres hrun (fun _ _ _ _ _ => refusal_of_runModule) module' name names

end

/-! ## Runs by the host -/

/-- Reports that account for a result.  `refused` is the report of the program that was to run, and
`broken` one of a module that it imports. -/
inductive Accounts (refused broken : Diagnostic → Prop) : InterpretResult → List Diagnostic → Prop where
  | success : Accounts refused broken .success []
  | compileError {d : Diagnostic} (h : refused d) : Accounts refused broken .compileError [d]
  | runtimeError {early : List Diagnostic} (h : early = [] ∨ ∃ d, broken d ∧ early = [d])
      (text : String) (location : Location) :
      Accounts refused broken .runtimeError
        (early ++ [Bridge.runtimeReport text, traceReport location])

/-- What is on record behind a run by the host accounts for its result. -/
def Accounted (refused broken : Diagnostic → Prop) (o : Outcome Empty InterpretResult)
    (reports : List Diagnostic) : Prop :=
  ∀ result, o = .value result → Accounts refused broken result reports

section

variable {cb : Callbacks ε} {refused broken : Diagnostic → Prop} {r : Running ε}

theorem informs_reported {early : List Diagnostic} (h : early = [] ∨ ∃ d, broken d ∧ early = [d])
    (message : String) :
    Informs (fun o late => Accounted refused broken o (early ++ late)) (reported cb message)
      (reported cb.informed message) r := by
  have hreport : Informs (fun o late => ∀ a, o = .value a →
      ∃ location, late = [Bridge.runtimeReport message, traceReport location])
      (reportRuntime cb message) (reportRuntime cb.informed message) r := by
    unfold reportRuntime
    refine (informs_informing _ _).bind (fun _ t late _ hlate => ?_) (fun e => e.elim) fun _ _ _ h => ?_
    · refine ⟨[traceReport t.machine.location], fun earlier => ?_, fun _ _ => ⟨t.machine.location, ?_⟩⟩
      · rfl
      · rw [hlate]
        rfl
    · exact absurd h (by simp)
  refine hreport.bind (fun _ t late _ hlate => ?_) (fun e => e.elim) fun _ _ _ h => ?_
  · refine .of_quiet (fun _ => rfl) fun result hresult => ?_
    cases hresult
    obtain ⟨location, rfl⟩ := hlate _ rfl
    rw [List.append_nil]
    exact .runtimeError h message location
  · exact absurd h (by simp)

/-- **A call of a method reports nothing but the error that ends it.** -/
theorem informs_callHandle {Ok : Running ε → Prop} {L S : Running ε → Running ε → Prop}
    (p : Steered Ok L S Adds Adds Adds cb) (hok : Ok r) {address arity : Nat} {signature : String}
    (hfind : r.machine.handles.find? address = some (.method signature arity)) :
    Informs (Accounted (fun _ => False) fun _ => False) (callHandle cb address)
      (callHandle cb.informed address) r := by
  by_cases hshort : r.machine.slots.length < arity + 1
  · have hrefuse : Informs (Accounted (fun _ => False) fun _ => False) (refuseCall cb signature)
        (refuseCall cb.informed signature) r := informs_reported (Or.inl rfl) _
    refine hrefuse.congr ?_ fun earlier => ?_
    · exact (callHandle_of_method hfind).trans (callMethod_of_short hshort)
    · exact (callHandle_of_method (r := r.informed earlier) hfind).trans (callMethod_of_short hshort)
  · have hslots : arity + 1 ≤ r.machine.slots.length := Nat.le_of_not_lt hshort
    have hlocate : Own r.machine r.called.machine := State.own_locate _ _
    have hcalled : Ok r.called := (p.work hok hlocate.inner).2
    have hinvoke := (paired_invoke (paired_records (fun _ => False) p
      (P := fun _ => True) fun _ => id) signature (r.machine.slots.take (arity + 1)) r.called
      hcalled trivial).informs
    refine Informs.congr (hinvoke.attempt_bind (f := settleCall cb) (g := settleCall cb.informed)
      ?_ ?_ fun _ _ _ h => absurd h (by simp)) ?_ fun earlier => ?_
    · intro v t late _ hlate
      obtain rfl : late = [] := hlate
      refine .of_quiet (fun _ => rfl) fun result hresult => ?_
      cases hresult
      exact .success
    · intro e t late _ hlate
      have hlate' : late = [] ∨ ∃ d, False ∧ late = [d] := by
        cases e with
        | compile => exact Or.inl hlate
        | runtime => exact hlate
      exact informs_reported hlate' e.message
    · exact (callHandle_of_method hfind).trans (callMethod_of_slots hslots)
    · exact (callHandle_of_method (r := r.informed earlier) hfind).trans (callMethod_of_slots hslots)

/-- **A run of a program reports what ends it, and the import that has led to it.** -/
theorem informs_interpret {Ok : Running ε → Prop} {L S : Running ε → Running ε → Prop}
    (p : Steered Ok L S Adds Adds Adds cb) (hok : Ok r) (hres : ∃ f, cb.resolve? = some f)
    (depth : Nat) {module : String} (hstrip : Text.strip module = module) (source : String) :
    Informs (Accounted (Refused module source r) (Broken cb module))
      (interpret cb depth module source) (interpret cb.informed depth module source) r := by
  have hrun := (recorded_runModule p hres depth module source r hok
    (hasModule_addModule_self r.machine module)).informs
  refine hrun.attempt_bind ?_ ?_ fun _ _ _ h => absurd h (by simp)
  · intro _ t late _ hlate
    obtain rfl : late = [] := hlate
    refine .of_quiet (fun _ => rfl) fun result hresult => ?_
    cases hresult
    exact .success
  · intro e t late ht hlate
    cases e with
    | runtime e => exact informs_reported hlate e.message
    | compile e =>
      obtain rfl : late = [] := hlate
      dsimp only
      rw [reportCompile_eq hstrip, reportCompile_eq hstrip]
      refine (informs_informing _ _).bind (fun _ u late _ hlate => ?_) (fun e => e.elim)
        fun _ _ _ h => absurd h (by simp)
      refine .of_quiet (fun _ => rfl) fun result hresult => ?_
      cases hresult
      rw [hlate]
      exact .compileError ⟨e, t, refusal_of_runModule ht, rfl⟩

end

end ScriptHost.Machine

namespace ScriptHost.Bridge

open Machine (State Running Callbacks Steered Adds Accounts Broken Refused Informs Informed)

variable {η : Type} [Observer η] {w w' : World (Host η)} {vm : VmId} {a : Address}
  {active : List Address}

/-! ## Operations that run programs -/

theorem adds_trans : ∀ ⦃s t u : State⦄, Adds s t → Adds t u → Adds s u := fun _ _ _ => Adds.trans

/-- No work of a host takes a module from a machine. -/
theorem upheld_adds (vm : VmId) (a : Address) : (Regime.relating vm a Adds : Regime η).Upheld :=
  upheld_of_modules adds_trans Adds.of_modules Machine.Own.adds vm a

theorem steered_adds {d : Delegates (Host η)} (ha : a ∈ active)
    (h : (Regime.relating vm a Adds).Behaved active d) :
    Steered (Working vm a active) (Passes active a) (Leaves vm a active fun _ => True) Adds Adds Adds
      (callbacks d a) :=
  steered_of_modules adds_trans Adds.of_modules Machine.Own.adds ha h

/-- The result that an operation tells of a run.  A machine that misreports its results tells
nothing. -/
def World.toldResult (w : World η) (result : InterpretResult) : InterpretResult :=
  if w.hasFault .unknownResult then .runtimeError else result

omit [Observer η] in
theorem told_eq (result : InterpretResult) (w : World (Host η)) :
    (Vm.told result : Act (Host η) InterpretResult) w = (.value (w.toldResult result), w) := by
  refine Prod.ext (congrArg Outcome.value ?_) rfl
  unfold World.toldResult
  split
  · next hfault =>
    simp only [hfault, if_true]
    rfl
  · next hfault =>
    simp only [hfault, Bool.false_eq_true, if_false]
    exact InterpretResult.ofCode_code result

/-- An operation that has a result has run its machine. -/
theorem run_of_told {d : Delegates (Host η)} (hr : Roster w)
    {x : Callbacks (World (Host η)) → Machine.Call (World (Host η)) InterpretResult}
    {result : InterpretResult}
    (h : (onMachine d a x >>= Vm.told : Act (Host η) InterpretResult) w = (.value result, w')) :
    ∃ own t, x (callbacks d a) ⟨w.machine a, w⟩ = (.value own, t) ∧ w' = world a t ∧
      result = w'.toldResult own := by
  obtain ⟨own, u, hrun, htold⟩ := Run.value_of_bind h
  rw [told_eq] at htold
  cases htold
  rw [onMachine_eq hr] at hrun
  rcases hx : x (callbacks d a) ⟨w.machine a, w⟩ with ⟨own' | e | halt, t⟩
  · rw [Run.widen, hx] at hrun
    cases hrun
    exact ⟨own, t, rfl, rfl, rfl⟩
  · exact e.elim
  · rw [Run.widen, hx] at hrun
    exact absurd (congrArg Prod.fst hrun) (by simp)

omit [Observer η] in
theorem of_terminated {text : String} {w u : World (Host η)}
    (h : (terminated text : Act (Host η) Unit) w = (.value (), u)) :
    Text.firstNul? text = none ∧ u = w := by
  cases hnul : Text.firstNul? text with
  | none =>
    rw [terminated, hnul] at h
    cases h
    exact ⟨rfl, rfl⟩
  | some position =>
    rw [terminated, hnul] at h
    exact absurd (congrArg Prod.fst h) (by simp [Run.fault])

theorem Steady.noted {c : NativeCall} (hw : Steady active w)
    (h : Deeds (fun _ => True) .all w (w.note c)) : Steady active (w.note c) :=
  (h.calm.moves active hw).2.1

/-- The run of the program behind an operation that has a result. -/
theorem run_of_interpret {e : Engine (Host η)} (hw : Steady active w) (hl : w.LiveAt vm a)
    {module source : String} {result : InterpretResult}
    (h : Vm.interpret e vm module source w = (.value result, w')) :
    Text.firstNul? module = none ∧ ∃ own t,
      Machine.interpret (callbacks e.delegates a) e.importDepth module source
        ⟨w.machine a, w.note (.enter a)⟩ = (.value own, t) ∧ w' = world a t ∧
        result = w'.toldResult own := by
  have hlive : live vm "interpret" w = (.value a, w) := by rw [live_of_alive hl.1, hl.2]
  obtain ⟨_, u, hmodule, hrest⟩ := Run.value_of_bind ((Run.bind_of_value hlive _).symm.trans h)
  obtain ⟨_, v, hsource, hrun⟩ := Run.value_of_bind hrest
  obtain ⟨hnul, rfl⟩ := of_terminated hmodule
  obtain ⟨-, rfl⟩ := of_terminated hsource
  have hsteady : Steady active (v.note (.enter a)) := hw.noted (deeds_enter trivial hl)
  exact ⟨hnul, run_of_told hsteady.sound.roster hrun⟩

/-- A program is run where its operation is asked for. -/
theorem interpret_of_run {e : Engine (Host η)} {module source : String} {result : InterpretResult}
    {t : Running (World (Host η))} (hw : Steady active w) (hl : w.LiveAt vm a)
    (hmodule : Text.firstNul? module = none) (hsource : Text.firstNul? source = none)
    (hrun : Machine.interpret (callbacks e.delegates a) e.importDepth module source
      ⟨w.machine a, w.note (.enter a)⟩ = (.value result, t)) :
    Vm.interpret e vm module source w = (.value ((world a t).toldResult result), world a t) := by
  have hroster : Roster (w.note (.enter a)) := (hw.noted (deeds_enter trivial hl)).sound.roster
  have hlive : live vm "interpret" w = (.value a, w) := by rw [live_of_alive hl.1, hl.2]
  have hterminated : ∀ text, Text.firstNul? text = none →
      (terminated text : Act (Host η) Unit) w = (.value (), w) := fun text htext => by
    rw [terminated, htext]
    rfl
  have hnote : (noteCall (.enter a) : Act (Host η) Unit) w = (.value (), w.note (.enter a)) := rfl
  have honMachine : (onMachine e.delegates a fun cb =>
      Machine.interpret cb e.importDepth module source : Act (Host η) InterpretResult)
        (w.note (.enter a)) = (.value result, world a t) := by
    have hthere : (w.note (.enter a)).machine a = w.machine a := rfl
    rw [onMachine_eq hroster, Run.widen, hthere, hrun]
    rfl
  unfold Vm.interpret
  rw [Run.bind_of_value hlive, Run.bind_of_value (hterminated _ hmodule),
    Run.bind_of_value (hterminated _ hsource), Run.bind_of_value hnote,
    Run.bind_of_value honMachine, told_eq]

omit [Observer η] in
theorem of_checkedHandle {h : CallHandle} {operation : String} {x : Address} {u : World (Host η)}
    (hchecked : (h.checked vm operation : Act (Host η) Address) w = (.value x, u)) :
    h.vm = vm ∧ w.isValid h = true ∧ x = h.address ∧ u = w := by
  unfold CallHandle.checked at hchecked
  split at hchecked
  · cases hchecked
  · next hbelongs =>
    have hvm : h.vm = vm := by simpa [CallHandle.belongsTo] using hbelongs
    change (if !w.isValid h then Run.fault (.useAfterDispose "handle" h.address operation)
      else pure h.address : Act (Host η) Address) w = _ at hchecked
    split at hchecked
    · cases hchecked
    · next hvalid =>
      cases hchecked
      exact ⟨hvm, by simpa using hvalid, rfl, rfl⟩

/-- The call of the method behind an operation that has a result. -/
theorem run_of_call {e : Engine (Host η)} (hw : Steady active w) (hl : w.LiveAt vm a)
    {h : CallHandle} (hmade : h ∈ w.host.handles) {result : InterpretResult}
    (hcall : Vm.call e vm h w = (.value result, w')) :
    Deeds (fun _ => True) .all w (w.note (.useHandle a h.address)) ∧ ∃ own t,
      Machine.callHandle (callbacks e.delegates a) h.address
        ⟨w.machine a, w.note (.useHandle a h.address)⟩ = (.value own, t) ∧ w' = world a t ∧
        result = w'.toldResult own := by
  have hlive : live vm "call" w = (.value a, w) := by rw [live_of_alive hl.1, hl.2]
  obtain ⟨_, u, hchecked, hrun⟩ := Run.value_of_bind ((Run.bind_of_value hlive _).symm.trans hcall)
  obtain ⟨rfl, hvalid, rfl, rfl⟩ := of_checkedHandle hchecked
  have huse : Deeds (fun _ => True) .all u (u.note (.useHandle a h.address)) :=
    (Deed.use trivial hmade hvalid hl).deeds
  exact ⟨huse, run_of_told (hw.noted huse).sound.roster hrun⟩

/-- An operation with the result `result` has run `x` on the machine at `a` from `r`, and leaves `w'`.
With a record of its reports, this run puts those on record that account for its result. -/
inductive Accountable (a : Address) (x : Machine.Call (World (Host η)) InterpretResult)
    (y : Machine.Call (Informed (World (Host η))) InterpretResult) (refused broken : Diagnostic → Prop)
    (r : Running (World (Host η))) (result : InterpretResult) (w' : World (Host η)) : Prop where
  | intro {own : InterpretResult} {reports : List Diagnostic} {t : Running (World (Host η))}
      (hrun : x r = (.value own, t)) (hworld : w' = world a t) (hresult : result = w'.toldResult own)
      (haccounts : Accounts refused broken own reports)
      (hrecord : ∀ earlier, y (r.informed earlier) = (.value own, t.informed (earlier ++ reports))) :
      Accountable a x y refused broken r result w'

omit [Observer η] in
theorem Accountable.of_informs {x : Machine.Call (World (Host η)) InterpretResult}
    {y : Machine.Call (Informed (World (Host η))) InterpretResult} {refused broken : Diagnostic → Prop}
    {r t : Running (World (Host η))} {own result : InterpretResult}
    (h : Informs (Machine.Accounted refused broken) x y r) (hrun : x r = (.value own, t))
    (hworld : w' = world a t) (hresult : result = w'.toldResult own) :
    Accountable a x y refused broken r result w' := by
  obtain ⟨reports, hrecord, haccounts⟩ := h
  rw [hrun] at hrecord haccounts
  exact .intro hrun hworld hresult (haccounts own rfl) hrecord

namespace Setting

variable (s : Setting η)

/-- **The reports of a run account for its result.**  A program that succeeds reports nothing, and one
that is refused is reported once.  One that ends with a runtime error reports the error and then the
place, and before that at most one module, which it was to import and which does not compile.  A
method that is called reports its error alone.

Runs that are started in the meantime have reports of their own.  Each report is handed to the listener
of the machine. -/
theorem reports_account (depth : Nat) (hw : Steady active w) (hl : w.LiveAt vm a) :
    let e := s.code.engines s.importDepth depth (a :: active)
    let cb := callbacks e.delegates a
    (∀ module source result w', Vm.interpret e vm module source w = (.value result, w') →
      Accountable a (Machine.interpret cb e.importDepth module source)
        (Machine.interpret cb.informed e.importDepth module source)
        (Refused module source (⟨w.machine a, w.note (.enter a)⟩ : Running (World (Host η))))
        (Broken cb module) ⟨w.machine a, w.note (.enter a)⟩ result w') ∧
    (∀ h ∈ w.host.handles, ∀ signature arity,
      (w.machine a).handles.find? h.address = some (.method signature arity) →
      ∀ result w', Vm.call e vm h w = (.value result, w') →
        Accountable a (Machine.callHandle cb h.address) (Machine.callHandle cb.informed h.address)
          (fun _ => False) (fun _ => False) ⟨w.machine a, w.note (.useHandle a h.address)⟩ result w') ∧
    ∀ t, Working vm a (a :: active) t → ∀ listener,
      ((world a t).vm vm).listeners.error? = some listener → ∀ diagnostic,
        cb.report diagnostic t = atHost a (e.delegates.error listener vm diagnostic) t := by
  intro e cb
  have hserves := serves_engines (upheld_adds vm a) s.code.obeys_free s.importDepth depth
  have p : Steered (Working vm a (a :: active)) (Passes (a :: active) a)
      (Leaves vm a (a :: active) fun _ => True)
      Adds Adds Adds cb := steered_adds List.mem_cons_self (hserves.behaved _)
  have hready : ∀ {w₁ : World (Host η)}, Steady active w₁ → w₁.LiveAt vm a →
      Working vm a (a :: active) ⟨w₁.machine a, w₁⟩ := by
    intro w₁ hw₁ hl₁
    refine ⟨?_, ?_⟩
    · rw [world_machine]
      exact hw₁.cons (hw₁.sound.roster.mem_natives hl₁)
    · rwa [world_machine]
  refine ⟨fun module source result w' hrun => ?_,
    fun h hmade signature arity hfind result w' hrun => ?_, fun t ht listener hlistener d => ?_⟩
  · obtain ⟨hnul, own, t, hown, hw', htold⟩ := run_of_interpret hw hl hrun
    have hok := hready (hw.noted (deeds_enter trivial hl)) hl
    exact .of_informs (Machine.informs_interpret p hok ⟨_, rfl⟩ e.importDepth
      (Text.strip_of_firstNul? hnul) source) hown hw' htold
  · obtain ⟨huse, own, t, hown, hw', htold⟩ := run_of_call hw hl hmade hrun
    have hok := hready (hw.noted huse) hl
    exact .of_informs (Machine.informs_callHandle p hok hfind) hown hw' htold
  · exact report_of_listener ht hlistener d

/-- A host whose modules do not compile. -/
def breaking : Setting Unit :=
  { silent with
    importDepth := 2
    code := { silent.code with load := fun _ _ _ => .done (some "var") } }

/-- A host that makes a machine, listens to its diagnostics and has modules for it. -/
def supplying : Program Unit Vm :=
  .ask .newService fun service =>
  .ask (.create service ⟨none, none, none, none⟩) fun vm =>
  .ask (.listen vm.id fun l => { l with error? := some 5, load? := some 6 }) fun _ => .done vm

/-- The world of the machine. -/
def supplied : World (Host Unit) := (breaking.run supplying).2

theorem supplied_eq :
    ((breaking.run supplying).1.isFinal, (supplied.vm 1).isAlive, (supplied.vm 1).address) =
      (false, true, 2) := by
  cbv

/-- A module is imported that does not compile.  Its report comes first, and then those of the error. -/
theorem reports_account_supplied :
    let e := breaking.code.engines 2 1 [2]
    let cb := callbacks e.delegates 2
    let r : Running (World (Host Unit)) := ⟨supplied.machine 2, supplied.note (.enter 2)⟩
    Steady [] supplied ∧ supplied.LiveAt 1 2 ∧
      (Machine.interpret cb.informed 2 "main" "import \"left\"" (r.informed [])).2.host.reports =
        [⟨.compile, some "left", 1, "Error at end of file: Expect variable name."⟩,
          ⟨.runtime, none, -1, "Could not compile module 'left'."⟩,
          ⟨.stackTrace, some "main", 1, "(script)"⟩] ∧
      ∃ w', Vm.interpret e 1 "main" "import \"left\"" supplied = (.value .runtimeError, w') ∧
        Accountable 2 (Machine.interpret cb 2 "main" "import \"left\"")
          (Machine.interpret cb.informed 2 "main" "import \"left\"")
          (Refused "main" "import \"left\"" r) (Broken cb "main") r .runtimeError w' := by
  intro e cb r
  have hend : (breaking.run supplying).1.isFinal = false := congrArg (·.1) supplied_eq
  have hlive : supplied.LiveAt 1 2 := ⟨congrArg (·.2.1) supplied_eq, congrArg (·.2.2) supplied_eq⟩
  have hsteady : Steady [] supplied := breaking.steady_run supplying hend
  have hresult : (Vm.interpret e 1 "main" "import \"left\"" supplied).1 = .value .runtimeError := by
    decide +kernel
  refine ⟨hsteady, hlive, by decide +kernel, ?_⟩
  rcases hrun : Vm.interpret e 1 "main" "import \"left\"" supplied with ⟨o, w'⟩
  rw [hrun] at hresult
  obtain rfl : o = .value .runtimeError := hresult
  exact ⟨w', rfl, (breaking.reports_account 1 hsteady hlive).1 _ _ _ _ hrun⟩

end Setting

end ScriptHost.Bridge
