import ScriptHost.Proofs.Compilation

/-!
# Runs with a journal

An import loads and runs a module only if it is not registered, and a module is registered before its
body starts.  So nothing that has started is loaded or run by an import again.  To say so, runs are
repeated with a journal, in which imports and the starts of bodies are noted.  Apart from the journal
they do the same as without (`Meets`), and the journal tells the order of events (`Chronicle`).
-/

namespace ScriptHost.Machine

open Script

variable {ε φ ψ α β : Type}

/-! ## Registered modules -/

/-- Modules that are registered stay registered. -/
def Adds (s s' : State) : Prop :=
  ∀ module, s.hasModule module = true → s'.hasModule module = true

theorem Adds.refl (s : State) : Adds s s := fun _ h => h

theorem Adds.trans {s t u : State} (h : Adds s t) (h' : Adds t u) : Adds s u :=
  fun module hs => h' module (h module hs)

theorem Adds.of_modules {s s' : State} (h : s'.modules = s.modules) : Adds s s' := by
  intro module hthere
  rwa [State.hasModule, h]

theorem Own.adds {s s' : State} (h : Own s s') : Adds s s' := h.modules

theorem adds_addModule (s : State) (module : String) : Adds s (s.addModule module) :=
  fun module' h => (s.hasModule_addModule module module').2 (Or.inl h)

theorem hasModule_addModule_self (s : State) (module : String) :
    (s.addModule module).hasModule module = true :=
  (s.hasModule_addModule module module).2 (Or.inr rfl)

/-! ## Hosts whose calls return -/

/-- A call of the host that returns, with every module still there.  Whatever runs no program leaves
the modules alone. -/
def Returns (x : Call ε α) : Prop :=
  ∀ r, ∃ a t, x r = (.value a, t) ∧ Adds r.machine t.machine

/-- A host all of whose calls return. -/
structure Answering (cb : Callbacks ε) : Prop where
  write : ∀ text, Returns (cb.write text)
  report : ∀ diagnostic, Returns (cb.report diagnostic)
  resolve : ∀ f, cb.resolve? = some f → ∀ importer name, Returns (f importer name)
  load : ∀ name, Returns (cb.load name)
  bindClass : ∀ module className, Returns (cb.bindClass module className)
  bindMethod : ∀ name, Returns (cb.bindMethod name)
  execute : ∀ key, Returns (cb.execute key)
  allocate : ∀ key, Returns (cb.allocate key)

/-! ## Journals -/

/-- What a journal notes: that an import asks for the source of a module, that it compiles and runs the
module, and that the body of a module starts, for an import or for the host. -/
inductive Notice where
  | load (module : String)
  | run (module : String)
  | start (module : String)
  deriving DecidableEq, Repr

/-- What may come behind a notice: no import loads or runs what has started. -/
def Notice.Allows : Notice → Notice → Prop
  | .start module, later => later ≠ .load module ∧ later ≠ .run module
  | .load _, _ => True
  | .run _, _ => True

/-- A host with a journal. -/
structure Noted (ε : Type) where
  host : ε
  journal : List Notice

/-- A run with a journal. -/
def Running.noted (r : Running ε) (journal : List Notice) : Running (Noted ε) :=
  ⟨r.machine, ⟨r.host, journal⟩⟩

/-- A call of the host, which notes nothing. -/
def unnoted (x : Call ε α) : Call (Noted ε) α := fun r =>
  ((x ⟨r.machine, r.host.host⟩).1, (x ⟨r.machine, r.host.host⟩).2.noted r.host.journal)

/-- The calls of a host beside a journal. -/
def Callbacks.noted (cb : Callbacks ε) : Callbacks (Noted ε) where
  write text := unnoted (cb.write text)
  report diagnostic := unnoted (cb.report diagnostic)
  resolve? := cb.resolve?.map fun f importer name => unnoted (f importer name)
  load name := unnoted (cb.load name)
  bindClass module className := unnoted (cb.bindClass module className)
  bindMethod name := unnoted (cb.bindMethod name)
  execute key := unnoted (cb.execute key)
  allocate key := unnoted (cb.allocate key)
  finalize block key := unnoted (cb.finalize block key)

/-- Adds a notice to the journal. -/
def note (n : Notice) : Run (Running (Noted ε)) φ Unit :=
  Run.modify fun r => { r with host := { r.host with journal := r.host.journal ++ [n] } }

/-- Loads and runs a module that is not there, and notes both. -/
def bringNoting (cb : Callbacks ε) (run : String → String → Eval (Noted ε) Unit)
    (module : String) : Eval (Noted ε) Unit := do
  note (.load module)
  let source ← loadModule cb.noted module
  note (.run module)
  recover (run module source) (refuseModule cb.noted module)

/-- Compiles and executes a program in a module, and notes its start and its imports. -/
def runNoting (cb : Callbacks ε) : Nat → String → String → Eval (Noted ε) Unit
  | 0, _, _ => Run.halt .exhausted
  | depth + 1, module, source => do
    let statements ← compile module source
    note (.start module)
    execAllWith cb.noted (bringNoting cb (runNoting cb depth)) module statements

/-- Runs a program in a module with a journal, and reports how it fails. -/
def interpretNoting (cb : Callbacks ε) (depth : Nat) (module source : String) :
    Call (Noted ε) InterpretResult := do
  match ← (runNoting cb depth module source).attempt with
  | .ok () => return .success
  | .error (.compile e) =>
    reportCompile cb.noted module e
    return .compileError
  | .error (.runtime e) =>
    reportRuntime cb.noted e.message
    return .runtimeError

/-- A program that the host runs in a module, behind other work. -/
structure Job (ε : Type) where
  before : Call ε Unit
  module : String
  source : String

/-- Runs programs one after the other. -/
def interpretAll (cb : Callbacks ε) (depth : Nat) : List (Job ε) → Call ε (List InterpretResult)
  | [] => return []
  | job :: rest => do
    job.before
    let result ← interpret cb depth job.module job.source
    return result :: (← interpretAll cb depth rest)

/-- Runs programs one after the other, with one journal. -/
def interpretAllNoting (cb : Callbacks ε) (depth : Nat) :
    List (Job ε) → Call (Noted ε) (List InterpretResult)
  | [] => return []
  | job :: rest => do
    unnoted job.before
    let result ← interpretNoting cb depth job.module job.source
    return result :: (← interpretAllNoting cb depth rest)

/-- A journal in which what has started is registered, and was neither loaded nor run behind that. -/
structure Chronicle (s : State) (journal : List Notice) : Prop where
  started : ∀ module, .start module ∈ journal → s.hasModule module = true
  allowed : journal.Pairwise Notice.Allows

theorem chronicle_nil (s : State) : Chronicle s [] :=
  ⟨fun _ hin => absurd hin List.not_mem_nil, List.Pairwise.nil⟩

variable {s s' : State} {journal : List Notice}

theorem Chronicle.mono (h : Chronicle s journal) (hadds : Adds s s') : Chronicle s' journal :=
  ⟨fun module hin => hadds module (h.started module hin), h.allowed⟩

theorem Chronicle.append (h : Chronicle s journal) {n : Notice}
    (hstarted : ∀ module, n = .start module → s.hasModule module = true)
    (hallowed : ∀ earlier ∈ journal, earlier.Allows n) : Chronicle s (journal ++ [n]) := by
  refine ⟨fun module hin => ?_, List.pairwise_append.2 ⟨h.allowed, List.pairwise_singleton _ _,
    fun earlier hin later hlater => ?_⟩⟩
  · rcases List.mem_append.1 hin with hin | hin
    · exact h.started module hin
    · exact hstarted module (List.mem_singleton.1 hin).symm
  · rw [List.mem_singleton.1 hlater]
    exact hallowed earlier hin

/-- The body of a registered module may start. -/
theorem Chronicle.start (h : Chronicle s journal) {module : String}
    (hthere : s.hasModule module = true) : Chronicle s (journal ++ [.start module]) := by
  refine h.append (fun module' hn => ?_) fun earlier _ => ?_
  · cases hn
    exact hthere
  · cases earlier with
    | start => exact ⟨by simp, by simp⟩
    | load | run => trivial

/-- What has not started may be loaded and run. -/
theorem Chronicle.bring (h : Chronicle s journal) {module : String}
    (hnew : .start module ∉ journal) {n : Notice} (hn : n = .load module ∨ n = .run module) :
    Chronicle s (journal ++ [n]) := by
  refine h.append (fun module' hstart => ?_) fun earlier hin => ?_
  · rcases hn with rfl | rfl <;> exact absurd hstart (by simp)
  · cases earlier with
    | start module' =>
      have hne : module' ≠ module := fun heq => hnew (heq ▸ hin)
      rcases hn with rfl | rfl
      · exact ⟨fun heq => hne (Notice.load.inj heq).symm, by simp⟩
      · exact ⟨by simp, fun heq => hne (Notice.run.inj heq).symm⟩
    | load | run => trivial

/-! ## Runs with a journal -/

/-- Work that comes to an end, with a value or a fault, and does the same with a journal.  It adds
modules, and notices that keep the journal a chronicle. -/
inductive Meets (x : Run (Running ε) φ α) (y : Run (Running (Noted ε)) φ α) (r : Running ε)
    (journal : List Notice) : Prop where
  | value (a : α) (t : Running ε) (journal' : List Notice) (hx : x r = (.value a, t))
    (hy : y (r.noted journal) = (.value a, t.noted journal')) (hadds : Adds r.machine t.machine)
    (hchronicle : Chronicle t.machine journal')
  | fault (e : φ) (t : Running ε) (journal' : List Notice) (hx : x r = (.fault e, t))
    (hy : y (r.noted journal) = (.fault e, t.noted journal')) (hadds : Adds r.machine t.machine)
    (hchronicle : Chronicle t.machine journal')

section

variable {r : Running ε}

/-- Only what work does in the run itself matters. -/
theorem Meets.congr {x x' : Run (Running ε) φ α} {y y' : Run (Running (Noted ε)) φ α}
    {journal₀ : List Notice} (h : Meets x y r journal) (hx : x' r = x r)
    (hy : y' (r.noted journal₀) = y (r.noted journal)) : Meets x' y' r journal₀ := by
  cases h with
  | value a t journal' hxr hyr hadds hc =>
    exact .value a t journal' (hx.trans hxr) (hy.trans hyr) hadds hc
  | fault e t journal' hxr hyr hadds hc =>
    exact .fault e t journal' (hx.trans hxr) (hy.trans hyr) hadds hc

theorem meets_pure (hc : Chronicle r.machine journal) (a : α) :
    Meets (pure a : Run (Running ε) φ α) (pure a) r journal :=
  .value a r journal rfl rfl (.refl _) hc

theorem meets_fault (hc : Chronicle r.machine journal) (e : φ) :
    Meets (Run.fault e : Run (Running ε) φ α) (Run.fault e) r journal :=
  .fault e r journal rfl rfl (.refl _) hc

theorem meets_update (hc : Chronicle r.machine journal) {f : State → State}
    (hf : Adds r.machine (f r.machine)) :
    Meets (update f : Run (Running ε) φ Unit) (update f) r journal :=
  .value () { r with machine := f r.machine } journal rfl rfl hf (hc.mono hf)

theorem meets_machine (hc : Chronicle r.machine journal) :
    Meets (machine : Run (Running ε) φ State) machine r journal :=
  .value r.machine r journal rfl rfl (.refl _) hc

/-- Work goes on behind a value. -/
theorem Meets.behind {x : Run (Running ε) φ α} {y : Run (Running (Noted ε)) φ α}
    {f : α → Run (Running ε) φ β} {g : α → Run (Running (Noted ε)) φ β} {a : α} {t : Running ε}
    {journal' : List Notice} (h : Meets (f a) (g a) t journal') (hx : x r = (.value a, t))
    (hy : y (r.noted journal) = (.value a, t.noted journal')) (hadds : Adds r.machine t.machine) :
    Meets (x >>= f) (y >>= g) r journal := by
  have hxf : (x >>= f) r = f a t := Run.bind_of_value hx f
  have hyg : (y >>= g) (r.noted journal) = g a (t.noted journal') := Run.bind_of_value hy g
  cases h with
  | value b u journal'' hfa hga hadds' hc =>
    exact .value b u journal'' (hxf.trans hfa) (hyg.trans hga) (hadds.trans hadds') hc
  | fault e u journal'' hfa hga hadds' hc =>
    exact .fault e u journal'' (hxf.trans hfa) (hyg.trans hga) (hadds.trans hadds') hc

theorem meets_bind {x : Run (Running ε) φ α} {y : Run (Running (Noted ε)) φ α}
    {f : α → Run (Running ε) φ β} {g : α → Run (Running (Noted ε)) φ β} (h : Meets x y r journal)
    (hf : ∀ a t journal', x r = (.value a, t) → Adds r.machine t.machine →
      Chronicle t.machine journal' → Meets (f a) (g a) t journal') :
    Meets (x >>= f) (y >>= g) r journal := by
  cases h with
  | value a t journal' hx hy hadds hc => exact (hf a t journal' hx hadds hc).behind hx hy hadds
  | fault e t journal' hx hy hadds hc =>
    exact .fault e t journal' (Run.bind_of_fault hx f) (Run.bind_of_fault hy g) hadds hc

/-- Work begins behind a notice. -/
theorem meets_note {x : Run (Running ε) φ α} {f : Unit → Run (Running (Noted ε)) φ α} {n : Notice}
    (h : Meets x (f ()) r (journal ++ [n])) : Meets x (note n >>= f) r journal :=
  h.congr rfl rfl

/-- Work for a module that is not there. -/
theorem meets_whenAbsent {x : Eval ε Unit} {y : Eval (Noted ε) Unit} {module : String}
    (hc : Chronicle r.machine journal)
    (h : r.machine.hasModule module = false → Meets x y r journal) :
    Meets (whenAbsent module x) (whenAbsent module y) r journal := by
  have hx : whenAbsent module x r =
      (if !r.machine.hasModule module then x else pure () : Eval ε Unit) r := rfl
  have hy : whenAbsent module y (r.noted journal) =
      (if !r.machine.hasModule module then y else pure () : Eval (Noted ε) Unit)
        (r.noted journal) := rfl
  cases hthere : r.machine.hasModule module with
  | true =>
    rw [hthere] at hx hy
    exact (meets_pure hc ()).congr hx hy
  | false =>
    rw [hthere] at hx hy
    exact (h hthere).congr hx hy

theorem Returns.unnoted {x : Call ε α} (hx : Returns x) (r : Running ε) :
    ∃ a t, x r = (.value a, t) ∧ Adds r.machine t.machine ∧
      ∀ journal, Machine.unnoted x (r.noted journal) = (.value a, t.noted journal) := by
  obtain ⟨a, t, hrun, hadds⟩ := hx r
  refine ⟨a, t, hrun, hadds, fun journal => ?_⟩
  have hnoted : Machine.unnoted x (r.noted journal) = ((x r).1, (x r).2.noted journal) := rfl
  rw [hnoted, hrun]

theorem meets_unnoted {x : Call ε α} (hx : Returns x) (hc : Chronicle r.machine journal) :
    Meets x (unnoted x) r journal := by
  obtain ⟨a, t, hrun, hadds, hnoted⟩ := hx.unnoted r
  exact .value a t journal hrun (hnoted journal) hadds (hc.mono hadds)

theorem meets_widen {x : Call ε α} {y : Call (Noted ε) α} (h : Meets x y r journal) :
    Meets (x.widen : Run (Running ε) φ α) y.widen r journal := by
  cases h with
  | value a t journal' hx hy hadds hc =>
    exact .value a t journal' (by rw [Run.widen, hx]) (by rw [Run.widen, hy]) hadds hc
  | fault e => exact e.elim

/-- A host call in the middle of a run. -/
theorem meets_call {x : Call ε α} (hx : Returns x) (hc : Chronicle r.machine journal) :
    Meets (x.widen : Run (Running ε) φ α) (unnoted x).widen r journal :=
  meets_widen (meets_unnoted hx hc)

theorem meets_attempt {x : Run (Running ε) φ α} {y : Run (Running (Noted ε)) φ α}
    (h : Meets x y r journal) :
    Meets (x.attempt : Run (Running ε) ψ (Except φ α)) y.attempt r journal := by
  cases h with
  | value a t journal' hx hy hadds hc =>
    exact .value _ t journal' (Run.attempt_of_value hx) (Run.attempt_of_value hy) hadds hc
  | fault e t journal' hx hy hadds hc =>
    exact .value _ t journal' (Run.attempt_of_fault hx) (Run.attempt_of_fault hy) hadds hc

theorem meets_withPins {x : Eval ε α} {y : Eval (Noted ε) α} (h : Meets x y r journal) :
    Meets (withPins x) (withPins y) r journal := by
  have hrun {δ : Type} (z : Eval δ α) (u : Running δ) : withPins z u = z.andFinally
      (fun t => { t with machine := t.machine.unpinTo u.machine.pins.length }) u := rfl
  have hunpin (m : State) : Adds m (m.unpinTo r.machine.pins.length) := fun _ h => h
  cases h with
  | value a t journal' hx hy hadds hc =>
    refine .value a { t with machine := t.machine.unpinTo r.machine.pins.length } journal' ?_ ?_
      (hadds.trans (hunpin _)) (hc.mono (hunpin _))
    · rw [hrun, Run.andFinally, hx]
    · rw [hrun, Run.andFinally, hy]
      rfl
  | fault e t journal' hx hy hadds hc =>
    refine .fault e { t with machine := t.machine.unpinTo r.machine.pins.length } journal' ?_ ?_
      (hadds.trans (hunpin _)) (hc.mono (hunpin _))
    · rw [hrun, Run.andFinally, hx]
    · rw [hrun, Run.andFinally, hy]
      rfl

theorem meets_callForeign {function : Call ε Unit} (hf : Returns function)
    (hc : Chronicle r.machine journal) (frame : List Value) :
    Meets (callForeign function frame) (callForeign (unnoted function) frame) r journal := by
  unfold callForeign
  refine meets_bind (meets_update hc fun _ h => h) fun _ t _ _ _ hc => ?_
  refine meets_bind (meets_call hf hc) fun _ t _ _ _ hc => ?_
  refine meets_bind (meets_machine hc) fun s t _ _ _ hc => ?_
  refine meets_bind (meets_update hc fun _ h => h) fun _ t _ _ _ hc => ?_
  split
  · exact meets_pure hc _
  · exact meets_pure hc _
  · exact meets_fault hc _

theorem meets_recover {x : Eval ε Unit} {y : Eval (Noted ε) Unit}
    {refused : CompileError → Eval ε Unit} {refused' : CompileError → Eval (Noted ε) Unit}
    (h : Meets x y r journal)
    (hrefused : ∀ e t journal', Chronicle t.machine journal' →
      Meets (refused e) (refused' e) t journal') :
    Meets (recover x refused) (recover y refused') r journal := by
  refine meets_bind (meets_attempt h) fun result t journal' _ _ hc => ?_
  split
  · exact meets_pure hc _
  · exact hrefused _ t journal' hc
  · exact meets_fault hc _

variable {cb : Callbacks ε} (p : Answering cb) (hc : Chronicle r.machine journal)
include p hc

theorem meets_resolveModule (importer name : String) :
    Meets (resolveModule cb importer name) (resolveModule cb.noted importer name) r journal := by
  unfold resolveModule
  have hnoted : cb.noted.resolve? =
      cb.resolve?.map fun f importer name => unnoted (f importer name) := rfl
  rw [hnoted]
  cases hres : cb.resolve? with
  | none => exact meets_pure hc _
  | some f =>
    refine meets_bind (meets_call (p.resolve f hres _ _) hc) fun resolved t _ _ _ hc => ?_
    cases resolved with
    | some text => exact meets_pure hc _
    | none => exact meets_fault hc _

/-- Work goes on behind a source with the same journal. -/
theorem meets_loaded {module : String} {f : String → Eval ε Unit}
    {g : String → Eval (Noted ε) Unit}
    (h : ∀ text t, cb.load (Text.strip module) r = (.value (some text), t) →
      Adds r.machine t.machine → Meets (f (Text.cutText text)) (g (Text.cutText text)) t journal) :
    Meets (loadModule cb module >>= f) (loadModule cb.noted module >>= g) r journal := by
  obtain ⟨source, t, hrun, hadds, hnoted⟩ := (p.load (Text.strip module)).unnoted r
  have hx : ((cb.load (Text.strip module)).widen : Eval ε (Option String)) r =
      (.value source, t) := by
    rw [Run.widen, hrun]
  have hy : ((cb.noted.load (Text.strip module)).widen : Eval (Noted ε) (Option String))
      (r.noted journal) = (.value source, t.noted journal) := by
    rw [Run.widen, show cb.noted.load _ _ = _ from hnoted journal]
  cases source with
  | none =>
    have hfault : loadModule cb module r = (.fault (.runtime (.missingModule module)), t) :=
      Run.bind_of_value hx _
    have hfault' : loadModule cb.noted module (r.noted journal) =
        (.fault (.runtime (.missingModule module)), t.noted journal) := Run.bind_of_value hy _
    exact .fault _ t journal (Run.bind_of_fault hfault f) (Run.bind_of_fault hfault' g) hadds
      (hc.mono hadds)
  | some text =>
    have hvalue : loadModule cb module r = (.value (Text.cutText text), t) := Run.bind_of_value hx _
    exact (h text t hrun hadds).behind hvalue (Run.bind_of_value hy _) hadds

theorem meets_reportCompile (module : String) (e : CompileError) :
    Meets (reportCompile cb module e) (reportCompile cb.noted module e) r journal :=
  meets_unnoted (p.report _) hc

theorem meets_reportRuntime (message : String) :
    Meets (reportRuntime cb message) (reportRuntime cb.noted message) r journal := by
  refine meets_bind (meets_unnoted (p.report _) hc) fun _ t _ _ _ hc => ?_
  refine meets_bind (meets_machine hc) fun s t _ _ _ hc => ?_
  exact meets_unnoted (p.report _) hc

theorem meets_refuseModule (module : String) (e : CompileError) :
    Meets (refuseModule cb module e) (refuseModule cb.noted module e) r journal := by
  refine meets_bind (meets_widen (meets_reportCompile p hc module e)) fun _ t _ _ _ hc => ?_
  exact meets_fault hc _

end

/-! ## Programs with a journal -/

/-- A program that is refused is refused with a journal as well. -/
theorem Refusal.noted {module source : String} {r t : Running ε} {e : CompileError}
    (h : Refusal module source r e t) (journal : List Notice) :
    Refusal module source (r.noted journal) e (t.noted journal) := by
  cases h with
  | grammar h => exact .grammar h
  | names h hnames => exact .names h hnames

theorem Refusal.adds {module source : String} {r t : Running ε} {e : CompileError}
    (h : Refusal module source r e t) : Adds r.machine t.machine := by
  cases h with
  | grammar => exact .refl _
  | names => exact adds_addModule _ _

/-- Work goes on behind a program that is accepted, once its module is registered. -/
theorem meets_accepted {r : Running ε} (hc : Chronicle r.machine journal) {module source : String}
    {f : List Statement → Eval ε Unit} {g : List Statement → Eval (Noted ε) Unit}
    (h : ∀ statements, parse source = .ok statements →
      Meets (f statements) (g statements) (r.withModule module) journal) :
    Meets (compile module source >>= f) (compile module source >>= g) r journal := by
  rcases compile_cases module source r with ⟨e, t, href, hrun⟩ | ⟨statements, defined, hacc, hrun⟩
  · have hnoted := compile_of_refusal (href.noted journal)
    exact .fault _ t journal (Run.bind_of_fault hrun f) (Run.bind_of_fault hnoted g) href.adds
      (hc.mono href.adds)
  · have hnoted : Accepted module source (r.noted journal) statements defined := ⟨hacc.1, hacc.2⟩
    exact (h statements hacc.1).behind hrun (compile_of_accepted hnoted)
      (adds_addModule r.machine module)

end ScriptHost.Machine
