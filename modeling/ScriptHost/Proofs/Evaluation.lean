import ScriptHost.Machine.Evaluation
import ScriptHost.Proofs.Frame
import ScriptHost.Proofs.Within

/-!
# Running programs does nothing but frame steps and callbacks

Whatever a program is, a run of it is a sequence of steps that `Frame` describes and of callbacks.
So a relation that holds of such steps, and within which all callbacks stay, holds from the
beginning of a run to its end (`Guest`): `within_interpret` and `within_callHandle` say so for the
two ways to start a run.  The proofs follow the recursion of the evaluation, on expressions, on
statements and on the nesting of imports.
-/

namespace ScriptHost.Machine

open Script
open Run (Within within_bind within_seq within_pure within_fault within_halt within_gets
  within_attempt within_widen within_andFinally)

variable {ε φ α : Type}

/-! ## Frames and pins -/

theorem State.frame_enterFrame (s : State) (frame : List Value) : Frame s (s.enterFrame frame) :=
  Frame.of_heap rfl rfl rfl rfl

theorem State.frame_leaveFrame (s : State) : Frame s s.leaveFrame := Frame.of_heap rfl rfl rfl rfl

theorem State.frame_pin (s : State) (pins : List Value) : Frame s { s with pins } :=
  Frame.of_heap rfl rfl rfl rfl

theorem State.frame_locate (s : State) (location : Location) : Frame s { s with location } :=
  Frame.of_heap rfl rfl rfl rfl

/-! ## What a run may do -/

/-- Callbacks that stay within a relation, apart from finalizers. -/
structure Hosted (R S : Running ε → Running ε → Prop) (cb : Callbacks ε) : Prop where
  write : ∀ text r, Within R S (cb.write text) r
  report : ∀ diagnostic r, Within R S (cb.report diagnostic) r
  resolve : ∀ f, cb.resolve? = some f → ∀ importer name r, Within R S (f importer name) r
  load : ∀ name r, Within R S (cb.load name) r
  bindClass : ∀ module className r, Within R S (cb.bindClass module className) r
  bindMethod : ∀ name r, Within R S (cb.bindMethod name) r
  execute : ∀ key r, Within R S (cb.execute key) r
  allocate : ∀ key r, Within R S (cb.allocate key) r

/-- Callbacks stay within wider relations as well. -/
theorem Hosted.mono {R S R' S' : Running ε → Running ε → Prop} {cb : Callbacks ε}
    (h : Hosted R S cb) (hR : ∀ {r t}, R r t → R' r t) (hS : ∀ {r t}, S r t → S' r t) :
    Hosted R' S' cb where
  write text r := (h.write text r).mono hR hS
  report diagnostic r := (h.report diagnostic r).mono hR hS
  resolve f hf importer name r := (h.resolve f hf importer name r).mono hR hS
  load name r := (h.load name r).mono hR hS
  bindClass module className r := (h.bindClass module className r).mono hR hS
  bindMethod name r := (h.bindMethod name r).mono hR hS
  execute key r := (h.execute key r).mono hR hS
  allocate key r := (h.allocate key r).mono hR hS

/-- A relation that holds of the own work of a running machine, and within which its callbacks
stay. -/
structure Guest (R S : Running ε → Running ε → Prop) (cb : Callbacks ε) : Prop
    extends Hosted R S cb where
  span : Span R S
  own : ∀ {r m}, Frame r.machine m → R r { r with machine := m }

variable {R S : Running ε → Running ε → Prop} {cb : Callbacks ε} (g : Guest R S cb)
include g

/-! ## Steps of the machine -/

theorem within_machine (r : Running ε) : Within R S (machine : Run (Running ε) φ State) r :=
  within_gets g.span _ r

theorem within_update {f : State → State} (hf : ∀ s, Frame s (f s)) (r : Running ε) :
    Within R S (update f : Run (Running ε) φ Unit) r :=
  Run.within_modify g.span (g.own (hf r.machine))

theorem within_updateGet {f : State → α × State} (hf : ∀ s, Frame s (f s).2) (r : Running ε) :
    Within R S (updateGet f : Run (Running ε) φ α) r :=
  Run.within_modifyGet g.span (g.own (hf r.machine))

theorem within_return (a : α) (r : Running ε) :
    Within R S (pure a : Run (Running ε) φ α) r :=
  within_pure g.span a r

theorem within_raise (e : RuntimeError) (r : Running ε) : Within R S (raise e : Eval ε α) r :=
  within_fault g.span _ r

/-! ## Calls of methods -/

theorem within_callForeign {function : Call ε Unit} (hf : ∀ r, Within R S function r)
    (frame : List Value) (r : Running ε) : Within R S (callForeign function frame) r := by
  unfold callForeign
  refine within_seq g.span (within_update g (fun s => State.frame_enterFrame s frame) r) ?_
  intro _ r
  refine within_seq g.span (within_widen (hf r)) fun _ r => ?_
  refine within_seq g.span (within_machine g r) fun s r => ?_
  refine within_seq g.span (within_update g State.frame_leaveFrame r) fun _ r => ?_
  split
  · exact within_return g _ r
  · exact within_return g _ r
  · exact within_raise g _ r

theorem within_invoke (signature : String) (frame : List Value) (r : Running ε) :
    Within R S (invoke cb signature frame) r := by
  unfold invoke
  refine within_seq g.span (within_machine g r) fun s r => ?_
  split
  · refine within_seq g.span (within_widen (g.write _ r)) fun _ r => ?_
    refine within_seq g.span (within_widen (g.write _ r)) fun _ r => ?_
    exact within_return g _ r
  · refine within_seq g.span (within_widen (g.write _ r)) fun _ r => ?_
    exact within_return g _ r
  · exact within_raise g _ r
  · refine within_seq g.span (within_updateGet g (fun s => State.frame_alloc s rfl) r) ?_
    exact fun _ r => within_return g _ r
  · split
    · exact within_raise g _ r
    · refine within_seq g.span (within_callForeign g (g.allocate _) frame r) fun _ r => ?_
      refine within_seq g.span (within_machine g r) fun _ r => ?_
      split
      · exact within_return g _ r
      · exact within_raise g _ r
  · exact within_callForeign g (g.execute _) frame r
  · exact within_raise g _ r

theorem within_withPins {x : Eval ε α} (hx : ∀ r, Within R S x r) (r : Running ε) :
    Within R S (withPins x) r := by
  unfold withPins
  refine within_seq g.span (within_machine g r) fun s r => ?_
  exact within_andFinally g.span (hx r) fun t => g.own (State.frame_pin _ _)

theorem within_withPinned {x : Eval ε α} (hx : ∀ r, Within R S x r) (values : List Value)
    (r : Running ε) : Within R S (withPinned values x) r := by
  refine within_withPins g (fun r => ?_) r
  refine within_seq g.span (within_update g (fun s => ?_) r) fun _ r => hx r
  exact State.frame_pin s _

/-! ## Expressions -/

mutual

theorem within_eval (module : String) : ∀ (e : Expr) (r : Running ε),
    Within R S (eval cb module e) r
  | .null, r => by
    rw [eval]
    exact within_return g _ r
  | .bool b, r => by
    rw [eval]
    exact within_return g _ r
  | .number x, r => by
    rw [eval]
    exact within_return g _ r
  | .text s, r => by
    rw [eval]
    exact within_return g _ r
  | .variable name _, r => by
    rw [eval]
    refine within_seq g.span (within_machine g r) fun s r => ?_
    split
    · exact within_return g _ r
    · exact within_raise g _ r
  | .list items, r => by
    rw [eval]
    refine within_seq g.span
      (within_withPins g (fun r => within_evalAll module items r) r) fun values r => ?_
    refine within_seq g.span (within_updateGet g (fun s => State.frame_alloc s rfl) r) ?_
    exact fun _ r => within_return g _ r
  | .getter receiver name, r => by
    rw [eval]
    refine within_seq g.span (within_withPins g (fun r => ?_) r) fun frame r => ?_
    · refine within_seq g.span (within_evalPinned module receiver r) fun v r => ?_
      exact within_return g _ r
    · exact within_withPinned g (fun r => within_invoke g _ frame r) frame r
  | .call receiver name arguments, r => by
    rw [eval]
    refine within_seq g.span (within_withPins g (fun r => ?_) r) fun frame r => ?_
    · refine within_seq g.span (within_evalPinned module receiver r) fun v r => ?_
      refine within_seq g.span (within_evalAll module arguments r) fun vs r => ?_
      exact within_return g _ r
    · exact within_withPinned g (fun r => within_invoke g _ frame r) frame r

theorem within_evalPinned (module : String) : ∀ (e : Expr) (r : Running ε),
    Within R S (evalPinned cb module e) r
  | e, r => by
    rw [evalPinned]
    refine within_seq g.span (within_eval module e r) fun v r => ?_
    refine within_seq g.span (within_update g (fun s => ?_) r) fun _ r => within_return g _ r
    exact State.frame_pin s _

theorem within_evalAll (module : String) : ∀ (es : List Expr) (r : Running ε),
    Within R S (evalAll cb module es) r
  | [], r => by
    rw [evalAll]
    exact within_return g _ r
  | e :: rest, r => by
    rw [evalAll]
    refine within_seq g.span (within_evalPinned module e r) fun v r => ?_
    refine within_seq g.span (within_evalAll module rest r) fun vs r => ?_
    exact within_return g _ r

end

/-! ## Statements -/

theorem within_bindMethods (module className : String) (methods : List MethodDecl) :
    ∀ (c : Class) (r : Running ε), Within R S (bindMethods cb module className methods c) r := by
  induction methods with
  | nil => exact fun c r => within_return g c r
  | cons m rest ih =>
    intro c r
    rw [bindMethods]
    refine within_seq g.span (within_widen (g.bindMethod _ r)) fun bound r => ?_
    split
    · exact within_raise g _ r
    · exact ih _ r

theorem within_declareClass (module : String) (decl : ClassDecl) (r : Running ε) :
    Within R S (declareClass cb module decl) r := by
  -- the class is bound and defined in the same way, whichever keys it gets
  have hdefine : ∀ (c : Class) (r : Running ε), Within R S (do
      let c ← bindMethods cb module decl.name decl.methods c
      update fun s => (s.alloc (.classDef c)).2.define module decl.name
        (.object (s.alloc (.classDef c)).1)) r := by
    intro c r
    refine within_seq g.span (within_bindMethods g module decl.name decl.methods c r) ?_
    intro c r
    refine within_update g (fun s => ?_) r
    exact (State.frame_alloc s rfl).trans (State.frame_define _ module decl.name _)
  unfold declareClass
  dsimp only
  split
  · exact within_seq g.span (within_widen (g.bindClass _ _ r)) fun keys r => hdefine _ r
  · exact within_seq g.span (within_return g _ r) fun keys r => hdefine _ r

theorem within_reportCompile (module : String) (e : CompileError) (r : Running ε) :
    Within R S (reportCompile cb module e) r :=
  g.report _ r

theorem within_reportRuntime (message : String) (r : Running ε) :
    Within R S (reportRuntime cb message) r := by
  unfold reportRuntime
  refine within_seq g.span (g.report _ r) fun _ r => ?_
  exact within_seq g.span (within_machine g r) fun _ r => g.report _ r

theorem within_resolveModule (importer name : String) (r : Running ε) :
    Within R S (resolveModule cb importer name) r := by
  unfold resolveModule
  cases hres : cb.resolve? with
  | none => exact within_return g _ r
  | some resolve =>
    refine within_seq g.span (within_widen (g.resolve resolve hres _ _ r)) fun resolved r => ?_
    split
    · exact within_return g _ r
    · exact within_raise g _ r

theorem within_loadModule (name : String) (r : Running ε) :
    Within R S (loadModule cb name) r := by
  unfold loadModule
  refine within_seq g.span (within_widen (g.load _ r)) fun source r => ?_
  split
  · exact within_return g _ r
  · exact within_raise g _ r

theorem within_importNames (importer source : String) (names : List String) :
    ∀ r : Running ε, Within R S (importNames importer source names) r := by
  induction names with
  | nil => exact fun r => within_return g _ r
  | cons name rest ih =>
    intro r
    rw [importNames]
    refine within_seq g.span (within_machine g r) fun s r => ?_
    split
    · refine within_seq g.span (within_update g (fun s => State.frame_define s _ _ _) r) ?_
      exact fun _ r => ih r
    · exact within_raise g _ r

theorem within_importModule {run : String → String → Eval ε Unit}
    (hrun : ∀ module source r, Within R S (run module source) r) (importer name : String)
    (names : List String) (r : Running ε) :
    Within R S (importModule cb run importer name names) r := by
  unfold importModule
  refine within_seq g.span (within_resolveModule g importer name r) fun resolved r => ?_
  refine within_seq g.span (within_machine g r) fun s r => ?_
  have hnames := within_importNames g importer resolved names
  split
  · refine within_seq g.span (within_loadModule g resolved r) fun source r => ?_
    refine within_seq g.span (within_attempt (hrun resolved source r)) fun result r => ?_
    split
    · exact hnames r
    · refine within_seq g.span (within_widen (within_reportCompile g resolved _ r)) fun _ r => ?_
      exact within_seq g.span (within_raise g _ r) fun _ r => hnames r
    · exact within_seq g.span (within_fault g.span _ r) fun _ r => hnames r
  · exact hnames r

theorem within_exec {run : String → String → Eval ε Unit}
    (hrun : ∀ module source r, Within R S (run module source) r) (module : String)
    (st : Statement) (r : Running ε) : Within R S (exec cb run module st) r := by
  unfold exec
  split
  · exact within_importModule g hrun module _ _ r
  · refine within_seq g.span (within_eval g module _ r) fun v r => ?_
    exact within_update g (fun s => State.frame_define s _ _ _) r
  · refine within_seq g.span (within_eval g module _ r) fun v r => ?_
    exact within_update g (fun s => State.frame_define s _ _ _) r
  · exact within_declareClass g module _ r
  · refine within_seq g.span (within_eval g module _ r) fun v r => ?_
    exact within_return g _ r

theorem within_execAll {run : String → String → Eval ε Unit}
    (hrun : ∀ module source r, Within R S (run module source) r) (module : String)
    (sts : List Statement) : ∀ r : Running ε, Within R S (execAll cb run module sts) r := by
  induction sts with
  | nil => exact fun r => within_return g _ r
  | cons st rest ih =>
    intro r
    rw [execAll]
    refine within_seq g.span (within_update g (fun s => ?_) r) fun _ r => ?_
    · exact State.frame_locate s _
    · exact within_seq g.span (within_exec g hrun module st r) fun _ r => ih r

/-! ## Runs -/

theorem within_compile (module source : String) (r : Running ε) :
    Within R S (compile module source : Eval ε (List Statement)) r := by
  unfold compile
  split
  · exact within_fault g.span _ r
  · refine within_seq g.span (within_update g (fun s => ?_) r) fun _ r => ?_
    · unfold State.addModule
      split
      · exact Frame.refl s
      · exact Frame.of_heap rfl rfl rfl rfl
    · refine within_seq g.span (within_machine g r) fun s r => ?_
      split
      · exact within_fault g.span _ r
      · exact within_return g _ r

theorem within_runModule (depth : Nat) :
    ∀ (module source : String) (r : Running ε),
      Within R S (runModule cb depth module source) r := by
  induction depth with
  | zero => exact fun _ _ r => within_halt g.span _ r
  | succ depth ih =>
    intro module source r
    rw [runModule]
    refine within_seq g.span (within_compile g module source r) fun statements r => ?_
    exact within_execAll g ih module statements r

/-- **A run of a program stays within what its steps and its callbacks stay within.** -/
theorem within_interpret (depth : Nat) (module source : String) (r : Running ε) :
    Within R S (interpret cb depth module source) r := by
  unfold interpret
  refine within_seq g.span (within_attempt (within_runModule g depth module source r)) ?_
  intro result r
  split
  · exact within_return g _ r
  · refine within_seq g.span (within_reportCompile g module _ r) fun _ r => ?_
    exact within_return g _ r
  · refine within_seq g.span (within_reportRuntime g _ r) fun _ r => ?_
    exact within_return g _ r

theorem within_callMethod (signature : String) (arity : Nat) (r : Running ε) :
    Within R S (callMethod cb signature arity) r := by
  unfold callMethod
  refine within_seq g.span (within_machine g r) fun s r => ?_
  split
  · refine within_seq g.span (within_reportRuntime g _ r) fun _ r => ?_
    exact within_return g _ r
  · refine within_seq g.span (within_update g (fun s => ?_) r) fun _ r => ?_
    · exact State.frame_locate s _
    · refine within_seq g.span (within_attempt (within_invoke g signature _ r)) fun result r => ?_
      split
      · refine within_seq g.span (within_update g (fun s => State.frame_setSlot s _ _) r) ?_
        exact fun _ r => within_return g _ r
      · refine within_seq g.span (within_reportRuntime g _ r) fun _ r => ?_
        exact within_return g _ r

/-- **A call of a method stays within what its steps and its callbacks stay within.** -/
theorem within_callHandle (address : Nat) (r : Running ε) :
    Within R S (callHandle cb address) r := by
  unfold callHandle
  refine within_seq g.span (within_machine g r) fun s r => ?_
  split
  · exact within_callMethod g _ _ r
  · exact within_return g _ r

end ScriptHost.Machine
