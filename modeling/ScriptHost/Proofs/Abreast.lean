import ScriptHost.Proofs.Evaluation
import ScriptHost.Proofs.Joint
import ScriptHost.Proofs.Matching

/-!
# Programs that run on two machines

A program that runs on two machines that match does the same on both (`joint_interpret`,
`joint_callHandle`), if the calls of the host do (`Coupling`).  Whatever an evaluation holds, in its
frames and its pins, it has got from the machine or from the host, so that both machines know it; and
both machines allocate under the same numbers.  Nothing needs to be pinned for that: an object that a
collection takes away under the hands of an evaluation is gone from both machines.
-/

namespace ScriptHost.Machine

open Script
open Run (Joint joint_pure joint_fault joint_halt joint_bind joint_attempt joint_widen
  joint_andFinally)

variable {ε φ α β : Type} {P : ObjectId → Prop}

/-- A relation between two states of running machines that match.  It goes through own work that does
the same to both, and through the calls of the host. -/
structure Coupling (P : ObjectId → Prop) (J : Running ε → Running ε → Prop) (cb : Callbacks ε) :
    Prop where
  matches' : ∀ {r r'}, J r r' → r.machine.Matches P r'.machine
  own : ∀ {r r' m m'}, J r r' → Frame r.machine m → Frame r'.machine m' → m.Matches P m' →
    J { r with machine := m } { r' with machine := m' }
  write : ∀ text {r r'}, J r r' → Joint J (fun _ => True) (cb.write text) (cb.write text) r r'
  report : ∀ diagnostic {r r'}, J r r' →
    Joint J (fun _ => True) (cb.report diagnostic) (cb.report diagnostic) r r'
  resolve : ∀ f, cb.resolve? = some f → ∀ importer name {r r'}, J r r' →
    Joint J (fun _ => True) (f importer name) (f importer name) r r'
  load : ∀ name {r r'}, J r r' → Joint J (fun _ => True) (cb.load name) (cb.load name) r r'
  bindClass : ∀ module className {r r'}, J r r' →
    Joint J (fun _ => True) (cb.bindClass module className) (cb.bindClass module className) r r'
  bindMethod : ∀ name {r r'}, J r r' →
    Joint J (fun _ => True) (cb.bindMethod name) (cb.bindMethod name) r r'
  execute : ∀ key {r r'}, J r r' →
    Joint J (fun _ => True) (cb.execute key) (cb.execute key) r r'
  allocate : ∀ key {r r'}, J r r' →
    Joint J (fun _ => True) (cb.allocate key) (cb.allocate key) r r'

section

variable {J : Running ε → Running ε → Prop} {cb : Callbacks ε} {r r' : Running ε} {V : α → Prop}
  {W : β → Prop}

/-! ## Steps of the machines -/

theorem joint_machine {f g : State → Run (Running ε) φ β}
    (h : Joint J W (f r.machine) (g r'.machine) r r') :
    Joint J W (machine >>= f) (machine >>= g) r r' := h

variable (c : Coupling P J cb) (h : J r r')
include c h

theorem joint_update {f : State → State} (hf : Frame r.machine (f r.machine))
    (hf' : Frame r'.machine (f r'.machine)) (hm : (f r.machine).Matches P (f r'.machine)) :
    Joint J (fun _ => True) (update f : Run (Running ε) φ Unit) (update f) r r' :=
  Run.joint_modify (c.own h hf hf' hm)

/-- Both machines allocate an object under the same number. -/
theorem joint_alloc {o : Object} (ho : Heap.isBare o = true) (hrefs : ∀ id ∈ o.references, P id) :
    Joint J (Value.Into P)
      (do return Value.object (← updateGet fun s => s.alloc o) : Run (Running ε) φ Value)
      (do return Value.object (← updateGet fun s => s.alloc o)) r r' := by
  obtain ⟨halloc, hid, hnew⟩ := (c.matches' h).alloc (Heap.isForeign_of_isBare ho) hrefs
  have hown := c.own h (State.frame_alloc _ ho) (State.frame_alloc _ ho) halloc
  refine joint_bind (Run.joint_modifyGet hid hown hnew) fun id t t' ht hid => ?_
  exact joint_pure ht (Value.into_object.2 hid)

omit h in
/-- Pins are forgotten at the end. -/
theorem joint_withPins {x : Eval ε α} (h : J r r') (hx : Joint J V x x r r') :
    Joint J V (withPins x) (withPins x) r r' := by
  refine joint_machine ?_
  rw [(c.matches' h).pins]
  refine joint_andFinally hx fun {t t'} ht => ?_
  have hmatches := c.matches' ht
  have hpins : t'.machine.pins = t.machine.pins := hmatches.pins
  refine c.own ht (State.frame_pin _ _) (State.frame_pin _ _) ?_
  unfold State.unpinTo
  rw [hpins]
  exact hmatches.pin fun v hv => hmatches.bounded.pins (List.mem_of_mem_drop hv)

theorem joint_pin {values : List Value} (hv : ∀ v ∈ values, v.Into P) :
    Joint J (fun _ => True)
      (update fun s => { s with pins := values ++ s.pins } : Run (Running ε) φ Unit)
      (update fun s => { s with pins := values ++ s.pins }) r r' := by
  have hmatches := c.matches' h
  refine joint_update c h (State.frame_pin _ _) (State.frame_pin _ _) ?_
  rw [hmatches.pins]
  refine hmatches.pin fun v hin => ?_
  exact (List.mem_append.1 hin).elim (hv v) hmatches.bounded.pins

theorem joint_withPinned {x : Eval ε α} {values : List Value} (hv : ∀ v ∈ values, v.Into P)
    (hx : ∀ {t t'}, J t t' → Joint J V x x t t') :
    Joint J V (withPinned values x) (withPinned values x) r r' := by
  refine joint_withPins c h ?_
  refine joint_bind (joint_pin c h fun v hin => hv v (List.mem_reverse.1 hin)) ?_
  exact fun _ t t' ht _ => hx ht

/-! ## Calls of methods -/

omit c h in
/-- The class of a new instance is the receiver. -/
theorem object_of_target {h : Heap} {receiver : Value} {signature : String} {owner : ObjectId}
    (ht : h.target receiver signature = .construct owner ∨
      ∃ allocate?, h.target receiver signature = .constructForeign owner allocate?) :
    receiver.object? = some owner := by
  have hinstance : ∀ id target, instanceTarget h id signature = target →
      target ≠ .construct owner ∧ ∀ allocate?, target ≠ .constructForeign owner allocate? := by
    rintro id target rfl
    unfold instanceTarget
    split <;> exact ⟨by simp, by simp⟩
  unfold Heap.target at ht
  split at ht
  · exact absurd ht (by simp)
  · next id hobject =>
    split at ht
    · next cls _ =>
      have howner : id = owner := by
        unfold classTarget at ht
        grind
      rw [hobject, howner]
    · obtain ⟨hconstruct, hforeign⟩ := hinstance _ _ rfl
      rcases ht with ht | ⟨_, ht⟩
      · exact absurd ht hconstruct
      · exact absurd ht (hforeign _)
    · obtain ⟨hconstruct, hforeign⟩ := hinstance _ _ rfl
      rcases ht with ht | ⟨_, ht⟩
      · exact absurd ht hconstruct
      · exact absurd ht (hforeign _)
    · exact absurd ht (by simp)

/-- A host function has the same frame on both machines, and leaves the same result. -/
theorem joint_callForeign {function : Call ε Unit} {frame : List Value}
    (hframe : ∀ v ∈ frame, v.Into P)
    (hf : ∀ {t t'}, J t t' → Joint J (fun _ => True) function function t t') :
    Joint J (Value.Into P) (callForeign function frame) (callForeign function frame) r r' := by
  unfold callForeign
  have henter := joint_update (φ := Fault) (f := fun s => s.enterFrame frame) c h
    (State.frame_enterFrame _ frame) (State.frame_enterFrame _ frame)
    ((c.matches' h).enterFrame hframe)
  refine joint_bind henter fun _ t t' ht _ => ?_
  refine joint_bind (joint_widen (hf ht)) fun _ u u' hu _ => joint_machine ?_
  have hmatches := c.matches' hu
  refine joint_bind (joint_update c hu (State.frame_leaveFrame _) (State.frame_leaveFrame _)
    hmatches.leaveFrame) fun _ v v' hv _ => ?_
  have hresult : (u.machine.slots.headD .null).Into P := by
    cases hslots : u.machine.slots with
    | nil => exact Value.into_null
    | cons v rest =>
      refine hmatches.bounded.slots ?_
      rw [hslots]
      exact List.mem_cons_self
  rw [hmatches.abortRequest?, hmatches.slots]
  split
  · exact joint_pure hv hresult
  · exact joint_pure hv hresult
  · next error _ herror =>
    rw [hmatches.heap.text hmatches.bounded.heap (hmatches.bounded.abortRequest? herror)]
    exact joint_fault hv _

theorem joint_invoke (signature : String) {frame : List Value} (hframe : ∀ v ∈ frame, v.Into P) :
    Joint J (Value.Into P) (invoke cb signature frame) (invoke cb signature frame) r r' := by
  have hreceiver : (frame.headD .null).Into P := by
    cases frame with
    | nil => exact Value.into_null
    | cons v rest => exact hframe v List.mem_cons_self
  have hargument : ∀ v, frame[1]? = some v → v.Into P := fun v hv => hframe v (List.mem_of_getElem? hv)
  have hvalue : (frame[1]?.getD Value.null).Into P := by
    cases hv : frame[1]? with
    | none => exact Value.into_null
    | some v => exact hargument v hv
  have hmatches := c.matches' h
  have hheap := hmatches.bounded.heap
  have htext : frame[1]?.elim "" r'.machine.heap.text = frame[1]?.elim "" r.machine.heap.text := by
    cases hv : frame[1]? with
    | none => rfl
    | some v => exact hmatches.heap.text hheap (hargument v hv)
  unfold invoke
  refine joint_machine ?_
  dsimp only
  rw [hmatches.heap.target hheap hreceiver, htext, hmatches.heap.text hheap hvalue,
    hmatches.heap.typeName hheap hreceiver]
  cases htarget : r.machine.heap.target (frame.headD .null) signature with
  | print =>
    refine joint_bind (joint_widen (c.write _ h)) fun _ t t' ht _ => ?_
    refine joint_bind (joint_widen (c.write _ ht)) fun _ u u' hu _ => ?_
    exact joint_pure hu hvalue
  | write =>
    refine joint_bind (joint_widen (c.write _ h)) fun _ t t' ht _ => ?_
    exact joint_pure ht hvalue
  | abort => exact joint_fault h _
  | construct owner =>
    refine joint_alloc c h rfl fun id hid => ?_
    rw [List.mem_singleton.1 hid]
    exact hreceiver owner (object_of_target (Or.inl htarget))
  | constructForeign owner allocate? =>
    have howner : P owner := hreceiver owner (object_of_target (Or.inr ⟨allocate?, htarget⟩))
    dsimp only
    rw [hmatches.heap.className howner]
    cases allocate? with
    | none => exact joint_fault h _
    | some key =>
      refine joint_bind (joint_callForeign c h hframe (c.allocate key)) fun v t t' ht hv => ?_
      refine joint_machine ?_
      rw [(c.matches' ht).heap.isForeignInstance hv]
      split
      · exact joint_pure ht hv
      · exact joint_fault ht _
  | foreign key => exact joint_callForeign c h hframe (c.execute key)
  | missing => exact joint_fault h _

/-! ## Expressions -/

omit h

mutual

/-- **The value of an expression is the same on both machines**, which both know it. -/
theorem joint_eval (module : String) : ∀ (e : Expr) {r r' : Running ε}, J r r' →
    Joint J (Value.Into P) (eval cb module e) (eval cb module e) r r'
  | .null, _, _, h => by
    rw [eval]
    exact joint_pure h Value.into_null
  | .bool _, _, _, h => by
    rw [eval]
    exact joint_pure h (Value.into_of_none rfl)
  | .number _, _, _, h => by
    rw [eval]
    exact joint_pure h (Value.into_of_none rfl)
  | .text _, _, _, h => by
    rw [eval]
    exact joint_pure h (Value.into_of_none rfl)
  | .variable name _, _, _, h => by
    rw [eval]
    refine joint_machine ?_
    rw [(c.matches' h).lookup?]
    split
    · next v hv => exact joint_pure h ((c.matches' h).bounded.lookup? hv)
    · exact joint_fault h _
  | .list items, _, _, h => by
    rw [eval]
    refine joint_bind (joint_withPins c h (joint_evalAll module items h)) fun values t t' ht hv => ?_
    exact joint_alloc c ht rfl (Object.references_list.2 hv)
  | .getter receiver name, r, r', h => by
    rw [eval]
    have hframe : Joint J (fun frame => ∀ v ∈ frame, v.Into P)
        (do return [← evalPinned cb module receiver]) (do return [← evalPinned cb module receiver])
        r r' := by
      refine joint_bind (joint_evalPinned module receiver h) fun v t t' ht hv => ?_
      exact joint_pure ht fun u hu => List.mem_singleton.1 hu ▸ hv
    refine joint_bind (joint_withPins c h hframe) fun frame t t' ht hv => ?_
    exact joint_withPinned c ht hv fun hu => joint_invoke c hu _ hv
  | .call receiver name arguments, r, r', h => by
    rw [eval]
    have hframe : Joint J (fun frame => ∀ v ∈ frame, v.Into P)
        (do
          let v ← evalPinned cb module receiver
          let vs ← evalAll cb module arguments
          return v :: vs)
        (do
          let v ← evalPinned cb module receiver
          let vs ← evalAll cb module arguments
          return v :: vs) r r' := by
      refine joint_bind (joint_evalPinned module receiver h) fun v t t' ht hv => ?_
      refine joint_bind (joint_evalAll module arguments ht) fun vs u u' hu hvs => ?_
      exact joint_pure hu fun x hx => (List.mem_cons.1 hx).elim (fun heq => heq ▸ hv) (hvs x)
    refine joint_bind (joint_withPins c h hframe) fun frame t t' ht hv => ?_
    exact joint_withPinned c ht hv fun hu => joint_invoke c hu _ hv

theorem joint_evalPinned (module : String) : ∀ (e : Expr) {r r' : Running ε}, J r r' →
    Joint J (Value.Into P) (evalPinned cb module e) (evalPinned cb module e) r r'
  | e, _, _, h => by
    rw [evalPinned]
    refine joint_bind (joint_eval module e h) fun v t t' ht hv => ?_
    have hpin := joint_pin (φ := Fault) c ht fun u hu => List.mem_singleton.1 hu ▸ hv
    exact joint_bind hpin fun _ u u' hu _ => joint_pure hu hv

theorem joint_evalAll (module : String) : ∀ (es : List Expr) {r r' : Running ε}, J r r' →
    Joint J (fun vs => ∀ v ∈ vs, v.Into P) (evalAll cb module es) (evalAll cb module es) r r'
  | [], _, _, h => by
    rw [evalAll]
    exact joint_pure h fun v hv => absurd hv List.not_mem_nil
  | e :: rest, _, _, h => by
    rw [evalAll]
    refine joint_bind (joint_evalPinned module e h) fun v t t' ht hv => ?_
    refine joint_bind (joint_evalAll module rest ht) fun vs u u' hu hvs => ?_
    exact joint_pure hu fun x hx => (List.mem_cons.1 hx).elim (fun heq => heq ▸ hv) (hvs x)

end

/-! ## Statements -/

theorem joint_define (h : J r r') (module name : String) {v : Value} (hv : v.Into P) :
    Joint J (fun _ => True) (update fun s => s.define module name v : Run (Running ε) φ Unit)
      (update fun s => s.define module name v) r r' :=
  joint_update (f := fun s => s.define module name v) c h (State.frame_define _ module name v)
    (State.frame_define _ module name v) ((c.matches' h).define module name hv)

theorem joint_bindMethods (module className : String) (methods : List MethodDecl) :
    ∀ (cls : Class) {r r' : Running ε}, J r r' →
      Joint J (fun _ => True) (bindMethods cb module className methods cls)
        (bindMethods cb module className methods cls) r r' := by
  induction methods with
  | nil => exact fun cls _ _ h => joint_pure h trivial
  | cons m rest ih =>
    intro cls r r' h
    rw [bindMethods]
    refine joint_bind (joint_widen (c.bindMethod _ h)) fun bound t t' ht _ => ?_
    cases bound with
    | none => exact joint_fault ht _
    | some key => exact ih _ ht

/-- A class has the same number on both machines. -/
theorem joint_declareClass (h : J r r') (module : String) (decl : ClassDecl) :
    Joint J (fun _ => True) (declareClass cb module decl) (declareClass cb module decl) r r' := by
  have hdefine : ∀ (cls : Class) {r r' : Running ε}, J r r' → Joint J (fun _ => True)
      (do
        let cls ← bindMethods cb module decl.name decl.methods cls
        update fun s => s.declare module decl.name cls : Eval ε Unit)
      (do
        let cls ← bindMethods cb module decl.name decl.methods cls
        update fun s => s.declare module decl.name cls) r r' := by
    intro cls r r' h
    refine joint_bind (joint_bindMethods c module decl.name decl.methods cls h) ?_
    intro cls t t' ht _
    obtain ⟨halloc, hid, hnew⟩ := (c.matches' ht).alloc (o := .classDef cls) rfl
      fun id hid => absurd hid List.not_mem_nil
    refine joint_update (f := fun s => s.declare module decl.name cls) c ht
      (State.own_declare _ module decl.name cls).toFrame
      (State.own_declare _ module decl.name cls).toFrame ?_
    unfold State.declare
    rw [hid]
    exact halloc.define module decl.name (Value.into_object.2 hnew)
  unfold declareClass
  dsimp only
  split
  · exact joint_bind (joint_widen (c.bindClass _ _ h)) fun keys t t' ht _ => hdefine _ ht
  · exact joint_bind (joint_pure (V := fun _ => True) h trivial) fun keys t t' ht _ => hdefine _ ht

theorem joint_reportCompile (h : J r r') (module : String) (e : CompileError) :
    Joint J (fun _ => True) (reportCompile cb module e) (reportCompile cb module e) r r' :=
  c.report _ h

theorem joint_reportRuntime (h : J r r') (message : String) :
    Joint J (fun _ => True) (reportRuntime cb message) (reportRuntime cb message) r r' := by
  refine joint_bind (c.report _ h) fun _ t t' ht _ => joint_machine ?_
  rw [(c.matches' ht).location]
  exact c.report _ ht

theorem joint_resolveModule (h : J r r') (importer name : String) :
    Joint J (fun _ => True) (resolveModule cb importer name) (resolveModule cb importer name)
      r r' := by
  unfold resolveModule
  split
  · exact joint_pure h trivial
  · next f hf =>
    refine joint_bind (joint_widen (c.resolve f hf _ _ h)) fun resolved t t' ht _ => ?_
    cases resolved with
    | none => exact joint_fault ht _
    | some resolved => exact joint_pure ht trivial

theorem joint_loadModule (h : J r r') (name : String) :
    Joint J (fun _ => True) (loadModule cb name) (loadModule cb name) r r' := by
  refine joint_bind (joint_widen (c.load _ h)) fun source t t' ht _ => ?_
  cases source with
  | none => exact joint_fault ht _
  | some source => exact joint_pure ht trivial

theorem joint_importNames (importer source : String) (names : List String) :
    ∀ {r r' : Running ε}, J r r' → Joint J (fun _ => True)
      (importNames importer source names : Eval ε Unit) (importNames importer source names) r r' := by
  induction names with
  | nil => exact fun h => joint_pure h trivial
  | cons name rest ih =>
    intro r r' h
    rw [importNames]
    refine joint_machine ?_
    rw [(c.matches' h).global?]
    split
    · next v hv =>
      refine joint_bind (joint_define c h importer name ((c.matches' h).bounded.global? hv)) ?_
      exact fun _ t t' ht _ => ih ht
    · exact joint_fault h _

section

variable {run : String → String → Eval ε Unit}
  (hrun : ∀ module source {r r' : Running ε}, J r r' →
    Joint J (fun _ => True) (run module source) (run module source) r r')
include hrun

theorem joint_importModule (h : J r r') (importer name : String) (names : List String) :
    Joint J (fun _ => True) (importModule cb run importer name names)
      (importModule cb run importer name names) r r' := by
  unfold importModule
  refine joint_bind (joint_resolveModule c h importer name) fun resolved t t' ht _ => ?_
  refine joint_machine ?_
  rw [(c.matches' ht).hasModule]
  split
  · refine joint_bind (joint_loadModule c ht resolved) fun source u u' hu _ => ?_
    refine joint_bind (joint_attempt (hrun resolved source hu)) fun result v v' hv _ => ?_
    rcases result with (e | e) | _
    · refine joint_bind (joint_widen (joint_reportCompile c hv resolved e)) fun _ _ _ hw _ => ?_
      refine joint_bind (joint_fault (V := fun _ => True) hw _) fun _ _ _ hw _ => ?_
      exact joint_importNames c importer resolved names hw
    · exact joint_bind (joint_fault (V := fun _ => True) hv _) fun _ _ _ hw _ =>
        joint_importNames c importer resolved names hw
    · exact joint_importNames c importer resolved names hv
  · exact joint_importNames c importer resolved names ht

theorem joint_exec (h : J r r') (module : String) (st : Statement) :
    Joint J (fun _ => True) (exec cb run module st) (exec cb run module st) r r' := by
  unfold exec
  split
  · exact joint_importModule c hrun h module _ _
  · next name value _ =>
    exact joint_bind (joint_eval c module value h) fun v t t' ht hv =>
      joint_define c ht module name hv
  · next name value _ =>
    exact joint_bind (joint_eval c module value h) fun v t t' ht hv =>
      joint_define c ht module name hv
  · exact joint_declareClass c h module _
  · next value _ =>
    exact joint_bind (joint_eval c module value h) fun v t t' ht _ => joint_pure ht trivial

theorem joint_execAll (module : String) (sts : List Statement) :
    ∀ {r r' : Running ε}, J r r' →
      Joint J (fun _ => True) (execAll cb run module sts) (execAll cb run module sts) r r' := by
  induction sts with
  | nil => exact fun h => joint_pure h trivial
  | cons st rest ih =>
    intro r r' h
    rw [execAll]
    have hlocate := joint_update (φ := Fault) (f := fun s => { s with location := ⟨module, st.line⟩ })
      c h (State.frame_locate _ _) (State.frame_locate _ _) ((c.matches' h).locate _)
    refine joint_bind hlocate fun _ t t' ht _ => ?_
    exact joint_bind (joint_exec c hrun ht module st) fun _ u u' hu _ => ih hu

end

/-! ## Runs -/

theorem joint_compile (h : J r r') (module source : String) :
    Joint J (fun _ => True) (compile module source : Eval ε (List Statement))
      (compile module source) r r' := by
  unfold compile
  split
  · exact joint_fault h _
  · have hadd := joint_update (φ := Fault) (f := fun s => s.addModule module) c h
      (State.own_addModule _ module).toFrame (State.own_addModule _ module).toFrame
      ((c.matches' h).addModule module)
    refine joint_bind hadd fun _ t t' ht _ => joint_machine ?_
    rw [(c.matches' ht).namesIn]
    split
    · exact joint_fault ht _
    · exact joint_pure ht trivial

/-- The program of a module runs alike, however deep imports may nest. -/
theorem joint_runModule : ∀ (depth : Nat) (module source : String) {r r' : Running ε}, J r r' →
    Joint J (fun _ => True) (runModule cb depth module source) (runModule cb depth module source)
      r r'
  | 0, _, _, _, _, h => joint_halt h _
  | depth + 1, module, source, _, _, h => by
    rw [runModule]
    refine joint_bind (joint_compile c h module source) fun sts t t' ht _ => ?_
    exact joint_execAll c (joint_runModule depth) module sts ht

/-- **A program runs alike on two machines that match.** -/
theorem joint_interpret (h : J r r') (depth : Nat) (module source : String) :
    Joint J (fun _ => True) (interpret cb depth module source) (interpret cb depth module source)
      r r' := by
  refine joint_bind (joint_attempt (joint_runModule c depth module source h)) ?_
  intro result t t' ht _
  rcases result with (e | e) | _
  · exact joint_bind (joint_reportCompile c ht module e) fun _ _ _ hu _ => joint_pure hu trivial
  · exact joint_bind (joint_reportRuntime c ht e.message) fun _ _ _ hu _ => joint_pure hu trivial
  · exact joint_pure ht trivial

theorem joint_callMethod (h : J r r') (signature : String) (arity : Nat) :
    Joint J (fun _ => True) (callMethod cb signature arity) (callMethod cb signature arity)
      r r' := by
  unfold callMethod
  refine joint_machine ?_
  have hmatches := c.matches' h
  rw [hmatches.slots]
  split
  · exact joint_bind (joint_reportRuntime c h _) fun _ _ _ ht _ => joint_pure ht trivial
  · have hframe : ∀ v ∈ r.machine.slots.take (arity + 1), v.Into P :=
      fun v hv => hmatches.bounded.slots (List.mem_of_mem_take hv)
    have hlocate := joint_update (φ := Empty) (f := fun s => { s with location := callLocation })
      c h (State.frame_locate _ _) (State.frame_locate _ _) (hmatches.locate _)
    refine joint_bind hlocate fun _ t t' ht _ => ?_
    refine joint_bind (joint_attempt (joint_invoke c ht signature hframe)) ?_
    intro result u u' hu hv
    cases result with
    | ok v =>
      have hset := joint_update (φ := Empty) (f := fun s => s.setSlot 0 v) c hu
        (State.frame_setSlot _ 0 v) (State.frame_setSlot _ 0 v)
        ((c.matches' hu).setSlot 0 (hv v rfl))
      exact joint_bind hset fun _ _ _ hv _ => joint_pure hv trivial
    | error e =>
      exact joint_bind (joint_reportRuntime c hu e.message) fun _ _ _ hv _ => joint_pure hv trivial

/-- **A method is called alike on two machines that match**, through a handle that both have. -/
theorem joint_callHandle (h : J r r') (address : Nat) :
    Joint J (fun _ => True) (callHandle cb address) (callHandle cb address) r r' := by
  unfold callHandle
  refine joint_machine ?_
  rw [(c.matches' h).handles]
  split
  · exact joint_callMethod c h _ _
  · exact joint_pure h trivial

end

end ScriptHost.Machine
