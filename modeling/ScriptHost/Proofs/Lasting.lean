import ScriptHost.Proofs.Evaluation
import ScriptHost.Proofs.Guards
import ScriptHost.Proofs.Pairing
import ScriptHost.Proofs.Signatures

/-!
# What a run keeps of a machine

A run changes much of a machine, and what it keeps may be broken in the meantime: values are pinned
and forgotten, and a host function runs in a frame of its own, with slots that it may use as it likes.
`Balanced K M U` lists what a relation `K` between machines needs in order to hold from the beginning
of each part of a run to its end, whether the part has a value or a fault.  Host functions keep `M`,
and `K` follows once their frame is left; parts that leave pins keep `U`, and `K` follows once the
pins are forgotten.

If the calls of a host keep these relations (`Steered`), so do evaluations, runs of programs, and
calls of methods.
-/

namespace ScriptHost.Machine

open Script
open Run (Within)

variable {ε φ α β : Type}

/-- Variables that are defined stay defined. -/
def Grows (s s' : State) : Prop :=
  ∀ module name, (s.global? module name).isSome → (s'.global? module name).isSome

theorem Grows.refl (s : State) : Grows s s := fun _ _ h => h

theorem Grows.trans {s t u : State} (h : Grows s t) (h' : Grows t u) : Grows s u :=
  fun module name hs => h' module name (h module name hs)

theorem Grows.of_modules {s s' : State} (h : s'.modules = s.modules) : Grows s s' := by
  intro module name hs
  rwa [State.global?, h]

theorem State.setSlot_modules (s : State) (index : Int) (v : Value) :
    (s.setSlot index v).modules = s.modules := by
  unfold State.setSlot
  split <;> rfl

/-- What a machine does in a run by itself, its pins and frames included. -/
structure Inner (s s' : State) : Prop extends Frame s s', Ages s s' where
  grows : Grows s s'

theorem Own.inner {s s' : State} (h : Own s s') : Inner s s' := ⟨h.toFrame, h.toAges, h.global?⟩

theorem Inner.of_heap {s s' : State} (h : Frame s s') (heap : s'.heap = s.heap)
    (finalized : s'.finalized = s.finalized) (modules : s'.modules = s.modules) : Inner s s' :=
  ⟨h, .of_heap heap finalized, .of_modules modules⟩

theorem State.inner_pin (s : State) (pins : List Value) : Inner s { s with pins } :=
  .of_heap (s.frame_pin pins) rfl rfl rfl

theorem State.inner_enterFrame (s : State) (frame : List Value) : Inner s (s.enterFrame frame) :=
  .of_heap (s.frame_enterFrame frame) rfl rfl rfl

theorem State.inner_leaveFrame (s : State) : Inner s s.leaveFrame :=
  .of_heap s.frame_leaveFrame rfl rfl rfl

theorem State.inner_setSlot (s : State) (index : Int) (v : Value) : Inner s (s.setSlot index v) :=
  ⟨s.frame_setSlot index v, s.ages_setSlot index v, .of_modules (s.setSlot_modules index v)⟩

/-! ## Relations that go through a run -/

/-- A relation between machines that goes through the parts of a run: `K` itself, `M` for host
functions in their frames, and `U` for parts that leave pins. -/
structure Balanced (K M U : State → State → Prop) : Prop where
  refl : ∀ s, K s s
  trans : ∀ ⦃s t u⦄, K s t → K t u → K s u
  own : ∀ {s t}, Own s t → K s t
  call : ∀ {s t} {frame : List Value}, M (s.enterFrame frame) t → K s t.leaveFrame
  pinning : ∀ {s t}, K s t → U s t
  transPinning : ∀ ⦃s t u⦄, U s t → U t u → U s u
  pin : ∀ (s : State) (values : List Value), U s { s with pins := values ++ s.pins }
  unpin : ∀ {s t}, U s t → K s (t.unpinTo s.pins.length)

/-- From a run that `Ok` holds of, work that leads to such a run again and keeps `K`, or that ends the
process.  Its faults are among `F`. -/
structure Lasting (Ok : Running ε → Prop) (L S : Running ε → Running ε → Prop)
    (K : State → State → Prop) (F : φ → Prop) (x : Run (Running ε) φ α) (r : Running ε) : Prop where
  value : ∀ a t, x r = (.value a, t) → L r t ∧ Ok t ∧ K r.machine t.machine
  fault : ∀ e t, x r = (.fault e, t) → (L r t ∧ Ok t ∧ K r.machine t.machine) ∧ F e
  halt : ∀ w t, x r = (.halt w, t) → (Outcome.halt w : Outcome φ α).isFinal = true ∧ S r t

/-- A call of the host that keeps `K`. -/
abbrev Leads (Ok : Running ε → Prop) (L S : Running ε → Running ε → Prop)
    (K : State → State → Prop) (x : Call ε α) : Prop :=
  ∀ r, Within (fun r t => Ok r → L r t ∧ Ok t ∧ K r.machine t.machine) (fun r t => Ok r → S r t) x r

/-- A machine that runs where `Ok` holds.  Its own work, behind which no variable is missing, leads to
such runs again, and so do the calls of its host.  Listeners keep `K`, and functions `M`. -/
structure Steered (Ok : Running ε → Prop) (L S : Running ε → Running ε → Prop)
    (K M U : State → State → Prop) (cb : Callbacks ε) : Prop where
  span : Route Ok L S
  balanced : Balanced K M U
  work : ∀ {r m}, Ok r → Inner r.machine m → L r { r with machine := m } ∧ Ok { r with machine := m }
  write : ∀ text, Leads Ok L S K (cb.write text)
  report : ∀ diagnostic, Leads Ok L S K (cb.report diagnostic)
  resolve : ∀ f, cb.resolve? = some f → ∀ importer name, Leads Ok L S K (f importer name)
  load : ∀ name, Leads Ok L S K (cb.load name)
  bindClass : ∀ module className, Leads Ok L S K (cb.bindClass module className)
  bindMethod : ∀ name, Leads Ok L S K (cb.bindMethod name)
  execute : ∀ key, Leads Ok L S M (cb.execute key)
  allocate : ∀ key, Leads Ok L S M (cb.allocate key)
  contained : cb.Contained

/-- A host all of whose calls keep one relation. -/
theorem Steered.of_hosted {Ok : Running ε → Prop} {L S : Running ε → Running ε → Prop}
    {K U : State → State → Prop} {cb : Callbacks ε} (span : Route Ok L S) (balanced : Balanced K K U)
    (work : ∀ {r m}, Ok r → Inner r.machine m →
      L r { r with machine := m } ∧ Ok { r with machine := m })
    (h : Hosted (fun r t => Ok r → L r t ∧ Ok t ∧ K r.machine t.machine) (fun r t => Ok r → S r t) cb)
    (contained : cb.Contained) : Steered Ok L S K K U cb where
  span := span
  balanced := balanced
  work := work
  write := h.write
  report := h.report
  resolve := h.resolve
  load := h.load
  bindClass := h.bindClass
  bindMethod := h.bindMethod
  execute := h.execute
  allocate := h.allocate
  contained := contained

/-- What stays true on the way is true wherever the machine runs. -/
theorem Steered.along {Ok : Running ε → Prop} {L S : Running ε → Running ε → Prop}
    {K M U : State → State → Prop} {cb : Callbacks ε} (p : Steered Ok L S K M U cb)
    {P : Running ε → Prop}
    (hwork : ∀ {r m}, Ok r → Inner r.machine m → L r { r with machine := m } →
      Ok { r with machine := m } → P r → P { r with machine := m })
    (hK : ∀ {r t}, Ok r → L r t → Ok t → K r.machine t.machine → P r → P t)
    (hM : ∀ {r t}, Ok r → L r t → Ok t → M r.machine t.machine → P r → P t) :
    Steered (fun r => Ok r ∧ P r) L S K M U cb := by
  have hleads : ∀ {β : Type} {K' : State → State → Prop} {x : Call ε β},
      (∀ {r t}, Ok r → L r t → Ok t → K' r.machine t.machine → P r → P t) → Leads Ok L S K' x →
        Leads (fun r => Ok r ∧ P r) L S K' x := by
    refine fun hP hx r => (hx r).mono (fun {t} hgoes hok => ?_) fun hends hok => hends hok.1
    obtain ⟨hl, hok', hk⟩ := hgoes hok.1
    exact ⟨hl, ⟨hok', hP hok.1 hl hok' hk hok.2⟩, hk⟩
  exact
    { span := p.span.mono And.left
      balanced := p.balanced
      work := fun hok h => by
        obtain ⟨hl, hok'⟩ := p.work hok.1 h
        exact ⟨hl, hok', hwork hok.1 h hl hok' hok.2⟩
      write := fun text => hleads hK (p.write text)
      report := fun diagnostic => hleads hK (p.report diagnostic)
      resolve := fun f hf importer name => hleads hK (p.resolve f hf importer name)
      load := fun name => hleads hK (p.load name)
      bindClass := fun module className => hleads hK (p.bindClass module className)
      bindMethod := fun name => hleads hK (p.bindMethod name)
      execute := fun key => hleads hM (p.execute key)
      allocate := fun key => hleads hM (p.allocate key)
      contained := p.contained }

section

variable {Ok : Running ε → Prop} {L S : Running ε → Running ε → Prop} {K M U : State → State → Prop}
  {F : φ → Prop} {cb : Callbacks ε} {r : Running ε}

theorem Lasting.mono {K' : State → State → Prop} {F' : φ → Prop} {x : Run (Running ε) φ α}
    (h : Lasting Ok L S K F x r) (hK : ∀ {t}, K r.machine t → K' r.machine t)
    (hF : ∀ e, F e → F' e) : Lasting Ok L S K' F' x r where
  value a t hx := by
    obtain ⟨hl, hok, hk⟩ := h.value a t hx
    exact ⟨hl, hok, hK hk⟩
  fault e t hx := by
    obtain ⟨⟨hl, hok, hk⟩, he⟩ := h.fault e t hx
    exact ⟨⟨hl, hok, hK hk⟩, hF e he⟩
  halt := h.halt

/-- What the kept relation brings along holds behind the work. -/
theorem Lasting.along {x : Run (Running ε) φ α} (h : Lasting Ok L S K F x r) {P : State → Prop}
    (hP : ∀ t, K r.machine t → P t) : Lasting (fun r => Ok r ∧ P r.machine) L S K F x r where
  value a t hx := by
    obtain ⟨hl, hok, hk⟩ := h.value a t hx
    exact ⟨hl, ⟨hok, hP _ hk⟩, hk⟩
  fault e t hx := by
    obtain ⟨⟨hl, hok, hk⟩, he⟩ := h.fault e t hx
    exact ⟨⟨hl, ⟨hok, hP _ hk⟩, hk⟩, he⟩
  halt := h.halt

/-- Work that ends in one step. -/
theorem Lasting.of_value {x : Run (Running ε) φ α} {a : α} {t : Running ε}
    (hx : x r = (.value a, t)) (h : L r t ∧ Ok t ∧ K r.machine t.machine) :
    Lasting Ok L S K F x r := by
  refine ⟨fun b u hu => ?_, fun e u hu => ?_, fun w u hu => ?_⟩
  · cases hx.symm.trans hu
    exact h
  · exact absurd (congrArg Prod.fst (hx.symm.trans hu)) (by simp)
  · exact absurd (congrArg Prod.fst (hx.symm.trans hu)) (by simp)

theorem Lasting.of_fault {x : Run (Running ε) φ α} {e : φ} {t : Running ε}
    (hx : x r = (.fault e, t)) (h : L r t ∧ Ok t ∧ K r.machine t.machine) (he : F e) :
    Lasting Ok L S K F x r := by
  refine ⟨fun b u hu => ?_, fun e u hu => ?_, fun w u hu => ?_⟩
  · exact absurd (congrArg Prod.fst (hx.symm.trans hu)) (by simp)
  · cases hx.symm.trans hu
    exact ⟨h, he⟩
  · exact absurd (congrArg Prod.fst (hx.symm.trans hu)) (by simp)

theorem Lasting.of_halt {x : Run (Running ε) φ α} {w : Halt} {t : Running ε}
    (hx : x r = (.halt w, t)) (hw : (Outcome.halt w : Outcome φ α).isFinal = true) (h : S r t) :
    Lasting Ok L S K F x r := by
  refine ⟨fun b u hu => ?_, fun e u hu => ?_, fun w u hu => ?_⟩
  · exact absurd (congrArg Prod.fst (hx.symm.trans hu)) (by simp)
  · exact absurd (congrArg Prod.fst (hx.symm.trans hu)) (by simp)
  · cases hx.symm.trans hu
    exact ⟨hw, h⟩

/-- Work that goes on behind other work. -/
theorem lasting_bind (span : Route Ok L S) (htrans : ∀ ⦃s t u⦄, K s t → K t u → K s u)
    {x : Run (Running ε) φ α} {f : α → Run (Running ε) φ β} (hx : Lasting Ok L S K F x r)
    (hf : ∀ a t, x r = (.value a, t) → Ok t → Lasting Ok L S K F (f a) t) :
    Lasting Ok L S K F (x >>= f) r := by
  rcases hxr : x r with ⟨a | e | w, t⟩
  · obtain ⟨hl, hok, hk⟩ := hx.value a t hxr
    obtain ⟨hvalue, hfault, hhalt⟩ := hf a t hxr hok
    rcases hft : f a t with ⟨b | e | w, u⟩
    · obtain ⟨hl', hok', hk'⟩ := hvalue b u hft
      exact .of_value ((Run.bind_of_value hxr f).trans hft) ⟨span.trans hl hl', hok', htrans hk hk'⟩
    · obtain ⟨⟨hl', hok', hk'⟩, he⟩ := hfault e u hft
      refine .of_fault ((Run.bind_of_value hxr f).trans hft) ?_ he
      exact ⟨span.trans hl hl', hok', htrans hk hk'⟩
    · obtain ⟨hw, hs⟩ := hhalt w u hft
      exact .of_halt ((Run.bind_of_value hxr f).trans hft) hw (span.append hl hs)
  · obtain ⟨h, he⟩ := hx.fault e t hxr
    exact .of_fault (Run.bind_of_fault hxr f) h he
  · obtain ⟨hw, hs⟩ := hx.halt w t hxr
    exact .of_halt (Run.bind_of_halt hxr f) ((isFinal_halt w).trans hw) hs

/-- A call of the host. -/
theorem lasting_call {x : Call ε α} (hx : Leads Ok L S K x) (hc : Run.Contained x) (hok : Ok r) :
    Lasting Ok L S K (fun _ => True) x r := by
  obtain ⟨hends, hgoes⟩ := hx r
  rcases hxr : x r with ⟨a | e | w, t⟩
  · rw [hxr] at hgoes
    exact .of_value hxr (hgoes rfl hok)
  · exact e.elim
  · rw [hxr] at hends
    exact .of_halt hxr (hc r w t hxr) (hends hok)

theorem lasting_widen {x : Call ε α} (hx : Lasting Ok L S K (fun _ => True) x r) :
    Lasting Ok L S K F (x.widen : Run (Running ε) φ α) r := by
  rcases hxr : x r with ⟨a | e | w, t⟩
  · exact .of_value (by rw [Run.widen, hxr]) (hx.value a t hxr)
  · exact e.elim
  · obtain ⟨hw, hs⟩ := hx.halt w t hxr
    exact .of_halt (by rw [Run.widen, hxr]) ((isFinal_halt w).trans hw) hs

theorem lasting_attempt {ψ : Type} {G : ψ → Prop} {x : Run (Running ε) φ α}
    (hx : Lasting Ok L S K F x r) :
    Lasting Ok L S K G (x.attempt : Run (Running ε) ψ (Except φ α)) r := by
  rcases hxr : x r with ⟨a | e | w, t⟩
  · exact .of_value (Run.attempt_of_value hxr) (hx.value a t hxr)
  · exact .of_value (Run.attempt_of_fault hxr) (hx.fault e t hxr).1
  · obtain ⟨hw, hs⟩ := hx.halt w t hxr
    exact .of_halt (by rw [Run.attempt, hxr]) ((isFinal_halt w).trans hw) hs

variable (p : Steered Ok L S K M U cb) (hok : Ok r)
include p hok

theorem lasting_pure (a : α) : Lasting Ok L S K F (pure a : Run (Running ε) φ α) r :=
  .of_value rfl ⟨p.span.refl r, hok, p.balanced.refl r.machine⟩

theorem lasting_fault {e : φ} (he : F e) :
    Lasting Ok L S K F (Run.fault e : Run (Running ε) φ α) r :=
  .of_fault rfl ⟨p.span.refl r, hok, p.balanced.refl r.machine⟩ he

theorem lasting_machine : Lasting Ok L S K F (machine : Run (Running ε) φ State) r :=
  .of_value rfl ⟨p.span.refl r, hok, p.balanced.refl r.machine⟩

theorem lasting_own {f : State → State} (hf : Own r.machine (f r.machine)) :
    Lasting Ok L S K F (update f : Run (Running ε) φ Unit) r := by
  obtain ⟨hl, hok'⟩ := p.work hok hf.inner
  exact .of_value rfl ⟨hl, hok', p.balanced.own hf⟩

theorem lasting_pin (values : List Value) :
    Lasting Ok L S U F
      (update fun s => { s with pins := values ++ s.pins } : Run (Running ε) φ Unit) r := by
  obtain ⟨hl, hok'⟩ := p.work hok (r.machine.inner_pin (values ++ r.machine.pins))
  exact .of_value rfl ⟨hl, hok', p.balanced.pin r.machine values⟩

omit hok in
/-- Pins are forgotten behind a value and behind a fault. -/
theorem lasting_withPins {F : Fault → Prop} {x : Eval ε α} (hx : Lasting Ok L S U F x r) :
    Lasting Ok L S K F (withPins x) r := by
  have hforget : ∀ t, L r t ∧ Ok t ∧ U r.machine t.machine →
      let t' : Running ε := { t with machine := t.machine.unpinTo r.machine.pins.length }
      L r t' ∧ Ok t' ∧ K r.machine t'.machine := by
    rintro t ⟨hl, hok', hu⟩
    obtain ⟨hl', hok''⟩ := p.work hok'
      (t.machine.inner_pin (t.machine.unpinTo r.machine.pins.length).pins)
    exact ⟨p.span.trans hl hl', hok'', p.balanced.unpin hu⟩
  have hrun : withPins x r = x.andFinally
      (fun t => { t with machine := t.machine.unpinTo r.machine.pins.length }) r := rfl
  rcases hxr : x r with ⟨a | e | w, t⟩
  · rw [Run.andFinally, hxr] at hrun
    exact .of_value hrun (hforget t (hx.value a t hxr))
  · rw [Run.andFinally, hxr] at hrun
    obtain ⟨h, he⟩ := hx.fault e t hxr
    exact .of_fault hrun (hforget t h) he
  · rw [Run.andFinally, hxr] at hrun
    obtain ⟨hw, hs⟩ := hx.halt w t hxr
    exact .of_halt hrun hw hs

/-- The frame of a host function is left behind it. -/
theorem lasting_callForeign {F : Fault → Prop} (hF : ∀ text, F (.runtime (.aborted text)))
    {function : Call ε Unit} (hf : Leads Ok L S M function) (hc : Run.Contained function)
    (frame : List Value) : Lasting Ok L S K F (callForeign function frame) r := by
  obtain ⟨hl, hentered⟩ := p.work hok (r.machine.inner_enterFrame frame)
  have hrun : Lasting Ok L S M (fun _ => True) function (r.entered frame) :=
    lasting_call hf hc hentered
  rcases hxr : function (r.entered frame) with ⟨_ | e | w, t⟩
  · obtain ⟨hl', hok', hm⟩ := hrun.value () t hxr
    obtain ⟨hl'', hleft⟩ := p.work hok' t.machine.inner_leaveFrame
    have hend : L r { t with machine := t.machine.leaveFrame } ∧
        Ok { t with machine := t.machine.leaveFrame } ∧ K r.machine t.machine.leaveFrame :=
      ⟨p.span.trans (p.span.trans hl hl') hl'', hleft, p.balanced.call hm⟩
    have hcall := callForeign_of_value hxr
    cases hanswer : t.machine.answer with
    | value v => exact .of_value (by rw [hcall, hanswer]) hend
    | fault e =>
      refine .of_fault (by rw [hcall, hanswer]) hend ?_
      unfold State.answer at hanswer
      split at hanswer
      · exact absurd hanswer (by simp)
      · exact absurd hanswer (by simp)
      · cases hanswer
        exact hF _
    | halt w =>
      unfold State.answer at hanswer
      split at hanswer <;> exact absurd hanswer (by simp)
  · exact e.elim
  · obtain ⟨hw, hs⟩ := hrun.halt w t hxr
    exact .of_halt (callForeign_of_halt hxr) ((isFinal_halt w).trans hw) (p.span.append hl hs)

omit p in
/-- A host call in the middle of an evaluation. -/
theorem lasting_host {x : Call ε α} (hx : Leads Ok L S K x) (hc : Run.Contained x) :
    Lasting Ok L S K F (x.widen : Run (Running ε) φ α) r :=
  lasting_widen (lasting_call hx hc hok)

theorem lasting_resolveModule {F : Fault → Prop}
    (hF : ∀ name importer, F (.runtime (.unresolvedModule name importer))) (importer name : String) :
    Lasting Ok L S K F (resolveModule cb importer name) r := by
  unfold resolveModule
  split
  · exact lasting_pure p hok _
  · next f hres =>
    refine lasting_bind p.span p.balanced.trans (lasting_host hok (p.resolve f hres _ _)
      (p.contained.resolve f hres _ _)) fun resolved t _ hok' => ?_
    split
    · exact lasting_pure p hok' _
    · exact lasting_fault p hok' (hF _ _)

omit hok in
theorem lasting_recover {F : Fault → Prop} {x : Eval ε Unit} {refused : CompileError → Eval ε Unit}
    (hx : Lasting Ok L S K F x r)
    (hrefused : ∀ e t, Ok t → Lasting Ok L S K F (refused e) t) :
    Lasting Ok L S K F (recover x refused) r := by
  rcases hxr : x r with ⟨⟨⟩ | e | w, t⟩
  · exact .of_value (Run.bind_of_value (Run.attempt_of_value hxr) _) (hx.value () t hxr)
  · obtain ⟨⟨hl, hok', hk⟩, he⟩ := hx.fault e t hxr
    cases e with
    | compile e =>
      refine lasting_bind p.span p.balanced.trans
        (.of_value (Run.attempt_of_fault hxr) ⟨hl, hok', hk⟩) fun result u hu hok'' => ?_
      cases (Run.attempt_of_fault hxr).symm.trans hu
      exact hrefused e t hok''
    | runtime e =>
      exact .of_fault (Run.bind_of_value (Run.attempt_of_fault hxr) _) ⟨hl, hok', hk⟩ he
  · obtain ⟨hw, hs⟩ := hx.halt w t hxr
    have hattempt : (x.attempt : Eval ε (Except Fault Unit)) r = (.halt w, t) := by
      rw [Run.attempt, hxr]
    exact .of_halt (Run.bind_of_halt hattempt _) hw hs

end

/-! ## Evaluations and runs -/

theorem readVariable_of_some {module name : String} {r : Running ε} {v : Value}
    (h : r.machine.lookup? module name = some v) : readVariable module name r = (.value v, r) := by
  unfold readVariable
  rw [machine_bind, h]
  rfl

theorem readVariable_of_none {module name : String} {r : Running ε}
    (h : r.machine.lookup? module name = none) :
    readVariable module name r = (.fault (.runtime (.undefinedVariable name)), r) := by
  unfold readVariable
  rw [machine_bind, h]
  rfl

section

variable {Ok : Running ε → Prop} {L S : Running ε → Running ε → Prop} {K M U : State → State → Prop}
  {cb : Callbacks ε} (p : Steered Ok L S K M U cb)
include p

/-- **Evaluation keeps what its host keeps**, and fails with the errors in `F` only.  Where `reads`
allows it to read a variable, the variable is defined, or its absence is one of these errors. -/
theorem paired_lasting {F : Fault → Prop} {reads : String → String → Prop}
    (hF : ∀ e, (∀ name, e ≠ .undefinedVariable name) → F (.runtime e))
    (hreads : ∀ module name, reads module name → ∀ r, Ok r →
      (r.machine.lookup? module name).isSome ∨ F (.runtime (.undefinedVariable name))) :
    Paired (fun _ x _ => ∀ r, Ok r → Lasting Ok L S K F x r)
      (fun _ x _ => ∀ r, Ok r → Lasting Ok L S U F x r) reads cb cb where
  pure a r hok := lasting_pure p hok a
  raise e he r hok := lasting_fault p hok (hF e he)
  bind hx hf r hok := lasting_bind p.span p.balanced.trans (hx r hok) fun a t _ => hf a t
  machine r hok := lasting_machine p hok
  own hf r hok := lasting_own p hok (hf r.machine).toOwn
  declared module name c r hok := lasting_own p hok (State.own_declare r.machine module name c)
  reading module name hread r hok := by
    have hrefl : L r r ∧ Ok r ∧ K r.machine r.machine :=
      ⟨p.span.refl r, hok, p.balanced.refl r.machine⟩
    cases hv : r.machine.lookup? module name with
    | some v => exact .of_value (readVariable_of_some hv) hrefl
    | none =>
      refine .of_fault (readVariable_of_none hv) hrefl ((hreads module name hread r hok).resolve_left ?_)
      rw [hv]
      exact Bool.false_ne_true
  pinning hx r hok := (hx r hok).mono p.balanced.pinning fun _ he => he
  bindPinning hx hf r hok := lasting_bind p.span p.balanced.transPinning (hx r hok) fun a t _ => hf a t
  pin values r hok := lasting_pin p hok values
  withPins hx r hok := lasting_withPins p (hx r hok)
  write text r hok := lasting_host hok (p.write text) (p.contained.write text)
  resolve importer name r hok := lasting_resolveModule p hok (fun _ _ => hF _ fun _ => by simp) _ _
  load name r hok := lasting_host hok (p.load name) (p.contained.load name)
  bindClass module className r hok :=
    lasting_host hok (p.bindClass module className) (p.contained.bindClass module className)
  bindMethod name r hok := lasting_host hok (p.bindMethod name) (p.contained.bindMethod name)
  execute key frame r hok :=
    lasting_callForeign p hok (fun _ => hF _ fun _ => by simp) (p.execute key)
      (p.contained.execute key) frame
  allocate key frame r hok :=
    lasting_callForeign p hok (fun _ => hF _ fun _ => by simp) (p.allocate key)
      (p.contained.allocate key) frame

theorem pairedRuns_lasting :
    PairedRuns (fun _ x _ => ∀ r, Ok r → Lasting Ok L S K (fun _ => True) x r)
      (fun _ x _ => ∀ r, Ok r → Lasting Ok L S U (fun _ => True) x r) cb cb where
  toPaired := paired_lasting p (fun _ _ => trivial) fun _ _ _ _ _ => Or.inr trivial
  refuse _ _ hok := lasting_fault p hok trivial
  exhausted _ hok := .of_halt rfl rfl (p.span.stop hok)
  report diagnostic _ hok := lasting_host hok (p.report diagnostic) (p.contained.report diagnostic)
  recover hx hrefused r hok := lasting_recover p (hx r hok) hrefused

variable {r : Running ε} (hok : Ok r)
include hok

theorem lasting_reportRuntime (message : String) :
    Lasting Ok L S K (fun _ => True) (reportRuntime cb message) r := by
  unfold reportRuntime
  refine lasting_bind p.span p.balanced.trans
    (lasting_call (p.report _) (p.contained.report _) hok) fun _ t _ hok => ?_
  refine lasting_bind p.span p.balanced.trans (lasting_machine p hok) fun _ t _ hok => ?_
  exact lasting_call (p.report _) (p.contained.report _) hok

/-- **A run of a program keeps what its host keeps**, however it ends. -/
theorem lasting_interpret (depth : Nat) (module source : String) :
    Lasting Ok L S K (fun _ => True) (interpret cb depth module source) r := by
  have hrun := paired_runModule (pairedRuns_lasting p).assembled depth module source r hok
  unfold interpret
  refine lasting_bind p.span p.balanced.trans (lasting_attempt hrun) fun result t _ hok => ?_
  split
  · exact lasting_pure p hok _
  · refine lasting_bind p.span p.balanced.trans (lasting_call (p.report _) (p.contained.report _) hok)
      fun _ t _ hok => lasting_pure p hok _
  · refine lasting_bind p.span p.balanced.trans (lasting_reportRuntime p hok _)
      fun _ t _ hok => lasting_pure p hok _

/-- An invocation by the host keeps what its calls of the host keep. -/
theorem lasting_invoke (signature : String) (frame : List Value) :
    Lasting Ok L S K (fun _ => True) (invoke cb signature frame) r :=
  paired_invoke (pairedRuns_lasting p).toPaired signature frame r hok

end

/-! ## Calls of methods by the host -/

/-- What has become of a call by the host: the value of the method is in the first slot, in the end,
or there is none.  `K` holds up to the value, and to the end if there is none. -/
structure Called (Ok : Running ε → Prop) (L S : Running ε → Running ε → Prop)
    (K : State → State → Prop) (cb : Callbacks ε) (address : Nat) (r : Running ε)
    (ended : Outcome Empty InterpretResult × Running ε) : Prop where
  success : ended.1 = .value .success → ∃ signature arity v u,
    r.machine.handles.find? address = some (.method signature arity) ∧
    invoke cb signature (r.machine.slots.take (arity + 1)) r.called = (.value v, u) ∧
    (L r u ∧ Ok u ∧ K r.machine u.machine) ∧ ended.2 = { u with machine := u.machine.setSlot 0 v }
  failure : ∀ result, ended.1 = .value result → result ≠ .success →
    L r ended.2 ∧ Ok ended.2 ∧ K r.machine ended.2.machine
  halt : ∀ w, ended.1 = .halt w →
    (Outcome.halt w : Outcome Empty Unit).isFinal = true ∧ S r ended.2

section

variable {Ok : Running ε → Prop} {L S : Running ε → Running ε → Prop} {K M U : State → State → Prop}
  {cb : Callbacks ε} {address : Nat} {r : Running ε}

/-- A call without a value. -/
theorem Called.of_lasting {x : Call ε InterpretResult} {s : Running ε}
    (h : Lasting Ok L S K (fun _ => True) x s) (hne : (x s).1 ≠ .value .success) (span : Route Ok L S)
    (htrans : ∀ ⦃s t u⦄, K s t → K t u → K s u) (hl : L r s) (hk : K r.machine s.machine) :
    Called Ok L S K cb address r (x s) := by
  refine ⟨fun hsuccess => absurd hsuccess hne, fun result hresult _ => ?_, fun w hw => ?_⟩
  · obtain ⟨hl', hok', hk'⟩ := h.value result (x s).2 (Prod.ext hresult rfl)
    exact ⟨span.trans hl hl', hok', htrans hk hk'⟩
  · obtain ⟨hfinal, hs⟩ := h.halt w (x s).2 (Prod.ext hw rfl)
    exact ⟨(isFinal_halt w).trans hfinal, span.append hl hs⟩

variable (p : Steered Ok L S K M U cb) (hok : Ok r)
include p hok

/-- A call that is reported as a failure has no value. -/
theorem lasting_reported (message : String) :
    let x : Call ε InterpretResult := do
      reportRuntime cb message
      return .runtimeError
    Lasting Ok L S K (fun _ => True) x r ∧ (x r).1 ≠ .value .success := by
  intro x
  refine ⟨lasting_bind p.span p.balanced.trans (lasting_reportRuntime p hok message)
    fun _ t _ hok => lasting_pure p hok _, fun hsuccess => ?_⟩
  have hx : x r = (.value .success, (x r).2) := Prod.ext hsuccess rfl
  obtain ⟨_, u, -, hu⟩ := Run.value_of_bind hx
  exact absurd (congrArg Prod.fst hu) (by simp [Pure.pure, Run.pure])

/-- **A call of a method keeps what its host keeps until it has its value**, which goes into the
first slot.  A call that fails keeps it to the end. -/
theorem called_callHandle (address : Nat) :
    Called Ok L S K cb address r (callHandle cb address r) := by
  have hrefl : L r r ∧ K r.machine r.machine := ⟨p.span.refl r, p.balanced.refl r.machine⟩
  have hunknown : (∀ signature arity,
      r.machine.handles.find? address ≠ some (.method signature arity)) →
      callHandle cb address r = (pure .runtimeError : Call ε InterpretResult) r := by
    intro hno
    unfold callHandle
    rw [machine_bind]
    cases hfind : r.machine.handles.find? address with
    | none => rfl
    | some target =>
      cases target with
      | value => rfl
      | method signature arity => exact absurd hfind (hno signature arity)
  by_cases hmethod : ∃ signature arity,
      r.machine.handles.find? address = some (.method signature arity)
  · obtain ⟨signature, arity, hfind⟩ := hmethod
    rw [callHandle_of_method hfind]
    by_cases hshort : r.machine.slots.length < arity + 1
    · rw [callMethod_of_short hshort]
      obtain ⟨hlasting, hne⟩ := lasting_reported p hok
        ("Not enough slots to call " ++ quote signature ++ ".")
      exact .of_lasting hlasting hne p.span p.balanced.trans hrefl.1 hrefl.2
    · rw [callMethod_of_slots (Nat.le_of_not_lt hshort)]
      have hlocate : Own r.machine r.called.machine := State.own_locate _ _
      obtain ⟨hl, hcalled⟩ := p.work hok hlocate.inner
      have hk : K r.machine r.called.machine := p.balanced.own hlocate
      have hinvoke := lasting_invoke p hcalled signature (r.machine.slots.take (arity + 1))
      rcases hrun : invoke cb signature (r.machine.slots.take (arity + 1)) r.called with
        ⟨v | e | w, u⟩
      · obtain ⟨hl', hok', hk'⟩ := hinvoke.value v u hrun
        rw [Run.bind_of_value (Run.attempt_of_value hrun)]
        refine ⟨fun _ => ⟨signature, arity, v, u, hfind, hrun,
          ⟨p.span.trans hl hl', hok', p.balanced.trans hk hk'⟩, rfl⟩, fun result hresult hne => ?_,
          fun w hw => ?_⟩
        · cases hresult
          exact absurd rfl hne
        · exact absurd hw (by simp [settleCall, Bind.bind, Run.bind, update, Run.modify, Pure.pure, Run.pure])
      · obtain ⟨⟨hl', hok', hk'⟩, -⟩ := hinvoke.fault e u hrun
        rw [Run.bind_of_value (Run.attempt_of_fault hrun)]
        obtain ⟨hlasting, hne⟩ := lasting_reported p hok' e.message
        exact .of_lasting hlasting hne p.span p.balanced.trans (p.span.trans hl hl')
          (p.balanced.trans hk hk')
      · obtain ⟨hw, hs⟩ := hinvoke.halt w u hrun
        have hattempt : ((invoke cb signature (r.machine.slots.take (arity + 1))).attempt :
            Call ε (Except Fault Value)) r.called = (.halt w, u) := by
          rw [Run.attempt, hrun]
        rw [Run.bind_of_halt hattempt]
        refine ⟨fun h => absurd h (by simp), fun _ h => absurd h (by simp), fun w' hw' => ?_⟩
        cases hw'
        exact ⟨(isFinal_halt w).trans hw, p.span.append hl hs⟩
  · rw [hunknown fun signature arity hfind => hmethod ⟨signature, arity, hfind⟩]
    exact .of_lasting (lasting_pure p hok _) (by simp [Pure.pure, Run.pure]) p.span p.balanced.trans
      hrefl.1 hrefl.2

/-- A call keeps a relation to the end that writing the first slot keeps. -/
theorem lasting_callHandle (hset : ∀ s v, K s (s.setSlot 0 v)) (address : Nat) :
    Lasting Ok L S K (fun _ => True) (callHandle cb address) r := by
  have hcalled := called_callHandle p hok address
  rcases hrun : callHandle cb address r with ⟨result | e | w, t⟩
  · rw [hrun] at hcalled
    refine .of_value hrun ?_
    by_cases hresult : result = .success
    · subst hresult
      obtain ⟨signature, arity, v, u, -, -, ⟨hl, hok', hk⟩, rfl⟩ := hcalled.success rfl
      obtain ⟨hl', hok''⟩ := p.work hok' (u.machine.inner_setSlot 0 v)
      exact ⟨p.span.trans hl hl', hok'', p.balanced.trans hk (hset u.machine v)⟩
    · exact hcalled.failure result rfl hresult
  · exact e.elim
  · rw [hrun] at hcalled
    obtain ⟨hw, hs⟩ := hcalled.halt w rfl
    exact .of_halt hrun ((isFinal_halt w).trans hw) hs

end

end ScriptHost.Machine
