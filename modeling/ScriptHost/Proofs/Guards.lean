import ScriptHost.Proofs.Evaluation
import ScriptHost.Proofs.Whole

/-!
# Runs that call their host on whole machines only

`Sure` says of a run that it leads from good states to good ones and has good values, and that the
same run with every call of the host guarded (`Callbacks.guarded`) does the same.  So no host
function is ever called on a machine that refers to an object which is not on its heap.  There is
one rule for each way to build a run; `Safe` is the common case of work behind which the pins and the
saved frames are what they were.
-/

namespace ScriptHost.Machine

open Script
open Run (Within)

variable {ε φ ψ α β : Type} {alarm : Halt}

/-! ## Guarded callbacks -/

/-- A call of the host, or an alarm instead if anything dangles. -/
def guarded (alarm : Halt) (x : Call ε α) : Call ε α := do
  if (← machine).Whole then x else Run.halt alarm

/-- Callbacks none of which is called on a machine where anything dangles.  Finalizers belong to
collections, and not to runs. -/
def Callbacks.guarded (alarm : Halt) (cb : Callbacks ε) : Callbacks ε where
  write text := Machine.guarded alarm (cb.write text)
  report diagnostic := Machine.guarded alarm (cb.report diagnostic)
  resolve? := cb.resolve?.map fun f importer name => Machine.guarded alarm (f importer name)
  load name := Machine.guarded alarm (cb.load name)
  bindClass module className := Machine.guarded alarm (cb.bindClass module className)
  bindMethod name := Machine.guarded alarm (cb.bindMethod name)
  execute key := Machine.guarded alarm (cb.execute key)
  allocate key := Machine.guarded alarm (cb.allocate key)
  finalize := cb.finalize

theorem guarded_of_whole {x : Call ε α} {r : Running ε} (h : r.machine.Whole) :
    guarded alarm x r = x r := by
  change (if r.machine.Whole then x else Run.halt _ : Call ε α) r = _
  rw [if_pos h]

/-- Callbacks that no panic leaves, apart from finalizers. -/
structure Callbacks.Contained (cb : Callbacks ε) : Prop where
  write : ∀ text, Run.Contained (cb.write text)
  report : ∀ diagnostic, Run.Contained (cb.report diagnostic)
  resolve : ∀ f, cb.resolve? = some f → ∀ importer name, Run.Contained (f importer name)
  load : ∀ name, Run.Contained (cb.load name)
  bindClass : ∀ module className, Run.Contained (cb.bindClass module className)
  bindMethod : ∀ name, Run.Contained (cb.bindMethod name)
  execute : ∀ key, Run.Contained (cb.execute key)
  allocate : ∀ key, Run.Contained (cb.allocate key)

/-! ## Runs of a careful machine -/

/-- A machine that is whole where `Ok` holds, and may then change as long as it stays whole.  Its
callbacks lead from there to such a state again, with the same pins and saved frames. -/
structure Careful (Ok : Running ε → Prop) (L S : Running ε → Running ε → Prop) (cb : Callbacks ε) :
    Prop where
  span : Route Ok L S
  whole : ∀ {r}, Ok r → r.machine.Whole
  own : ∀ {r m}, Ok r → Frame r.machine m → m.Whole →
    L r { r with machine := m } ∧ Ok { r with machine := m }
  hosted : Hosted (fun r t => Ok r → L r t ∧ Ok t ∧ State.Kept r.machine t.machine)
    (fun r t => Ok r → S r t) cb
  contained : cb.Contained

/-- From `r`, the run `x` ends as `V` says of its value and `F` of a fault, or it ends the process.
The run `y` does the same. -/
structure Sure (Ok : Running ε → Prop) (L S : Running ε → Running ε → Prop)
    (x y : Run (Running ε) φ α) (V : α → State → Prop) (F : State → Prop) (r : Running ε) :
    Prop where
  same : y r = x r
  value : ∀ a t, x r = (.value a, t) → L r t ∧ Ok t ∧ V a t.machine
  fault : ∀ e t, x r = (.fault e, t) → L r t ∧ Ok t ∧ F t.machine
  halt : ∀ w t, x r = (.halt w, t) → (Outcome.halt w : Outcome φ α).isFinal = true ∧ S r t

section

variable {Ok : Running ε → Prop} {L S : Running ε → Running ε → Prop} {cb : Callbacks ε}
  {x y : Run (Running ε) φ α} {f g : α → Run (Running ε) φ β} {r : Running ε}
  {V V' : α → State → Prop} {W : β → State → Prop} {F F' : State → Prop}

theorem Sure.mono (h : Sure Ok L S x y V F r) (hV : ∀ a t, Ok t → V a t.machine → V' a t.machine)
    (hF : ∀ t, Ok t → F t.machine → F' t.machine) : Sure Ok L S x y V' F' r where
  same := h.same
  value a t hx := by
    obtain ⟨hl, hok, hv⟩ := h.value a t hx
    exact ⟨hl, hok, hV a t hok hv⟩
  fault e t hx := by
    obtain ⟨hl, hok, hf⟩ := h.fault e t hx
    exact ⟨hl, hok, hF t hok hf⟩
  halt := h.halt

variable (c : Careful Ok L S cb) (hok : Ok r)
include c hok

theorem sure_pure {a : α} (hV : V a r.machine) :
    Sure Ok L S (pure a : Run (Running ε) φ α) (pure a) V F r := by
  refine ⟨rfl, fun a t hx => ?_, fun e t hx => ?_, fun w t hx => ?_⟩
  · cases hx
    exact ⟨c.span.refl r, hok, hV⟩
  · exact absurd (congrArg Prod.fst hx) (by simp [Pure.pure, Run.pure])
  · exact absurd (congrArg Prod.fst hx) (by simp [Pure.pure, Run.pure])

theorem sure_fault {e : φ} (hF : F r.machine) :
    Sure Ok L S (Run.fault e : Run (Running ε) φ α) (Run.fault e) V F r := by
  refine ⟨rfl, fun a t hx => ?_, fun e t hx => ?_, fun w t hx => ?_⟩
  · exact absurd (congrArg Prod.fst hx) (by simp [Run.fault])
  · cases hx
    exact ⟨c.span.refl r, hok, hF⟩
  · exact absurd (congrArg Prod.fst hx) (by simp [Run.fault])

omit hok in
/-- Work that goes on behind other work. -/
theorem sure_bind (hx : Sure Ok L S x y V F r)
    (hf : ∀ a t, Ok t → V a t.machine → Sure Ok L S (f a) (g a) W F' t)
    (hF : ∀ t, Ok t → F t.machine → F' t.machine) :
    Sure Ok L S (x >>= f) (y >>= g) W F' r := by
  rcases hxr : x r with ⟨a | e | w, t⟩
  · obtain ⟨hl, hokt, hv⟩ := hx.value a t hxr
    obtain ⟨hsame, hvalue, hfault, hhalt⟩ := hf a t hokt hv
    have hyr := hx.same.trans hxr
    refine ⟨?_, fun b u hu => ?_, fun e u hu => ?_, fun w u hu => ?_⟩
    · rw [Run.bind_of_value hxr, Run.bind_of_value hyr, hsame]
    · rw [Run.bind_of_value hxr] at hu
      obtain ⟨hl', hrest⟩ := hvalue b u hu
      exact ⟨c.span.trans hl hl', hrest⟩
    · rw [Run.bind_of_value hxr] at hu
      obtain ⟨hl', hrest⟩ := hfault e u hu
      exact ⟨c.span.trans hl hl', hrest⟩
    · rw [Run.bind_of_value hxr] at hu
      obtain ⟨hfinal, hs⟩ := hhalt w u hu
      exact ⟨hfinal, c.span.append hl hs⟩
  · obtain ⟨hl, hokt, hf⟩ := hx.fault e t hxr
    have hyr := hx.same.trans hxr
    refine ⟨?_, fun b u hu => ?_, fun e u hu => ?_, fun w u hu => ?_⟩
    · rw [Run.bind_of_fault hxr, Run.bind_of_fault hyr]
    · exact absurd (congrArg Prod.fst ((Run.bind_of_fault hxr f).symm.trans hu)) (by simp)
    · rw [Run.bind_of_fault hxr] at hu
      cases hu
      exact ⟨hl, hokt, hF t hokt hf⟩
    · exact absurd (congrArg Prod.fst ((Run.bind_of_fault hxr f).symm.trans hu)) (by simp)
  · obtain ⟨hfinal, hs⟩ := hx.halt w t hxr
    have hyr := hx.same.trans hxr
    refine ⟨?_, fun b u hu => ?_, fun e u hu => ?_, fun w u hu => ?_⟩
    · rw [Run.bind_of_halt hxr, Run.bind_of_halt hyr]
    · exact absurd (congrArg Prod.fst ((Run.bind_of_halt hxr f).symm.trans hu)) (by simp)
    · exact absurd (congrArg Prod.fst ((Run.bind_of_halt hxr f).symm.trans hu)) (by simp)
    · rw [Run.bind_of_halt hxr] at hu
      cases hu
      exact ⟨(isFinal_halt _).trans hfinal, hs⟩

omit c hok in
theorem sure_machine {f g : State → Run (Running ε) φ β} {F : State → Prop}
    (h : Sure Ok L S (f r.machine) (g r.machine) W F r) :
    Sure Ok L S (machine >>= f) (machine >>= g) W F r :=
  ⟨h.same, h.value, h.fault, h.halt⟩

/-- The machine changes, and stays whole. -/
theorem sure_update {f : State → State} {k k' : Unit → Run (Running ε) φ β}
    (hf : Frame r.machine (f r.machine)) (hw : (f r.machine).Whole)
    (h : Ok { r with machine := f r.machine } →
      Sure Ok L S (k ()) (k' ()) W F { r with machine := f r.machine }) :
    Sure Ok L S (update f >>= k) (update f >>= k') W F r := by
  obtain ⟨hl, hok'⟩ := c.own hok hf hw
  obtain ⟨hsame, hvalue, hfault, hhalt⟩ := h hok'
  refine ⟨hsame, fun b u hu => ?_, fun e u hu => ?_, fun w u hu => ?_⟩
  · obtain ⟨hl', hrest⟩ := hvalue b u hu
    exact ⟨c.span.trans hl hl', hrest⟩
  · obtain ⟨hl', hrest⟩ := hfault e u hu
    exact ⟨c.span.trans hl hl', hrest⟩
  · obtain ⟨hfinal, hs⟩ := hhalt w u hu
    exact ⟨hfinal, c.span.append hl hs⟩

/-- An object is allocated. -/
theorem sure_alloc {o : Object} {k k' : ObjectId → Run (Running ε) φ β}
    (ho : Heap.isBare o = true) (hrefs : ∀ id ∈ o.references, id ∈ r.machine.heap.objects.keys)
    (h : Ok { r with machine := (r.machine.alloc o).2 } →
      (r.machine.alloc o).2.heap.Holds (.object (r.machine.alloc o).1) →
        Sure Ok L S (k (r.machine.alloc o).1) (k' (r.machine.alloc o).1) W F
          { r with machine := (r.machine.alloc o).2 }) :
    Sure Ok L S (updateGet (fun s => s.alloc o) >>= k) (updateGet (fun s => s.alloc o) >>= k') W F
      r := by
  obtain ⟨hwhole, hholds⟩ := (c.whole hok).alloc hrefs
  have hupdate : Sure Ok L S
      (update (fun s => (s.alloc o).2) >>= fun _ => k (r.machine.alloc o).1)
      (update (fun s => (s.alloc o).2) >>= fun _ => k' (r.machine.alloc o).1) W F r :=
    sure_update c hok (State.frame_alloc _ ho) hwhole fun hok' => h hok' hholds
  exact ⟨hupdate.same, hupdate.value, hupdate.fault, hupdate.halt⟩

/-- The last change of the machine. -/
theorem sure_last {f : State → State} {P : State → Prop} (hf : Frame r.machine (f r.machine))
    (hw : (f r.machine).Whole) (hP : P (f r.machine)) :
    Sure Ok L S (update f : Run (Running ε) φ Unit) (update f) (fun _ m => P m) F r := by
  have hupdate : Sure Ok L S (update f >>= fun u => (pure u : Run (Running ε) φ Unit))
      (update f >>= fun u => pure u) (fun _ m => P m) F r :=
    sure_update c hok hf hw fun hok' => sure_pure c hok' hP
  rwa [bind_pure] at hupdate

/-- A call of the host, guarded or not. -/
theorem sure_call {x : Call ε α} {F : State → Prop}
    (hx : ∀ r, Within (fun r t => Ok r → L r t ∧ Ok t ∧ State.Kept r.machine t.machine)
      (fun r t => Ok r → S r t) x r) (hcont : Run.Contained x) :
    Sure Ok L S x (guarded alarm x) (fun _ m => State.Kept r.machine m) F r := by
  obtain ⟨hends, hgoes⟩ := hx r
  refine ⟨guarded_of_whole (c.whole hok), fun a t hxr => ?_, fun e => e.elim, fun w t hxr => ?_⟩
  · rw [hxr] at hgoes
    exact hgoes rfl hok
  · rw [hxr] at hends
    exact ⟨hcont r w t hxr, hends hok⟩

omit c hok in
/-- A call of the host as part of an evaluation. -/
theorem sure_widen {x y : Call ε α} {F F' : State → Prop} (hx : Sure Ok L S x y V F r) :
    Sure Ok L S (x.widen : Run (Running ε) φ α) y.widen V F' r := by
  have hsame : (y.widen : Run (Running ε) φ α) r = x.widen r := by
    rw [Run.widen, Run.widen, hx.same]
  rcases hxr : x r with ⟨a | e | w, t⟩
  · have hrun : (x.widen : Run (Running ε) φ α) r = (.value a, t) := by rw [Run.widen, hxr]
    refine ⟨hsame, fun b u hu => ?_, fun e u hu => ?_, fun w u hu => ?_⟩
    · cases hrun.symm.trans hu
      exact hx.value a t hxr
    · exact absurd (congrArg Prod.fst (hrun.symm.trans hu)) (by simp)
    · exact absurd (congrArg Prod.fst (hrun.symm.trans hu)) (by simp)
  · exact e.elim
  · have hrun : (x.widen : Run (Running ε) φ α) r = (.halt w, t) := by rw [Run.widen, hxr]
    refine ⟨hsame, fun b u hu => ?_, fun e u hu => ?_, fun w u hu => ?_⟩
    · exact absurd (congrArg Prod.fst (hrun.symm.trans hu)) (by simp)
    · exact absurd (congrArg Prod.fst (hrun.symm.trans hu)) (by simp)
    · cases hrun.symm.trans hu
      obtain ⟨hfinal, hs⟩ := hx.halt w t hxr
      exact ⟨(isFinal_halt w).trans hfinal, hs⟩

/-- A call of the host as part of an evaluation, guarded or not. -/
theorem sure_host {x : Call ε α}
    (hx : ∀ r, Within (fun r t => Ok r → L r t ∧ Ok t ∧ State.Kept r.machine t.machine)
      (fun r t => Ok r → S r t) x r) (hcont : Run.Contained x) :
    Sure Ok L S (x.widen : Run (Running ε) φ α) (guarded alarm x).widen
      (fun _ m => State.Kept r.machine m) F r :=
  sure_widen (F := fun _ => True) (sure_call c hok hx hcont)

omit c hok in
/-- A fault is kept as a value. -/
theorem sure_attempt {F' : State → Prop} (hx : Sure Ok L S x y V F r) :
    Sure Ok L S (x.attempt : Run (Running ε) ψ (Except φ α)) y.attempt
      (fun result m => (∃ a, result = .ok a ∧ V a m) ∨ (∃ e, result = .error e) ∧ F m) F' r := by
  have hsame : (y.attempt : Run (Running ε) ψ (Except φ α)) r = x.attempt r := by
    rw [Run.attempt, Run.attempt, hx.same]
  refine ⟨hsame, fun b u hu => ?_, fun e u hu => ?_, fun w u hu => ?_⟩
  · rcases hxr : x r with ⟨a | e | w, t⟩
    · cases (Run.attempt_of_value hxr).symm.trans hu
      obtain ⟨hl, hokt, hv⟩ := hx.value a u hxr
      exact ⟨hl, hokt, Or.inl ⟨a, rfl, hv⟩⟩
    · cases (Run.attempt_of_fault hxr).symm.trans hu
      obtain ⟨hl, hokt, hf⟩ := hx.fault e u hxr
      exact ⟨hl, hokt, Or.inr ⟨⟨e, rfl⟩, hf⟩⟩
    · rw [Run.attempt, hxr] at hu
      exact absurd (congrArg Prod.fst hu) (by simp)
  · exact absurd hu (Run.attempt_ne_fault x r u e)
  · rcases hxr : x r with ⟨a | e | w', t⟩
    · exact absurd (congrArg Prod.fst ((Run.attempt_of_value hxr).symm.trans hu)) (by simp)
    · exact absurd (congrArg Prod.fst ((Run.attempt_of_fault hxr).symm.trans hu)) (by simp)
    · rw [Run.attempt, hxr] at hu
      cases hu
      obtain ⟨hfinal, hs⟩ := hx.halt w u hxr
      exact ⟨(isFinal_halt w).trans hfinal, hs⟩

end

/-! ## Safe work -/

/-- Work behind which the pins and the saved frames are what they were. -/
abbrev Safe (Ok : Running ε → Prop) (L S : Running ε → Running ε → Prop)
    (x y : Run (Running ε) φ α) (r : Running ε) : Prop :=
  Sure Ok L S x y (fun _ m => State.Kept r.machine m) (State.Kept r.machine) r

section

variable {Ok : Running ε → Prop} {L S : Running ε → Running ε → Prop} {cb : Callbacks ε}
  (c : Careful Ok L S cb) {r : Running ε}
include c

/-- Safe work goes on behind work that gives a value. -/
theorem safe_bind {x y : Run (Running ε) φ α} {f g : α → Run (Running ε) φ β}
    {P : α → Heap → Prop}
    (hx : Sure Ok L S x y (fun a m => State.Kept r.machine m ∧ P a m.heap) (State.Kept r.machine) r)
    (hf : ∀ a t, Ok t → P a t.machine.heap → Safe Ok L S (f a) (g a) t) :
    Safe Ok L S (x >>= f) (y >>= g) r := by
  refine sure_bind c hx (fun a t hokt hv => ?_) fun _ _ h => h
  exact (hf a t hokt hv.2).mono (fun _ _ _ h => hv.1.trans h) fun _ _ h => hv.1.trans h

/-- Safe work goes on behind safe work. -/
theorem safe_seq {x y : Run (Running ε) φ α} {f g : α → Run (Running ε) φ β}
    (hx : Safe Ok L S x y r) (hf : ∀ a t, Ok t → Safe Ok L S (f a) (g a) t) :
    Safe Ok L S (x >>= f) (y >>= g) r := by
  refine sure_bind c hx (fun a t hokt hkept => ?_) fun _ _ h => h
  exact (hf a t hokt).mono (fun _ _ _ h => hkept.trans h) fun _ _ h => hkept.trans h

theorem safe_pure (hok : Ok r) (a : α) :
    Safe Ok L S (pure a : Run (Running ε) φ α) (pure a) r :=
  sure_pure c hok (.refl _)

theorem safe_fault (hok : Ok r) (e : φ) :
    Safe Ok L S (Run.fault e : Run (Running ε) φ α) (Run.fault e) r :=
  sure_fault c hok (.refl _)

omit c in
/-- Whether safe work fails or not can be seen. -/
theorem safe_attempt {x y : Run (Running ε) φ α} (hx : Safe Ok L S x y r) :
    Safe Ok L S (x.attempt : Run (Running ε) ψ (Except φ α)) y.attempt r :=
  (sure_attempt hx).mono (fun _ _ _ h => h.elim (fun ⟨_, _, hk⟩ => hk) And.right) fun _ _ h => h

/-- Safe work goes on behind a change of the machine. -/
theorem safe_update (hok : Ok r) {f : State → State} {k k' : Unit → Run (Running ε) φ β}
    (hf : Frame r.machine (f r.machine)) (hw : (f r.machine).Whole)
    (hk : State.Kept r.machine (f r.machine))
    (h : ∀ t, Ok t → Safe Ok L S (k ()) (k' ()) t) :
    Safe Ok L S (update f >>= k) (update f >>= k') r :=
  safe_seq c (sure_last c hok hf hw hk) fun _ t hokt => h t hokt

end

end ScriptHost.Machine
