import ScriptHost.Proofs.Guards

/-!
# Values in use survive collections

A running evaluation holds values that are in no variable and in no list yet.  It pins them, and the
slots around a host function are saved, so that a collection during a callback finds them.  The
proofs follow the evaluation: before every callback all values that are needed behind it are roots,
and behind every callback the pins and the saved frames are what they were before it.
-/

namespace ScriptHost.Machine

open Script
open Run (Within)

variable {ε φ ψ α β : Type} {alarm : Halt}

/-! ## Pins -/

/-- Values may have been pinned above those of `m`. -/
structure State.Above (m m' : State) : Prop where
  pins : ∃ extra, m'.pins = extra ++ m.pins
  savedFrames : m'.savedFrames = m.savedFrames

theorem State.Kept.above {m m' : State} (h : State.Kept m m') : State.Above m m' :=
  ⟨⟨[], h.pins⟩, h.savedFrames⟩

theorem State.Above.trans {m₁ m₂ m₃ : State} (h : State.Above m₁ m₂) (h' : State.Above m₂ m₃) :
    State.Above m₁ m₃ := by
  obtain ⟨extra, hpins⟩ := h.pins
  obtain ⟨extra', hpins'⟩ := h'.pins
  refine ⟨⟨extra' ++ extra, ?_⟩, h'.savedFrames.trans h.savedFrames⟩
  rw [hpins', hpins, List.append_assoc]

/-- What was pinned above is forgotten again. -/
theorem State.Above.unpinTo {m m' : State} (h : State.Above m m') :
    m'.unpinTo m.pins.length = { m' with pins := m.pins } := by
  obtain ⟨extra, hpins⟩ := h.pins
  have hdrop : m'.pins.drop (m'.pins.length - m.pins.length) = m.pins := by
    rw [hpins, List.length_append, Nat.add_sub_cancel, List.drop_left]
  rw [State.unpinTo, hdrop]

section

variable {Ok : Running ε → Prop} {L S : Running ε → Running ε → Prop} {cb : Callbacks ε}
  (c : Careful Ok L S cb) {r : Running ε}
include c

/-- **Pins are forgotten at the end, and not before.**  `P` says what is known of the value. -/
theorem sure_withPins {x y : Eval ε α} {P : α → Heap → Prop}
    (hx : Sure Ok L S x y (fun a m => State.Above r.machine m ∧ P a m.heap)
      (State.Above r.machine) r) :
    Sure Ok L S (withPins x) (withPins y) (fun a m => State.Kept r.machine m ∧ P a m.heap)
      (State.Kept r.machine) r := by
  let last : Running ε → Running ε := fun t =>
    { t with machine := t.machine.unpinTo r.machine.pins.length }
  have hlast : ∀ t, L r t → Ok t → State.Above r.machine t.machine →
      L r (last t) ∧ Ok (last t) ∧ State.Kept r.machine (last t).machine ∧
        (last t).machine.heap = t.machine.heap := by
    intro t hl hokt habove
    obtain ⟨extra, hpins⟩ := habove.pins
    have hwhole : ({ t.machine with pins := r.machine.pins } : State).Whole := by
      refine (c.whole hokt).pin fun v hv => (c.whole hokt).pins ?_
      rw [hpins]
      exact List.mem_append_right _ hv
    obtain ⟨hl', hok'⟩ := c.own hokt (State.frame_pin _ _) hwhole
    have hunpin : last t = { t with machine := { t.machine with pins := r.machine.pins } } :=
      congrArg (fun m => ({ t with machine := m } : Running ε)) habove.unpinTo
    rw [hunpin]
    exact ⟨c.span.trans hl hl', hok', ⟨rfl, habove.savedFrames⟩, rfl⟩
  have hrun : withPins x r = x.andFinally last r := rfl
  have hrun' : withPins y r = y.andFinally last r := rfl
  have hsame : withPins y r = withPins x r := by
    rw [hrun, hrun', Run.andFinally, Run.andFinally, hx.same]
  rcases hxr : x r with ⟨b | d | v, u⟩
  · obtain ⟨hl, hokt, habove, hP⟩ := hx.value b u hxr
    obtain ⟨hl', hok', hkept, hheap⟩ := hlast u hl hokt habove
    have hend : withPins x r = (.value b, last u) := by rw [hrun, Run.andFinally, hxr]
    refine ⟨hsame, fun a t ht => ?_, fun e t ht => ?_, fun w t ht => ?_⟩
    · cases hend.symm.trans ht
      exact ⟨hl', hok', hkept, hheap ▸ hP⟩
    · exact absurd (congrArg Prod.fst (hend.symm.trans ht)) (by simp)
    · exact absurd (congrArg Prod.fst (hend.symm.trans ht)) (by simp)
  · obtain ⟨hl, hokt, habove⟩ := hx.fault d u hxr
    obtain ⟨hl', hok', hkept, -⟩ := hlast u hl hokt habove
    have hend : withPins x r = (.fault d, last u) := by rw [hrun, Run.andFinally, hxr]
    refine ⟨hsame, fun a t ht => ?_, fun e t ht => ?_, fun w t ht => ?_⟩
    · exact absurd (congrArg Prod.fst (hend.symm.trans ht)) (by simp)
    · cases hend.symm.trans ht
      exact ⟨hl', hok', hkept⟩
    · exact absurd (congrArg Prod.fst (hend.symm.trans ht)) (by simp)
  · have hend : withPins x r = (.halt v, u) := by rw [hrun, Run.andFinally, hxr]
    refine ⟨hsame, fun a t ht => ?_, fun e t ht => ?_, fun w t ht => ?_⟩
    · exact absurd (congrArg Prod.fst (hend.symm.trans ht)) (by simp)
    · exact absurd (congrArg Prod.fst (hend.symm.trans ht)) (by simp)
    · cases hend.symm.trans ht
      exact hx.halt v u hxr

/-- Values on the heap stay there while they are pinned. -/
theorem sure_withPinned {x y : Eval ε α} {values : List Value} {P : α → Heap → Prop} (hok : Ok r)
    (hvalues : ∀ v ∈ values, r.machine.heap.Holds v)
    (hx : ∀ r', Ok r' → (∀ v ∈ values, v ∈ r'.machine.pins) →
      Sure Ok L S x y (fun a m => State.Kept r'.machine m ∧ P a m.heap)
        (State.Kept r'.machine) r') :
    Sure Ok L S (withPinned values x) (withPinned values y)
      (fun a m => State.Kept r.machine m ∧ P a m.heap) (State.Kept r.machine) r := by
  refine sure_withPins c ?_
  have hwhole : ({ r.machine with pins := values.reverse ++ r.machine.pins } : State).Whole := by
    refine (c.whole hok).pin fun v hv => ?_
    rcases List.mem_append.1 hv with hv | hv
    · exact hvalues v (List.mem_reverse.1 hv)
    · exact (c.whole hok).pins hv
  refine sure_update c hok (State.frame_pin _ _) hwhole fun hok' => ?_
  have habove : State.Above r.machine { r.machine with pins := values.reverse ++ r.machine.pins } :=
    ⟨⟨values.reverse, rfl⟩, rfl⟩
  have hpinned := hx _ hok' fun v hv => List.mem_append_left _ (List.mem_reverse.2 hv)
  exact hpinned.mono (fun a t _ hv => ⟨habove.trans hv.1.above, hv.2⟩)
    fun t _ hk => habove.trans hk.above

/-! ## Calls of methods -/

/-- **A host function finds its frame on the heap**, and its result is on the heap. -/
theorem sure_callForeign {x : Call ε Unit}
    (hx : ∀ r, Within (fun r t => Ok r → L r t ∧ Ok t ∧ State.Kept r.machine t.machine)
      (fun r t => Ok r → S r t) x r) (hcont : Run.Contained x) (hok : Ok r) {frame : List Value}
    (hframe : ∀ v ∈ frame, r.machine.heap.Holds v) :
    Sure Ok L S (callForeign x frame) (callForeign (guarded alarm x) frame)
      (fun v m => State.Kept r.machine m ∧ m.heap.Holds v) (State.Kept r.machine) r := by
  unfold callForeign
  refine sure_update c hok (State.frame_enterFrame _ _) ((c.whole hok).enterFrame hframe) ?_
  intro hentered
  refine sure_bind c (sure_host c hentered hx hcont) (fun _ t hokt hkept => ?_) fun _ _ h => h
  -- behind the function, the frame around it is still the first one that was saved
  refine sure_machine ?_
  have hwhole := c.whole hokt
  refine sure_update c hokt (State.frame_leaveFrame _) hwhole.leaveFrame fun hleft => ?_
  have hback : State.Kept r.machine t.machine.leaveFrame := by
    refine ⟨hkept.pins, ?_⟩
    change t.machine.savedFrames.tail = r.machine.savedFrames
    rw [hkept.savedFrames]
    rfl
  have hresult : t.machine.heap.Holds (t.machine.slots.headD .null) := by
    cases hslots : t.machine.slots with
    | nil => exact t.machine.heap.holds_null
    | cons v rest =>
      refine hwhole.slots ?_
      rw [hslots]
      exact List.mem_cons_self
  split
  · exact sure_pure c hleft ⟨hback, hresult⟩
  · exact sure_pure c hleft ⟨hback, hresult⟩
  · exact sure_fault c hleft hback

omit c in
theorem mem_of_construct {h : Heap} {receiver : Value} {signature : String} {owner : ObjectId}
    (ht : h.target receiver signature = .construct owner) : owner ∈ h.objects.keys := by
  unfold Heap.target at ht
  split at ht
  · exact absurd ht (by simp)
  · next id _ =>
    split at ht
    · next cls hget =>
      have howner : owner = id := by
        unfold classTarget at ht
        split at ht
        · split at ht
          · exact absurd ht (by simp)
          · split at ht <;> exact absurd ht (by simp)
        · split at ht
          · exact absurd ht (by simp)
          · split at ht
            · split at ht
              · exact absurd ht (by simp)
              · exact (Target.construct.inj ht).symm
            · split at ht <;> exact absurd ht (by simp)
      rw [howner]
      exact Table.mem_keys_of_find? hget
    · unfold instanceTarget at ht
      split at ht <;> exact absurd ht (by simp)
    · unfold instanceTarget at ht
      split at ht <;> exact absurd ht (by simp)
    · exact absurd ht (by simp)

/-- Whether a method writes its argument and gives it back. -/
def Target.echoes : Target → Bool
  | .print | .write => true
  | _ => false

/-- The value of a method is on the heap, if the values of its frame are as long as `I` holds of the
machine, and `I` holds behind what the machine writes for the method. -/
theorem sure_invoke_of {I : State → Prop} (signature : String) {frame : List Value} (hok : Ok r)
    (hI : I r.machine) (hkept : ∀ {m}, I m → State.Kept r.machine m)
    (hheld : ∀ t, Ok t → I t.machine → ∀ v ∈ frame, t.machine.heap.Holds v)
    (hwrite : (r.machine.heap.target (frame.headD .null) signature).echoes = true →
      ∀ text t, Ok t → I t.machine → Sure Ok L S (cb.write text) (guarded alarm (cb.write text))
        (fun _ m => I m) (fun _ => True) t) :
    Sure Ok L S (invoke cb signature frame) (invoke (cb.guarded alarm) signature frame)
      (fun v m => State.Kept r.machine m ∧ m.heap.Holds v) (State.Kept r.machine) r := by
  have hargument : ∀ t, Ok t → I t.machine → t.machine.heap.Holds (frame[1]?.getD .null) := by
    intro t hokt hIt
    cases hv : frame[1]? with
    | none => exact t.machine.heap.holds_null
    | some v => exact hheld t hokt hIt v (List.mem_of_getElem? hv)
  have hself := State.Kept.refl r.machine
  have hforeign : ∀ {x : Call ε Unit},
      (∀ r, Within (fun r t => Ok r → L r t ∧ Ok t ∧ State.Kept r.machine t.machine)
        (fun r t => Ok r → S r t) x r) → Run.Contained x →
      Sure Ok L S (callForeign x frame) (callForeign (guarded alarm x) frame)
        (fun v m => State.Kept r.machine m ∧ m.heap.Holds v) (State.Kept r.machine) r :=
    fun hx hcont => sure_callForeign c hx hcont hok (hheld r hok hI)
  unfold invoke
  refine sure_machine ?_
  cases htarget : r.machine.heap.target (frame.headD .null) signature with
  | print =>
    have hwrite := hwrite (by rw [htarget]; rfl)
    refine sure_bind c (sure_widen (hwrite _ r hok hI)) (fun _ t hokt hIt => ?_) fun _ _ h => h
    refine sure_bind c (sure_widen (hwrite _ t hokt hIt)) (fun _ u hoku hIu => ?_) fun _ _ h => h
    exact sure_pure c hoku ⟨hkept hIu, hargument u hoku hIu⟩
  | write =>
    have hwrite := hwrite (by rw [htarget]; rfl)
    refine sure_bind c (sure_widen (hwrite _ r hok hI)) (fun _ t hokt hIt => ?_) fun _ _ h => h
    exact sure_pure c hokt ⟨hkept hIt, hargument t hokt hIt⟩
  | abort => exact sure_fault c hok hself
  | construct owner =>
    refine sure_alloc c hok rfl (fun id hid => ?_) fun hok' hholds => ?_
    · rw [List.mem_singleton.1 hid]
      exact mem_of_construct htarget
    · exact sure_pure c hok' ⟨⟨rfl, rfl⟩, hholds⟩
  | constructForeign owner allocate? =>
    cases allocate? with
    | none => exact sure_fault c hok hself
    | some key =>
      refine sure_bind c (hforeign (c.hosted.allocate key) (c.contained.allocate key))
        (fun v t hokt hv => ?_) fun _ _ h => h
      refine sure_machine ?_
      split
      · exact sure_pure c hokt hv
      · exact sure_fault c hokt hv.1
  | foreign key => exact hforeign (c.hosted.execute key) (c.contained.execute key)
  | missing => exact sure_fault c hok hself

/-- **The value of a method is on the heap**, if the values of its frame are pinned. -/
theorem sure_invoke (signature : String) {frame : List Value} (hok : Ok r)
    (hframe : ∀ v ∈ frame, v ∈ r.machine.pins) :
    Sure Ok L S (invoke cb signature frame) (invoke (cb.guarded alarm) signature frame)
      (fun v m => State.Kept r.machine m ∧ m.heap.Holds v) (State.Kept r.machine) r := by
  refine sure_invoke_of c (I := State.Kept r.machine) signature hok (.refl _) id
    (fun t hokt hkept v hv => ?_) fun _ text t hokt hkept => ?_
  · refine (c.whole hokt).pins ?_
    rw [hkept.pins]
    exact hframe v hv
  · refine Sure.mono (F := fun _ => True) (sure_call c hokt (c.hosted.write text)
      (c.contained.write text)) (fun _ _ _ h => hkept.trans h) fun _ _ h => h

/-! ## Expressions -/

mutual

/-- **The value of an expression is on the heap.** -/
theorem sure_eval (module : String) : ∀ (e : Expr) {r : Running ε}, Ok r →
    Sure Ok L S (eval cb module e) (eval (cb.guarded alarm) module e)
      (fun v m => State.Kept r.machine m ∧ m.heap.Holds v) (State.Kept r.machine) r
  | .null, r, hok => by
    rw [eval, eval]
    exact sure_pure c hok ⟨.refl _, Heap.holds_of_none rfl⟩
  | .bool b, r, hok => by
    rw [eval, eval]
    exact sure_pure c hok ⟨.refl _, Heap.holds_of_none rfl⟩
  | .number x, r, hok => by
    rw [eval, eval]
    exact sure_pure c hok ⟨.refl _, Heap.holds_of_none rfl⟩
  | .text s, r, hok => by
    rw [eval, eval]
    exact sure_pure c hok ⟨.refl _, Heap.holds_of_none rfl⟩
  | .variable name _, r, hok => by
    rw [eval, eval]
    refine sure_machine ?_
    split
    · next v hv => exact sure_pure c hok ⟨.refl _, (c.whole hok).lookup? hv⟩
    · exact sure_fault c hok (.refl _)
  | .list items, r, hok => by
    rw [eval, eval]
    have hitems : Sure Ok L S (evalAll cb module items) (evalAll (cb.guarded alarm) module items)
        (fun vs m => State.Above r.machine m ∧ ∀ v ∈ vs, m.heap.Holds v)
        (State.Above r.machine) r := by
      refine (sure_evalAll module items hok).mono (fun vs t hokt hvs => ?_) fun _ _ h => h
      refine ⟨⟨⟨_, hvs.1⟩, hvs.2⟩, fun v hv => (c.whole hokt).pins ?_⟩
      rw [hvs.1]
      exact List.mem_append_left _ (List.mem_reverse.2 hv)
    refine sure_bind c (sure_withPins c (P := fun vs h => ∀ v ∈ vs, h.Holds v) hitems)
      (fun vs t hokt hvs => ?_) fun _ _ h => h
    -- no callback comes between the last use of the pins and the allocation
    refine sure_alloc c hokt rfl (Heap.references_list.2 hvs.2) fun hok' hholds => ?_
    exact sure_pure c hok' ⟨hvs.1.trans ⟨rfl, rfl⟩, hholds⟩
  | .getter receiver name, r, hok => by
    rw [eval, eval]
    refine sure_bind c (sure_withPins c (P := fun frame h => ∀ v ∈ frame, h.Holds v) ?_)
      (fun frame t hokt hframe => ?_) fun _ _ h => h
    · refine sure_bind c (sure_evalPinned module receiver hok) (fun v t hokt hv => ?_)
        fun _ _ h => h.above
      refine sure_pure c hokt ⟨⟨⟨[v], hv.1⟩, hv.2⟩, fun u hu => (c.whole hokt).pins ?_⟩
      rw [List.mem_singleton.1 hu, hv.1]
      exact List.mem_cons_self
    · refine Sure.mono (sure_withPinned c (P := fun v h => h.Holds v) hokt hframe.2 ?_)
        (fun _ _ _ h => ⟨hframe.1.trans h.1, h.2⟩) fun _ _ h => hframe.1.trans h
      exact fun r' hok' hpinned => sure_invoke c _ hok' hpinned
  | .call receiver name arguments, r, hok => by
    rw [eval, eval]
    refine sure_bind c (sure_withPins c (P := fun frame h => ∀ v ∈ frame, h.Holds v) ?_)
      (fun frame t hokt hframe => ?_) fun _ _ h => h
    · refine sure_bind c (sure_evalPinned module receiver hok) (fun v t hokt hv => ?_)
        fun _ _ h => h.above
      have hfirst : State.Above r.machine t.machine := ⟨⟨[v], hv.1⟩, hv.2⟩
      refine sure_bind c (sure_evalAll module arguments hokt) (fun vs u hoku hvs => ?_)
        fun _ _ h => hfirst.trans h
      refine sure_pure c hoku ⟨hfirst.trans ⟨⟨_, hvs.1⟩, hvs.2⟩, fun w hw => ?_⟩
      refine (c.whole hoku).pins ?_
      rw [hvs.1, hv.1]
      rcases List.mem_cons.1 hw with rfl | hw
      · exact List.mem_append_right _ List.mem_cons_self
      · exact List.mem_append_left _ (List.mem_reverse.2 hw)
    · refine Sure.mono (sure_withPinned c (P := fun v h => h.Holds v) hokt hframe.2 ?_)
        (fun _ _ _ h => ⟨hframe.1.trans h.1, h.2⟩) fun _ _ h => hframe.1.trans h
      exact fun r' hok' hpinned => sure_invoke c _ hok' hpinned

/-- The value is pinned above all others. -/
theorem sure_evalPinned (module : String) : ∀ (e : Expr) {r : Running ε}, Ok r →
    Sure Ok L S (evalPinned cb module e) (evalPinned (cb.guarded alarm) module e)
      (fun v m => m.pins = v :: r.machine.pins ∧ m.savedFrames = r.machine.savedFrames)
      (State.Kept r.machine) r
  | e, r, hok => by
    rw [evalPinned, evalPinned]
    refine sure_bind c (sure_eval module e hok) (fun v t hokt hv => ?_) fun _ _ h => h
    have hwhole : ({ t.machine with pins := v :: t.machine.pins } : State).Whole := by
      refine (c.whole hokt).pin fun u hu => ?_
      rcases List.mem_cons.1 hu with rfl | hu
      · exact hv.2
      · exact (c.whole hokt).pins hu
    refine sure_update c hokt (State.frame_pin _ _) hwhole fun hok' => ?_
    refine sure_pure c hok' ⟨?_, hv.1.savedFrames⟩
    exact congrArg (v :: ·) hv.1.pins

/-- The values are pinned above all others, the last one first. -/
theorem sure_evalAll (module : String) : ∀ (es : List Expr) {r : Running ε}, Ok r →
    Sure Ok L S (evalAll cb module es) (evalAll (cb.guarded alarm) module es)
      (fun vs m => m.pins = vs.reverse ++ r.machine.pins ∧
        m.savedFrames = r.machine.savedFrames)
      (State.Above r.machine) r
  | [], r, hok => by
    rw [evalAll, evalAll]
    exact sure_pure c hok ⟨rfl, rfl⟩
  | e :: rest, r, hok => by
    rw [evalAll, evalAll]
    refine sure_bind c (sure_evalPinned module e hok) (fun v t hokt hv => ?_) fun _ _ h => h.above
    have hfirst : State.Above r.machine t.machine := ⟨⟨[v], hv.1⟩, hv.2⟩
    refine sure_bind c (sure_evalAll module rest hokt) (fun vs u hoku hvs => ?_)
      fun _ _ h => hfirst.trans h
    refine sure_pure c hoku ⟨?_, hvs.2.trans hv.2⟩
    rw [hvs.1, hv.1, List.reverse_cons, List.append_assoc]
    rfl

end

/-! ## Statements -/

/-- A variable is defined. -/
theorem safe_define (hok : Ok r) (module name : String) {v : Value}
    (hv : r.machine.heap.Holds v) :
    Safe Ok L S (update fun s => s.define module name v : Run (Running ε) φ Unit)
      (update fun s => s.define module name v) r :=
  sure_last c hok (State.frame_define _ module name v) ((c.whole hok).define module name hv)
    ⟨rfl, rfl⟩

theorem safe_bindMethods (module className : String) (methods : List MethodDecl) :
    ∀ (cls : Class) {r : Running ε}, Ok r →
      Safe Ok L S (bindMethods cb module className methods cls)
        (bindMethods (cb.guarded alarm) module className methods cls) r := by
  induction methods with
  | nil => exact fun cls _ hok => safe_pure c hok cls
  | cons m rest ih =>
    intro cls r hok
    rw [bindMethods, bindMethods]
    refine safe_seq c (sure_host c hok (c.hosted.bindMethod _) (c.contained.bindMethod _)) ?_
    intro bound t hokt
    cases bound with
    | none => exact safe_fault c hokt _
    | some key => exact ih _ hokt

theorem safe_declareClass (module : String) (decl : ClassDecl) (hok : Ok r) :
    Safe Ok L S (declareClass cb module decl) (declareClass (cb.guarded alarm) module decl) r := by
  -- the class is bound and defined in the same way, whichever keys it gets
  have hdefine : ∀ (cls : Class) {r : Running ε}, Ok r → Safe Ok L S
      (do
        let cls ← bindMethods cb module decl.name decl.methods cls
        update fun s => (s.alloc (.classDef cls)).2.define module decl.name
          (.object (s.alloc (.classDef cls)).1))
      (do
        let cls ← bindMethods (cb.guarded alarm) module decl.name decl.methods cls
        update fun s => (s.alloc (.classDef cls)).2.define module decl.name
          (.object (s.alloc (.classDef cls)).1)) r := by
    intro cls r hok
    refine safe_seq c (safe_bindMethods c module decl.name decl.methods cls hok) ?_
    intro cls t hokt
    have hrefs : ∀ id ∈ (Object.classDef cls).references, id ∈ t.machine.heap.objects.keys :=
      fun id hid => absurd hid List.not_mem_nil
    obtain ⟨hwhole, hholds⟩ := (c.whole hokt).alloc hrefs
    refine sure_last c hokt ?_ (hwhole.define module decl.name hholds) ⟨rfl, rfl⟩
    exact (State.frame_alloc _ rfl).trans (State.frame_define _ module decl.name _)
  unfold declareClass
  dsimp only
  split
  · refine safe_seq c (sure_host c hok (c.hosted.bindClass _ _) (c.contained.bindClass _ _)) ?_
    exact fun keys _ hokt => hdefine _ hokt
  · exact safe_seq c (safe_pure c hok _) fun keys _ hokt => hdefine _ hokt

theorem safe_reportCompile (module : String) (e : CompileError) (hok : Ok r) :
    Safe Ok L S (reportCompile cb module e) (reportCompile (cb.guarded alarm) module e) r :=
  sure_call c hok (c.hosted.report _) (c.contained.report _)

theorem safe_reportRuntime (message : String) (hok : Ok r) :
    Safe Ok L S (reportRuntime cb message) (reportRuntime (cb.guarded alarm) message) r := by
  unfold reportRuntime
  refine safe_seq c (sure_call c hok (c.hosted.report _) (c.contained.report _)) ?_
  intro _ t hokt
  exact sure_machine (sure_call c hokt (c.hosted.report _) (c.contained.report _))

theorem safe_resolveModule (importer name : String) (hok : Ok r) :
    Safe Ok L S (resolveModule cb importer name)
      (resolveModule (cb.guarded alarm) importer name) r := by
  have hguarded : (cb.guarded alarm).resolve? =
      cb.resolve?.map fun f importer name => guarded alarm (f importer name) := rfl
  unfold resolveModule
  rw [hguarded]
  cases hres : cb.resolve? with
  | none => exact safe_pure c hok _
  | some resolve =>
    refine safe_seq c (sure_host c hok (c.hosted.resolve resolve hres _ _)
      (c.contained.resolve resolve hres _ _)) fun resolved t hokt => ?_
    cases resolved with
    | none => exact safe_fault c hokt _
    | some resolved => exact safe_pure c hokt _

theorem safe_loadModule (name : String) (hok : Ok r) :
    Safe Ok L S (loadModule cb name) (loadModule (cb.guarded alarm) name) r := by
  unfold loadModule
  refine safe_seq c (sure_host c hok (c.hosted.load _) (c.contained.load _)) ?_
  intro source t hokt
  cases source with
  | none => exact safe_fault c hokt _
  | some source => exact safe_pure c hokt _

theorem safe_importNames (importer source : String) (names : List String) :
    ∀ {r : Running ε}, Ok r →
      Safe Ok L S (importNames importer source names) (importNames importer source names) r := by
  induction names with
  | nil => exact fun hok => safe_pure c hok _
  | cons name rest ih =>
    intro r hok
    rw [importNames]
    refine sure_machine ?_
    split
    · next v hv =>
      refine safe_seq c (safe_define c hok importer name ((c.whole hok).global? hv)) ?_
      exact fun _ _ hokt => ih hokt
    · exact safe_fault c hok _

section

variable {run run' : String → String → Eval ε Unit}
  (hrun : ∀ module source {r}, Ok r → Safe Ok L S (run module source) (run' module source) r)
include hrun

theorem safe_importModule (importer name : String) (names : List String) (hok : Ok r) :
    Safe Ok L S (importModule cb run importer name names)
      (importModule (cb.guarded alarm) run' importer name names) r := by
  unfold importModule
  refine safe_seq c (safe_resolveModule c importer name hok) fun resolved t hokt => ?_
  have hnames : ∀ {u}, Ok u → Safe Ok L S (importNames importer resolved names)
      (importNames importer resolved names) u := safe_importNames c importer resolved names
  refine sure_machine ?_
  cases t.machine.hasModule resolved with
  | true => exact hnames hokt
  | false =>
    refine safe_seq c (safe_loadModule c resolved hokt) fun source u hoku => ?_
    refine safe_seq c (safe_attempt (hrun resolved source hoku)) fun result v hokv => ?_
    rcases result with (e | e) | _
    · refine safe_seq c (sure_widen (safe_reportCompile c resolved e hokv)) fun _ w hokw => ?_
      exact safe_seq c (safe_fault c hokw _) fun _ _ hoku => hnames hoku
    · exact safe_seq c (safe_fault c hokv _) fun _ _ hoku => hnames hoku
    · exact hnames hokv

theorem safe_exec (module : String) (st : Statement) (hok : Ok r) :
    Safe Ok L S (exec cb run module st) (exec (cb.guarded alarm) run' module st) r := by
  -- a variable gets a value that is on the heap
  have hdefine : ∀ name value, Safe Ok L S
      (do
        let v ← eval cb module value
        update fun s => s.define module name v)
      (do
        let v ← eval (cb.guarded alarm) module value
        update fun s => s.define module name v) r := fun name value =>
    safe_bind c (P := fun v h => h.Holds v) (sure_eval c module value hok)
      fun v t hokt hv => safe_define c hokt module name hv
  unfold exec
  cases st.action with
  | importModule name names => exact safe_importModule c hrun module name names hok
  | define name value => exact hdefine name value
  | assign name value => exact hdefine name value
  | declare decl => exact safe_declareClass c module decl hok
  | evaluate value =>
    exact safe_bind c (P := fun v h => h.Holds v) (sure_eval c module value hok)
      fun _ _ hokt _ => safe_pure c hokt _

theorem safe_execAll (module : String) (sts : List Statement) :
    ∀ {r : Running ε}, Ok r →
      Safe Ok L S (execAll cb run module sts) (execAll (cb.guarded alarm) run' module sts) r := by
  induction sts with
  | nil => exact fun hok => safe_pure c hok _
  | cons st rest ih =>
    intro r hok
    rw [execAll, execAll]
    have hwhole : ({ r.machine with location := ⟨module, st.line⟩ } : State).Whole :=
      (c.whole hok).reroot rfl fun v hv => Or.inl hv
    refine safe_update c hok (State.frame_locate _ _) hwhole ⟨rfl, rfl⟩ fun t hokt => ?_
    exact safe_seq c (safe_exec c hrun module st hokt) fun _ _ hoku => ih hoku

end

/-! ## Runs -/

theorem safe_compile (module source : String) (hok : Ok r) :
    Safe Ok L S (compile module source : Eval ε (List Statement)) (compile module source) r := by
  unfold compile
  cases parse source with
  | error e => exact safe_fault c hok _
  | ok statements =>
    have hframe : Frame r.machine (r.machine.addModule module) := by
      unfold State.addModule
      split
      · exact Frame.refl _
      · exact Frame.of_heap rfl rfl rfl rfl
    have hkept : State.Kept r.machine (r.machine.addModule module) := by
      unfold State.addModule
      split
      · exact .refl _
      · exact ⟨rfl, rfl⟩
    refine safe_update c hok hframe ((c.whole hok).addModule module) hkept fun t hokt => ?_
    refine sure_machine ?_
    cases Scope.check (t.machine.namesIn module) statements with
    | error e => exact safe_fault c hokt _
    | ok _ => exact safe_pure c hokt _

theorem safe_runModule (depth : Nat) : ∀ (module source : String) {r : Running ε}, Ok r →
    Safe Ok L S (runModule cb depth module source)
      (runModule (cb.guarded alarm) depth module source) r := by
  induction depth with
  | zero =>
    intro module source r hok
    refine ⟨rfl, fun a t hx => ?_, fun e t hx => ?_, fun w t hx => ?_⟩
    · exact absurd (congrArg Prod.fst hx) (by simp [runModule, Run.halt])
    · exact absurd (congrArg Prod.fst hx) (by simp [runModule, Run.halt])
    · cases hx
      exact ⟨rfl, c.span.stop hok⟩
  | succ depth ih =>
    intro module source r hok
    rw [runModule, runModule]
    refine safe_seq c (safe_compile c module source hok) fun statements t hokt => ?_
    exact safe_execAll c ih module statements hokt

/-- **A run of a program leaves a machine whole**, and calls its host on whole machines only. -/
theorem safe_interpret (depth : Nat) (module source : String) (hok : Ok r) :
    Safe Ok L S (interpret cb depth module source)
      (interpret (cb.guarded alarm) depth module source) r := by
  unfold interpret
  refine safe_seq c (safe_attempt (safe_runModule c depth module source hok)) ?_
  intro result t hokt
  rcases result with (e | e) | _
  · refine safe_seq c (safe_reportCompile c module e hokt) ?_
    exact fun _ _ hoku => safe_pure c hoku _
  · refine safe_seq c (safe_reportRuntime c _ hokt) ?_
    exact fun _ _ hoku => safe_pure c hoku _
  · exact safe_pure c hokt _

end

end ScriptHost.Machine
