import ScriptHost.Proofs.Accessors
import ScriptHost.Proofs.Literals
import ScriptHost.Proofs.Reports
import ScriptHost.Proofs.Splitting

/-!
# Values that are written into programs

A host gives a value to a script as a literal: it writes the value into the source of a program that
defines a variable as it.  Where the variable is new the program succeeds (`interpret_literal`), and the
value of the variable represents the literal on the heap (`Heap.Represents`).

`readBack` is the way back.  It has one slot, and goes to each part of the value from the variable down,
since a slot that has been read into does not hold the list any more.  Reading leaves the heap and the
variables as they are (`Reading`), so the part at a path is the same each time it is asked for
(`readPart_literal`), and what has been read is the literal (`Setting.literals_recovered`).

A variable of the core module can be read in every module.  So a module need not have a variable to
refuse its definition (`interpret_literal_again`).
-/

namespace ScriptHost.Machine

open Script

variable {ε : Type}

/-! ## Literals on a heap -/

namespace Heap

variable {h h' h'' : Heap}

/-- A later heap in which the objects are what they were. -/
def Keeps (h h' : Heap) : Prop :=
  h.lastId ≤ h'.lastId ∧ ∀ id ≤ h.lastId, h'.get? id = h.get? id

theorem Keeps.refl (h : Heap) : h.Keeps h := ⟨Nat.le_refl _, fun _ _ => rfl⟩

theorem Keeps.trans (hk : h.Keeps h') (hk' : h'.Keeps h'') : h.Keeps h'' :=
  ⟨Nat.le_trans hk.1 hk'.1, fun id hid => (hk'.2 id (Nat.le_trans hid hk.1)).trans (hk.2 id hid)⟩

theorem Keeps.alloc (h : Heap) (o : Object) : h.Keeps (h.alloc o).2 :=
  ⟨Nat.le_succ _, fun _ hid => get?_alloc_of_ne h o (Nat.ne_of_lt (Nat.lt_succ_of_le hid))⟩

mutual

/-- A value is the one that a literal spells. -/
def Represents (h : Heap) : Literal → Value → Prop
  | .null, v => v = .null
  | .bool b, v => v = .bool b
  | .text t, v => v = .ofText t
  | .list items, v => ∃ id vs, v = .object id ∧ id ≤ h.lastId ∧ h.get? id = some (.list vs) ∧
      h.RepresentsAll items vs

/-- Values are the ones that literals spell, one by one. -/
def RepresentsAll (h : Heap) : List Literal → List Value → Prop
  | [], vs => vs = []
  | l :: rest, vs => ∃ v vs', vs = v :: vs' ∧ h.Represents l v ∧ h.RepresentsAll rest vs'

end

mutual

theorem Represents.mono (hk : h.Keeps h') : ∀ {l : Literal} {v : Value},
    h.Represents l v → h'.Represents l v
  | .null, _, hl => hl
  | .bool _, _, hl => hl
  | .text _, _, hl => hl
  | .list _, _, ⟨id, vs, hv, hid, hget, hitems⟩ =>
    ⟨id, vs, hv, Nat.le_trans hid hk.1, (hk.2 id hid).trans hget, RepresentsAll.mono hk hitems⟩

theorem RepresentsAll.mono (hk : h.Keeps h') : ∀ {ls : List Literal} {vs : List Value},
    h.RepresentsAll ls vs → h'.RepresentsAll ls vs
  | [], _, hls => hls
  | _ :: _, _, ⟨v, vs', hvs, hl, hls⟩ => ⟨v, vs', hvs, Represents.mono hk hl, RepresentsAll.mono hk hls⟩

end

end Heap

/-! ## Evaluation of literals -/

section

variable (cb : Callbacks ε) (module : String)

/-- A run on a later heap, with more values pinned. -/
def Running.onHeap (r : Running ε) (h : Heap) (pinned : List Value) : Running ε :=
  { r with machine := { r.machine with heap := h, pins := pinned ++ r.machine.pins } }

/-- The values of elements are pinned no more behind them. -/
theorem withPins_onHeap {α : Type} {x : Eval ε α} {r : Running ε} {v : α} {h : Heap}
    {pinned : List Value} (hx : x r = (.value v, r.onHeap h pinned)) : withPins x r = (.value v, r.onHeap h []) := by
  have hunpin : (r.onHeap h pinned).machine.unpinTo r.machine.pins.length =
      (r.onHeap h []).machine := by
    have hpins : (pinned ++ r.machine.pins).drop
        ((pinned ++ r.machine.pins).length - r.machine.pins.length) = r.machine.pins := by
      rw [List.length_append, Nat.add_sub_cancel, List.drop_left]
    exact congrArg (fun pins => { r.machine with heap := h, pins := pins }) hpins
  unfold withPins
  rw [machine_bind, Run.andFinally, hx]
  exact congrArg (fun m => (Outcome.value v, (⟨m, r.host⟩ : Running ε))) hunpin

mutual

/-- **A literal is evaluated to what it spells**, and nothing else happens. -/
theorem eval_literal : ∀ (l : Literal) (r : Running ε), ∃ v h,
    eval cb module l.expr r = (.value v, r.onHeap h []) ∧ r.machine.heap.Keeps h ∧ h.Represents l v
  | .null, r => ⟨.null, r.machine.heap, by rw [Literal.expr, eval]; rfl, .refl _, rfl⟩
  | .bool b, r => ⟨.bool b, r.machine.heap, by rw [Literal.expr, eval]; rfl, .refl _, rfl⟩
  | .text t, r => ⟨.ofText t, r.machine.heap, by rw [Literal.expr, eval]; rfl, .refl _, rfl⟩
  | .list items, r => by
    obtain ⟨vs, h, hitems, hkeeps, hrep⟩ := evalAll_literals items r
    have halloc := h.get?_alloc_self (.list vs)
    refine ⟨.object (h.alloc (.list vs)).1, (h.alloc (.list vs)).2, ?_, hkeeps.trans (.alloc h _),
      _, vs, rfl, Nat.le_refl _, halloc, hrep.mono (.alloc h _)⟩
    rw [Literal.expr, eval, Run.bind_of_value (withPins_onHeap hitems)]
    rfl

theorem evalAll_literals : ∀ (ls : List Literal) (r : Running ε), ∃ vs h,
    evalAll cb module (Literal.exprs ls) r = (.value vs, r.onHeap h vs.reverse) ∧
      r.machine.heap.Keeps h ∧ h.RepresentsAll ls vs
  | [], r => ⟨[], r.machine.heap, by rw [Literal.exprs, evalAll]; rfl, .refl _, rfl⟩
  | l :: rest, r => by
    obtain ⟨v, h, hl, hkeeps, hrep⟩ := eval_literal l r
    obtain ⟨vs, h', hrest, hkeeps', hreps⟩ := evalAll_literals rest (r.onHeap h [v])
    have hpinned : evalPinned cb module l.expr r = (.value v, r.onHeap h [v]) := by
      rw [evalPinned, Run.bind_of_value hl]
      rfl
    refine ⟨v :: vs, h', ?_, hkeeps.trans hkeeps', v, vs, rfl, hrep.mono hkeeps', hreps⟩
    rw [Literal.exprs, evalAll, Run.bind_of_value hpinned, Run.bind_of_value hrest, List.reverse_cons]
    unfold Running.onHeap
    rw [List.append_assoc]
    rfl

end

mutual

/-- A literal reads no variables. -/
theorem checkExpr_literal (defined : List String) : ∀ l : Literal,
    Scope.checkExpr defined l.expr = .ok ()
  | .null | .bool _ | .text _ => by rw [Literal.expr, Scope.checkExpr]
  | .list items => by rw [Literal.expr, Scope.checkExpr, checkAll_literals defined items]

theorem checkAll_literals (defined : List String) : ∀ ls : List Literal,
    Scope.checkAll defined (Literal.exprs ls) = .ok ()
  | [] => by rw [Literal.exprs, Scope.checkAll]
  | l :: rest => by
    rw [Literal.exprs, Scope.checkAll, checkExpr_literal defined l]
    exact checkAll_literals defined rest

end

/-- **A program that defines `x` as a literal succeeds**, where `x` cannot be read before. -/
theorem interpret_literal (depth : Nat) (s : Style) (l : Literal) {r : Running ε}
    (hx : r.machine.lookup? module "x" = none) : ∃ v t,
      interpret cb (depth + 1) module (l.source s) r = (.value .success, t) ∧ t.host = r.host ∧
        t.machine.slots = r.machine.slots ∧ t.machine.global? module "x" = some v ∧
        t.machine.heap.Represents l v := by
  obtain ⟨line, hparse⟩ := parse_source s l
  have hnames : "x" ∉ r.machine.namesIn module := by
    rw [mem_namesIn_iff, ← lookup?_isSome_iff, hx]
    simp
  have hcheck : Scope.check (r.machine.namesIn module) [⟨.define "x" l.expr, line⟩] =
      .ok ("x" :: r.machine.namesIn module) := by
    have hdefine : Scope.define (r.machine.namesIn module) "x" line =
        .ok ("x" :: r.machine.namesIn module) := by
      rw [Scope.define, if_neg (mt List.contains_iff_mem.1 hnames)]
    rw [Scope.check, List.foldlM_cons, Scope.afterStatement]
    dsimp only
    rw [checkExpr_literal]
    change (Scope.define _ "x" line >>= _) = _
    rw [hdefine]
    rfl
  let located : Running ε :=
    { r.withModule module with
      machine := { (r.withModule module).machine with location := ⟨module, line⟩ } }
  obtain ⟨v, h, heval, -, hrep⟩ := eval_literal cb module l located
  let t : Running ε := { r with machine := (located.onHeap h []).machine.define module "x" v }
  have hrun : runStatements cb depth module [⟨.define "x" l.expr, line⟩] r = (.value (), t) := by
    have hlocate : (update fun s => { s with location := ⟨module, line⟩ } : Eval ε Unit)
        (r.withModule module) = (.value (), located) := rfl
    have hexec : exec cb (runModule cb depth) module ⟨.define "x" l.expr, line⟩ located =
        (.value (), t) := by
      rw [exec]
      exact Run.bind_of_value heval _
    rw [runStatements_of_ok ⟨_, hcheck⟩, execAll, Run.bind_of_value hlocate,
      Run.bind_of_value hexec, execAll]
    rfl
  refine ⟨v, t, ?_, rfl, ?_, State.global?_define_self _ _ _ _, hrep⟩
  · rw [interpret_of_parse cb depth module hparse, interpretStatements]
    exact concluded_of_value hrun
  · change (r.machine.addModule module).slots = r.machine.slots
    rw [State.addModule_eq]

/-- A program that defines `x` is refused, where `x` can be read before. -/
theorem interpret_literal_again (depth : Nat) (s : Style) (l : Literal) {r : Running ε}
    {P : Running ε → Prop} (hx : "x" ∈ r.machine.namesIn module)
    (hreport : ∀ diagnostic, ∃ t, cb.report diagnostic (r.withModule module) = (.value (), t) ∧ P t) :
    ∃ t, interpret cb (depth + 1) module (l.source s) r = (.value .compileError, t) ∧ P t := by
  obtain ⟨line, hparse⟩ := parse_source s l
  have hdefine : Scope.define ((r.machine.addModule module).namesIn module) "x" line =
      .error (Scope.duplicate "x" line) := by
    have hdefined := (namesIn_addModule r.machine module "x").2 hx
    rw [Scope.define, if_pos (List.contains_iff_mem.2 hdefined)]
  have hcheck : Scope.check ((r.machine.addModule module).namesIn module)
      [⟨.define "x" l.expr, line⟩] = .error (Scope.duplicate "x" line) := by
    rw [Scope.check, List.foldlM_cons, Scope.afterStatement]
    dsimp only
    rw [checkExpr_literal]
    change (Scope.define _ "x" line >>= _) = _
    rw [hdefine]
    rfl
  obtain ⟨t, ht, hP⟩ := hreport ⟨.compile, some (Text.strip module), (Scope.duplicate "x" line).line,
    Text.strip (Scope.duplicate "x" line).message⟩
  exact ⟨t, interpret_of_refusal (.names hparse hcheck) ht, hP⟩

end

namespace Heap

/-- The part of a value at a path of positions in lists. -/
def part? (h : Heap) : List Nat → Value → Option Value
  | [], v => some v
  | i :: path, v => do
    let items ← h.list? (← v.object?)
    h.part? path (← items[i]?)

theorem part?_append (h : Heap) (path' : List Nat) : ∀ (path : List Nat) (v : Value),
    h.part? (path ++ path') v = (h.part? path v).bind (h.part? path')
  | [], _ => rfl
  | i :: path, v => by
    rw [List.cons_append, part?, part?]
    cases v.object? with
    | none => rfl
    | some id =>
      cases hlist : h.list? id with
      | none => simp [hlist]
      | some items => cases hv : items[i]? <;> simp [hlist, hv, part?_append h path' path]

theorem RepresentsAll.length_eq {h : Heap} : ∀ {ls : List Literal} {vs : List Value},
    h.RepresentsAll ls vs → ls.length = vs.length
  | [], _, hvs => congrArg List.length (Eq.symm hvs)
  | _ :: _, _, ⟨_, _, hvs, _, hrest⟩ => by rw [hvs, List.length_cons, List.length_cons, hrest.length_eq]

theorem RepresentsAll.getElem? {h : Heap} : ∀ {ls : List Literal} {vs : List Value},
    h.RepresentsAll ls vs → ∀ {i : Nat} {l : Literal}, ls[i]? = some l →
      ∃ v, vs[i]? = some v ∧ h.Represents l v
  | l :: _, _, ⟨v, _, hvs, hl, _⟩, 0, _, hi => by
    cases hi
    exact ⟨v, by rw [hvs]; rfl, hl⟩
  | _ :: _, _, ⟨_, _, hvs, _, hrest⟩, i + 1, _, hi => by
    rw [hvs]
    exact hrest.getElem? hi

end Heap

end ScriptHost.Machine

namespace ScriptHost.Bridge

open Machine (State Value Heap Running)
open Script (Literal Style)

variable {η α β : Type}

/-! ## Reading a variable -/

/-- Goes from the value in a slot to a part of it. -/
def Slot.descend (s : Slot) : List Nat → Act η Unit
  | [] => return ()
  | i :: path => do
    s.getListElement i s
    s.descend path

/-- Reads the part of the variable `x` at a path, by way of one slot, with lists nested at most `fuel`
deep. -/
def readPart (s : Slot) (module : String) : Nat → List Nat → Act η Literal
  | 0, _ => Run.halt .exhausted
  | fuel + 1, path => do
    Vm.getVariable s.vm module "x" s
    s.descend path
    if ← s.isNull then return .null
    else
      match ← s.slotType with
      | .bool => return .bool (← s.getBool)
      | .string => return .text (← s.getString)
      | .list =>
        let count ← s.listCount
        return .list (← (List.range count).mapM fun i => readPart s module fuel (path ++ [i]))
      | actual => Run.fault (.slotTypeMismatch s.index .list actual)

/-- Reads the variable `x` of a module back. -/
def readBack (vm : VmId) (module : String) (fuel : Nat) : Act η Literal := do
  Vm.ensureSlots vm 1
  readPart ⟨vm, 0⟩ module fuel []

/-- An operation has a value, and changes nothing. -/
def Finds (x : Act η α) (w : World η) (v : α) : Prop := ∃ t, x w = (.value v, t) ∧ w.Intact t

theorem finds_pure (v : α) (w : World η) : Finds (pure v) w v := ⟨w, rfl, .refl w⟩

theorem finds_bind {x : Act η α} {f : α → Act η β} {w : World η} {v : α} {u : β} (hx : Finds x w v)
    (hf : ∀ t, w.Intact t → Finds (f v) t u) : Finds (x >>= f) w u := by
  obtain ⟨t, hxt, ht⟩ := hx
  obtain ⟨t', hft, ht'⟩ := hf t ht
  exact ⟨t', (Run.bind_of_value hxt f).trans hft, ht.trans ht'⟩

/-- A slot of a machine that holds `v`.  The machine is alive and reports what is there, and its
variable `x` is `x`. -/
structure Reading (s : Slot) (module : String) (a : Address) (h : Heap) (x : Value) (w : World η) :
    Prop where
  live : w.LiveAt s.vm a
  native : a ∈ w.natives.keys
  faults : w.faults = []
  slot : s.index < (w.machine a).slots.length
  heap : (w.machine a).heap = h
  value : (w.machine a).global? module "x" = some x

section

variable {s : Slot} {module : String} {a : Address} {h : Heap} {x v : Value} {w t : World η}

theorem Reading.intact (hr : Reading s module a h x w) (ht : w.Intact t) :
    Reading s module a h x t := by
  obtain ⟨_, _, rfl⟩ := ht
  exact ⟨hr.live, hr.native, hr.faults, hr.slot, hr.heap, hr.value⟩

theorem Reading.hasFault (hr : Reading s module a h x w) (f : NativeFault) : w.hasFault f = false := by
  rw [World.hasFault, hr.faults]
  rfl

theorem Reading.setSlot (hr : Reading s module a h x w) (v : Value) :
    let t := w.putMachine a { w.machine a with slots := (w.machine a).slots.set s.index v }
    Reading s module a h x t ∧ (t.machine a).slots[s.index]? = some v := by
  intro t
  have hmachine : t.machine a = { w.machine a with slots := (w.machine a).slots.set s.index v } :=
    World.machine_putMachine_self hr.native _
  refine ⟨⟨hr.live, World.mem_natives_putMachine.2 hr.native, hr.faults, ?_, ?_, ?_⟩, ?_⟩
  · rw [hmachine, List.length_set]
    exact hr.slot
  · rw [hmachine]
    exact hr.heap
  · rw [hmachine]
    exact hr.value
  · rw [hmachine]
    exact List.getElem?_set_self hr.slot

variable (hr : Reading s module a h x w)
include hr

theorem finds_checked (operation : String) : Finds (s.checked operation) w a :=
  ⟨_, checked_of_slot hr.live (hr.hasFault _) hr.slot operation, .note w _⟩

section

variable (hv : (w.machine a).slots[s.index]? = some v)
include hv

theorem finds_nativeType : Finds (Native.slotType a s.index) w (h.slotType v) := by
  have htype : (w.machine a).slotType s.index = h.slotType v := by
    rw [State.slotType, State.slot_of_getElem? hv, hr.heap]
  exact ⟨_, htype ▸ slotType_eq (hr.hasFault _) a s.index, .note w _⟩

theorem finds_slotType : Finds s.slotType w (h.slotType v) :=
  finds_bind (finds_checked hr _) fun t ht =>
    finds_nativeType (hr.intact ht) (by rwa [ht.machine_eq])

theorem finds_isNull : Finds s.isNull w (h.slotType v == .null) :=
  finds_bind (finds_slotType hr hv) fun t _ => finds_pure _ t

theorem finds_expectType {expected : SlotType} (htype : h.slotType v = expected) :
    Finds (s.expectType a expected) w () :=
  finds_bind (finds_nativeType hr hv) fun t _ => by
    rw [if_pos htype]
    exact finds_pure () t

/-- What is read behind the checks of a slot with a value of the right type. -/
theorem finds_typed {operation : String} {expected : SlotType} {f : Address → Act η α} {b : α}
    (htype : h.slotType v = expected)
    (hf : ∀ t, Reading s module a h x t → (t.machine a).slots[s.index]? = some v → Finds (f a) t b) :
    Finds (do
      let a ← s.checked operation
      s.expectType a expected
      f a) w b := by
  refine finds_bind (finds_checked hr _) fun t ht => ?_
  have hvt : (t.machine a).slots[s.index]? = some v := by rwa [ht.machine_eq]
  refine finds_bind (finds_expectType (hr.intact ht) hvt htype) fun u hu => ?_
  exact hf u ((hr.intact ht).intact hu) (by rwa [hu.machine_eq])

theorem finds_getBool {b : Bool} (hb : v = .bool b) : Finds s.getBool w b := by
  subst hb
  refine finds_typed hr hv rfl fun t _ hvt => ⟨_, ?_, .note t (.enter a)⟩
  have hbool : (t.machine a).slotBool s.index = b := by
    rw [State.slotBool, State.slot_of_getElem? hvt]
  exact Prod.ext (congrArg Outcome.value hbool) rfl

theorem finds_getString {text : String} (htext : v = .ofText text) : Finds s.getString w text := by
  subst htext
  refine finds_typed hr hv rfl fun t ht hvt => ?_
  have hbytes : (Native.slotBytes a s.index : Act η (List UInt8)) t =
      (.value (Text.Utf8.encode text), t.note (.enter a)) := by
    have htold : (if t.hasFault .nullBytes || t.hasFault .negativeBytes then [] else
        ((t.machine a).slotBytes? s.index).getD []) = Text.Utf8.encode text := by
      rw [ht.hasFault, ht.hasFault, State.slotBytes?, State.slot_of_getElem? hvt]
      rfl
    exact Prod.ext (congrArg Outcome.value htold) rfl
  refine finds_bind ⟨_, hbytes, .note t _⟩ fun u _ => ?_
  rw [Text.Utf8.decode_encode]
  exact finds_pure text u

theorem finds_listCount {id : Machine.ObjectId} {items : List Value} (hid : v = .object id)
    (hitems : h.get? id = some (.list items)) : Finds s.listCount w items.length := by
  subst hid
  have htype : h.slotType (.object id) = .list := by rw [Heap.slotType, hitems]
  refine finds_typed hr hv htype fun t ht hvt => ⟨_, ?_, .note t (.enter a)⟩
  refine EntryPoint.listCount_eq (ht.hasFault _) ⟨hvt, ?_⟩
  rw [ht.heap]
  exact hitems

end

theorem finds_hasVariable (hmodule : Text.firstNul? module = none) :
    Finds (Vm.hasVariable s.vm module "x") w true := by
  have hlive : ∀ (operation : String) {t : World η}, Reading s module a h x t →
      Finds (live s.vm operation) t a := fun operation t ht =>
    ⟨t, by rw [live_of_alive ht.live.1, ht.live.2], .refl t⟩
  have hterminated : ∀ (text : String) (t : World η), Text.firstNul? text = none →
      Finds (terminated text) t () := fun text t htext =>
    ⟨t, by rw [terminated, htext]; rfl, .refl t⟩
  have hloaded : ∀ {t : World η}, Reading s module a h x t →
      Finds (Vm.hasModule s.vm module) t true := by
    intro t ht
    refine finds_bind (hlive _ ht) fun t₁ h₁ => finds_bind (hterminated _ t₁ hmodule) fun t₂ h₂ => ?_
    have hin : (t₂.machine a).hasModule module = true := by
      rw [h₂.machine_eq, h₁.machine_eq]
      exact Machine.hasModule_of_global? (by rw [ht.value]; rfl)
    exact ⟨_, hin ▸ rfl, .note t₂ (.enter a)⟩
  refine finds_bind (hlive _ hr) fun t ht => finds_bind (hloaded (hr.intact ht)) fun t₁ h₁ => ?_
  have hx : Text.firstNul? "x" = none := Text.firstNul?_eq_none_iff.2 (by decide)
  refine finds_bind (hterminated "x" t₁ hx) fun t₂ h₂ => ?_
  have hin : (t₂.machine a).hasVariable module "x" = true := by
    rw [h₂.machine_eq, h₁.machine_eq, ht.machine_eq, State.hasVariable, hr.value]
    rfl
  exact ⟨_, hin ▸ rfl, .note t₂ (.enter a)⟩

/-- The slot is written. -/
theorem reading_changeNative {f : State → State} (v : Value)
    (hf : f (w.machine a) = { w.machine a with slots := (w.machine a).slots.set s.index v }) :
    ∃ t, (changeNative a f : Act η Unit) w = (.value (), t) ∧ Reading s module a h x t ∧
      (t.machine a).slots[s.index]? = some v := by
  have hset := (hr.intact (.note w (.enter a))).setSlot v
  refine ⟨(w.note (.enter a)).putMachine a (f (w.machine a)), rfl, ?_⟩
  rw [hf]
  exact hset

/-- A variable is put into the slot. -/
theorem reading_getVariable (hmodule : Text.firstNul? module = none) :
    ∃ t, Vm.getVariable s.vm module "x" s w = (.value (), t) ∧ Reading s module a h x t ∧
      (t.machine a).slots[s.index]? = some x := by
  have hsame : s.ensureSameVm s.vm "get_variable" w = (.value (), w) := by
    unfold Slot.ensureSameVm
    rw [if_pos rfl]
    rfl
  obtain ⟨t, hchecked, ht⟩ := finds_checked hr "get_variable"
  obtain ⟨u, hvariable, hu⟩ := finds_hasVariable (hr.intact ht) hmodule
  have hru := (hr.intact ht).intact hu
  have hget : (u.machine a).getVariable module "x" s.index =
      { u.machine a with slots := (u.machine a).slots.set s.index x } := by
    rw [State.getVariable, hru.value]
    exact State.setSlot_natCast _ s.index x
  unfold Vm.getVariable
  rw [Run.bind_of_value hsame, Run.bind_of_value hchecked, Run.bind_of_value hvariable]
  exact reading_changeNative hru (f := fun m => m.getVariable module "x" s.index) x hget

/-- An element is put into the slot of its list. -/
theorem reading_getListElement {id : Machine.ObjectId} {items : List Value} {i : Nat}
    (hid : (w.machine a).slots[s.index]? = some (.object id)) (hitems : h.get? id = some (.list items))
    (hi : items[i]? = some v) :
    ∃ t, s.getListElement i s w = (.value (), t) ∧ Reading s module a h x t ∧
      (t.machine a).slots[s.index]? = some v := by
  have htype : h.slotType (.object id) = .list := by rw [Heap.slotType, hitems]
  have hlt : i < items.length := (List.getElem?_eq_some_iff.1 hi).1
  have hoperands : Finds (s.listOperands s "get_list_element") w (a, items.length) := by
    have hsame : Finds (s.ensureSameVm s.vm "get_list_element") w () := by
      unfold Slot.ensureSameVm
      rw [if_pos rfl]
      exact finds_pure () w
    unfold Slot.listOperands
    refine finds_bind hsame fun t ht => finds_bind (finds_checked (hr.intact ht) _) fun t₁ h₁ => ?_
    have hr₁ := (hr.intact ht).intact h₁
    refine finds_bind (finds_checked hr₁ _) fun t₂ h₂ => ?_
    have hr₂ := hr₁.intact h₂
    have hid₂ : (t₂.machine a).slots[s.index]? = some (.object id) := by
      rwa [h₂.machine_eq, h₁.machine_eq, ht.machine_eq]
    refine finds_bind (finds_expectType hr₂ hid₂ htype) fun t₃ h₃ => ?_
    have hlist : (t₃.machine a).ListIn s.index id items := by
      rw [h₃.machine_eq]
      exact ⟨hid₂, hr₂.heap ▸ hitems⟩
    have hcount := EntryPoint.listCount_eq ((hr₂.intact h₃).hasFault _) hlist
    exact finds_bind ⟨_, hcount, .note t₃ _⟩ fun t₄ _ => finds_pure _ t₄
  have hindex : ∀ t : World η, Finds (Slot.checkListIndex i items.length items.length) t () := by
    intro t
    have hin : Slot.isListIndex i items.length = true := by
      simp [Slot.isListIndex]
      omega
    unfold Slot.checkListIndex
    rw [hin, if_pos rfl]
    exact finds_pure () t
  obtain ⟨t, hfound, ht⟩ := hoperands
  obtain ⟨u, hchecked, hu⟩ := hindex t
  have hru := (hr.intact ht).intact hu
  have hmachine : u.machine a = w.machine a := (hu.machine_eq a).trans (ht.machine_eq a)
  have hget : (u.machine a).getElement s.index i s.index =
      { u.machine a with slots := (u.machine a).slots.set s.index v } := by
    have hlist : (u.machine a).ListIn s.index id items := by
      rw [hmachine]
      exact ⟨hid, hr.heap ▸ hitems⟩
    exact State.getElement_of_listIn hlist ⟨hlt, Or.inl rfl⟩ hi
  unfold Slot.getListElement
  rw [Run.bind_of_value hfound]
  dsimp only
  rw [Run.bind_of_value hchecked]
  exact reading_changeNative hru (f := fun m => m.getElement s.index i s.index) v hget

omit hr in
/-- A part of a value is put into the slot of the value. -/
theorem reading_descend {u : Value} : ∀ (path : List Nat) {v : Value} {w : World η},
    Reading s module a h x w → (w.machine a).slots[s.index]? = some v → h.part? path v = some u →
      ∃ t, s.descend path w = (.value (), t) ∧ Reading s module a h x t ∧
        (t.machine a).slots[s.index]? = some u
  | [], v, w, hr, hv, hpath => by
    cases hpath
    exact ⟨w, rfl, hr, hv⟩
  | i :: path, v, w, hr, hv, hpath => by
    rw [Heap.part?] at hpath
    obtain ⟨id, hid, hlist⟩ := Option.bind_eq_some_iff.1 hpath
    obtain ⟨items, hitems, helement⟩ := Option.bind_eq_some_iff.1 hlist
    obtain ⟨v', hv', hrest⟩ := Option.bind_eq_some_iff.1 helement
    cases v with
    | object id' =>
      cases hid
      obtain ⟨t, hget, ht, hvt⟩ := reading_getListElement hr hv (Heap.get?_of_list? hitems) hv'
      obtain ⟨t', hdescend, ht', hu⟩ := reading_descend path ht hvt hrest
      exact ⟨t', by rw [Slot.descend, Run.bind_of_value hget, hdescend], ht', hu⟩
    | null | bool | number | string => cases hid

end

/-- One run after the other leaves the values of all of them. -/
theorem mapM_of_forall₂ {ι : Type} {I : World η → Prop} {f : ι → Act η α} {is : List ι} {vs : List α}
    (h : List.Forall₂ (fun i v => ∀ w, I w → ∃ t, f i w = (.value v, t) ∧ I t) is vs) :
    ∀ w, I w → ∃ t, is.mapM f w = (.value vs, t) ∧ I t := by
  induction h with
  | nil => exact fun w hw => ⟨w, by rw [List.mapM_nil]; rfl, hw⟩
  | cons hfirst _ ih =>
    intro w hw
    obtain ⟨t, hrun, ht⟩ := hfirst w hw
    obtain ⟨t', hrest, ht'⟩ := ih t ht
    refine ⟨t', ?_, ht'⟩
    rw [List.mapM_cons, Run.bind_of_value hrun, Run.bind_of_value hrest]
    rfl

section

variable {s : Slot} {module : String} {a : Address} {h : Heap} {x : Value}

/-- **A literal is read back from where it is**, as deep as it goes. -/
theorem readPart_literal (hmodule : Text.firstNul? module = none) : ∀ (fuel : Nat) (l : Literal)
    (path : List Nat) (u : Value), l.height ≤ fuel → h.part? path x = some u → h.Represents l u →
      ∀ w : World η, Reading s module a h x w →
        ∃ t, readPart s module fuel path w = (.value l, t) ∧ Reading s module a h x t
  | 0, l, _, _, hheight, _, _, _, _ => by
    have hpos := l.height_pos
    omega
  | fuel + 1, l, path, u, hheight, hpath, hrep, w, hr => by
    obtain ⟨t₁, hget, hr₁, hx₁⟩ := reading_getVariable hr hmodule
    obtain ⟨t₂, hdescend, hr₂, hu⟩ := reading_descend path hr₁ hx₁ hpath
    obtain ⟨t₃, hnull, h₃⟩ := finds_isNull hr₂ hu
    have hr₃ := hr₂.intact h₃
    have hu₃ : (t₃.machine a).slots[s.index]? = some u := by rwa [h₃.machine_eq]
    obtain ⟨t₄, htype, h₄⟩ := finds_slotType hr₃ hu₃
    have hr₄ := hr₃.intact h₄
    have hu₄ : (t₄.machine a).slots[s.index]? = some u := by rwa [h₄.machine_eq]
    rw [readPart, Run.bind_of_value hget, Run.bind_of_value hdescend, Run.bind_of_value hnull]
    cases l with
    | null =>
      obtain rfl : u = .null := hrep
      exact ⟨t₃, rfl, hr₃⟩
    | bool b =>
      obtain rfl : u = .bool b := hrep
      obtain ⟨t, hbool, ht⟩ := finds_getBool hr₄ hu₄ rfl
      refine ⟨t, ?_, hr₄.intact ht⟩
      rw [show (h.slotType (.bool b) == .null) = false from rfl, if_neg Bool.false_ne_true,
        Run.bind_of_value htype]
      exact Run.bind_of_value hbool _
    | text text =>
      obtain rfl : u = .ofText text := hrep
      obtain ⟨t, htext, ht⟩ := finds_getString hr₄ hu₄ rfl
      refine ⟨t, ?_, hr₄.intact ht⟩
      rw [show (h.slotType (.ofText text) == .null) = false from rfl, if_neg Bool.false_ne_true,
        Run.bind_of_value htype]
      exact Run.bind_of_value htext _
    | list items =>
      obtain ⟨id, vs, rfl, -, hid, hitems⟩ := hrep
      obtain ⟨t, hcount, ht⟩ := finds_listCount hr₄ hu₄ rfl hid
      have helements : List.Forall₂ (fun i l => ∀ w : World η, Reading s module a h x w →
          ∃ t, readPart s module fuel (path ++ [i]) w = (.value l, t) ∧ Reading s module a h x t)
            (List.range vs.length) items := by
        refine List.forall₂_iff_get.2 ⟨by rw [List.length_range, hitems.length_eq], fun i _ hi => ?_⟩
        obtain ⟨v, hv, hl⟩ := hitems.getElem? (List.getElem?_eq_getElem hi)
        have hpart : h.part? (path ++ [i]) x = some v := by
          simp [Heap.part?_append, hpath, Heap.part?, Value.object?, Heap.list?, hid, hv]
        have hlower := Literal.height_le_heightAll (List.getElem_mem hi)
        rw [Literal.height] at hheight
        rw [List.get_eq_getElem, List.get_eq_getElem, List.getElem_range]
        exact readPart_literal hmodule fuel _ (path ++ [i]) v
          (Nat.le_trans hlower (Nat.le_of_succ_le_succ hheight)) hpart hl
      obtain ⟨t', hparts, ht'⟩ := mapM_of_forall₂ helements t (hr₄.intact ht)
      have hlist : h.slotType (.object id) = .list := by rw [Heap.slotType, hid]
      rw [hlist] at htype ⊢
      refine ⟨t', ?_, ht'⟩
      rw [show (SlotType.list == .null) = false from rfl, if_neg Bool.false_ne_true,
        Run.bind_of_value htype]
      dsimp only
      rw [Run.bind_of_value hcount, Run.bind_of_value hparts]
      rfl

end

/-! ## Hosts -/

/-- Variables are read into a slot that is there. -/
theorem reading_of_live {vm : VmId} {module : String} {a : Address} {x : Value} {w : World η}
    (hl : w.LiveAt vm a) (ha : a ∈ w.natives.keys) (hfaults : w.faults = [])
    (hx : (w.machine a).global? module "x" = some x) :
    ∃ t, Vm.ensureSlots vm 1 w = (.value (), t) ∧
      Reading ⟨vm, 0⟩ module a (w.machine a).heap x t := by
  have hlive : live vm "ensure_slots" w = (.value a, w) := by rw [live_of_alive hl.1, hl.2]
  refine ⟨(w.note (.enter a)).putMachine a ((w.machine a).ensureSlots 1), ?_, ?_⟩
  · unfold Vm.ensureSlots
    rw [Run.bind_of_value hlive]
    rfl
  · have hmachine : ((w.note (.enter a)).putMachine a ((w.machine a).ensureSlots 1)).machine a =
        (w.machine a).ensureSlots 1 := World.machine_putMachine_self (w := w.note (.enter a)) ha _
    refine ⟨hl, World.mem_natives_putMachine.2 ha, hfaults, ?_, ?_, ?_⟩ <;> rw [hmachine]
    · simp only [State.ensureSlots, List.length_append, List.length_replicate]
      omega
    · rfl
    · exact hx

/-- A report that nobody listens to is logged. -/
theorem report_of_no_listener [Observer η] {d : Delegates (Host η)} {a : Address} {vm : VmId}
    {r : Running (World (Host η))} (hreg : (world a r).registered.find? a = some vm)
    (hlistener : ((world a r).vm vm).listeners.error? = none) (diagnostic : Diagnostic) :
    ∃ t, (callbacks d a).report diagnostic r = (.value (), t) ∧ t.host.faults = r.host.faults := by
  have hlog : Trampoline.error d a diagnostic (world a r) =
      log .debug ("vm " ++ Text.Hex.address a ++ ": unhandled " ++ diagnostic.kind.name ++
        " error: " ++ diagnostic.message) (world a r) := by
    simp only [Trampoline.error, Trampoline.lookup_bind hreg, Vm.listeners_bind, hlistener]
  exact ⟨_, atHost_congr hlog, rfl⟩

namespace Setting

variable [Observer η] (s : Setting η)

/-- **A literal that is written into a program is read back.**  Its strings may have any characters, its
lists may be nested to any depth, and its text may be of any style.  The variable can be read in the
module neither because it is there already nor because the core module has it. -/
theorem literals_recovered {active : List Address} {w : World (Host η)} {vm : VmId} {a : Address}
    {module : String} (depth : Nat) (himports : 0 < s.importDepth) (hw : Steady active w)
    (hl : w.LiveAt vm a) (hfaults : w.faults = []) (hmodule : Text.firstNul? module = none)
    (hx : (w.machine a).lookup? module "x" = none) (style : Style) (l : Literal) :
    let e := s.code.engines s.importDepth depth (a :: active)
    ∃ w', Vm.interpret e vm module (l.source style) w = (.value .success, w') ∧
      ∀ fuel, l.height ≤ fuel → ∃ t, readBack vm module fuel w' = (.value l, t) := by
  intro e
  obtain ⟨imports, hdeep⟩ : ∃ n, e.importDepth = n + 1 := by
    have hsame : e.importDepth = s.importDepth := by cases depth <;> rfl
    exact ⟨s.importDepth - 1, by omega⟩
  have ha : a ∈ w.natives.keys := hw.sound.roster.mem_natives hl
  let r : Running (World (Host η)) := ⟨w.machine a, w.note (.enter a)⟩
  obtain ⟨v, t, hrun, hhost, -, hv, hrep⟩ :=
    Machine.interpret_literal (callbacks e.delegates a) module imports style l (r := r) hx
  rw [← hdeep] at hrun
  have hsource : Text.firstNul? (l.source style) = none :=
    Text.firstNul?_eq_none_iff.2 (l.nul_not_mem_source style)
  have hinterpret := interpret_of_run hw hl hmodule hsource hrun
  have hworld : world a t = (w.note (.enter a)).putMachine a t.machine := by rw [world, hhost]
  rw [hworld] at hinterpret
  generalize hw' : (w.note (.enter a)).putMachine a t.machine = w' at hinterpret
  have hmachine : w'.machine a = t.machine := by
    rw [← hw']
    exact World.machine_putMachine_self (w := w.note (.enter a)) ha t.machine
  have hfaults' : w'.faults = [] := by rw [← hw', ← hfaults]; rfl
  have htold : w'.toldResult .success = .success := by
    rw [World.toldResult, World.hasFault, hfaults']
    rfl
  rw [htold] at hinterpret
  refine ⟨w', hinterpret, fun fuel hfuel => ?_⟩
  have hlive : w'.LiveAt vm a := hw' ▸ hl
  have hin : a ∈ w'.natives.keys := hw' ▸ World.mem_natives_putMachine.2 ha
  obtain ⟨u, hensure, hreading⟩ := reading_of_live hlive hin hfaults' (hmachine ▸ hv)
  have hrep' : (w'.machine a).heap.Represents l v := hmachine ▸ hrep
  obtain ⟨u', hread, -⟩ := readPart_literal hmodule fuel l [] v hfuel rfl hrep' u hreading
  exact ⟨u', by rw [readBack, Run.bind_of_value hensure, hread]⟩

/-- A list with a text that needs escapes, and with a list in it. -/
def nested : Literal := .list [.text "a\x00\"\\%\n", .bool true, .list [.null, .list []]]

/-- The list is read back from the module it is defined in. -/
theorem literals_recovered_nested :
    Steady [] (exchanged .panic) ∧ (exchanged .panic).LiveAt 1 2 ∧ (exchanged .panic).faults = [] ∧
      Text.firstNul? "main" = none ∧ ((exchanged .panic).machine 2).lookup? "main" "x" = none ∧
      ∃ w', Vm.interpret (silent.engines [2]) 1 "main" (nested.source .escaping) (exchanged .panic) =
          (.value .success, w') ∧
        ∃ t, readBack 1 "main" 3 w' = (.value nested, t) := by
  have hend : (silent.run (.exchange .panic)).1.isFinal = false := congrArg (·.1) (exchanged_eq .panic)
  have hvm : (exchanged .panic).vm 1 =
      ⟨2, true, 1, .panic, .none, [(3, 1), (4, 3)]⟩ := congrArg (·.2.1) (exchanged_eq .panic)
  have hlive : (exchanged .panic).LiveAt 1 2 := by rw [World.LiveAt, hvm]; exact ⟨rfl, rfl⟩
  have hsteady : Steady [] (exchanged .panic) := silent.steady_run (.exchange .panic) hend
  have hfaults : (exchanged .panic).faults = [] := by cbv
  have hmodule : Text.firstNul? "main" = none := Text.firstNul?_eq_none_iff.2 (by decide)
  have hx : ((exchanged .panic).machine 2).lookup? "main" "x" = none := by cbv
  obtain ⟨w', hrun, hread⟩ := silent.literals_recovered 1 (by decide) hsteady hlive hfaults hmodule hx
    .escaping nested
  exact ⟨hsteady, hlive, hfaults, hmodule, hx, w', hrun, hread 3 (by decide)⟩

/-- A host that defines `x` in the core module, and asks whether another module has it. -/
def shade : Program Unit Bool :=
  .ask .newService fun service =>
  .ask (.create service ⟨none, none, none, none⟩) fun vm =>
  .ask (.interpret vm.id "core" "var x = null") fun _ =>
  .ask (.interpret vm.id "main" "var y = null") fun _ =>
  .ask (.access (.hasVariable vm.id "main" "x")) fun found => .done found

/-- The world in which the core module has `x`, and the module `main` does not. -/
def shaded : World (Host Unit) := (silent.run shade).2

theorem shaded_eq :
    ((silent.run shade).1, shaded.vm 1, shaded.faults, (shaded.machine 2).namesIn "main") =
      (.value false, ⟨2, true, 1, .panic, .none, []⟩, [], ["System", "Fiber", "x", "y"]) := by
  cbv

/-- A module without `x` does not take its definition, if the core module has `x`.  And a module with a
NUL in its name takes none. -/
theorem literal_refused_shaded :
    (silent.run shade).1 = .value false ∧
      (Vm.interpret (silent.engines [2]) 1 "main" (Literal.null.source .plain) shaded).1 =
        .value .compileError ∧
      (Vm.interpret (silent.engines [2]) 1 "\x00" (Literal.null.source .plain) shaded).1 =
        .fault (.stringConversion 0) := by
  have hfound : (silent.run shade).1 = .value false := congrArg (·.1) shaded_eq
  have hvm : shaded.vm 1 = ⟨2, true, 1, .panic, .none, []⟩ := congrArg (·.2.1) shaded_eq
  have hfaults : shaded.faults = [] := congrArg (·.2.2.1) shaded_eq
  have hnames : (shaded.machine 2).namesIn "main" = ["System", "Fiber", "x", "y"] :=
    congrArg (·.2.2.2) shaded_eq
  have hlive : shaded.LiveAt 1 2 := by rw [World.LiveAt, hvm]; exact ⟨rfl, rfl⟩
  have hsteady : Steady [] shaded :=
    silent.steady_run shade (by rw [hfound]; rfl)
  have hx : "x" ∈ (shaded.machine 2).namesIn "main" := by rw [hnames]; decide
  have hmodule : Text.firstNul? "main" = none := Text.firstNul?_eq_none_iff.2 (by decide)
  have hsource : Text.firstNul? (Literal.null.source .plain) = none :=
    Text.firstNul?_eq_none_iff.2 (Literal.null.nul_not_mem_source .plain)
  have hregistered : shaded.registered.find? 2 = some 1 :=
    (hsteady.sound.roster.registered 2 1).2 hlive
  refine ⟨hfound, ?_, ?_⟩
  · obtain ⟨t, hrun, hkept⟩ := Machine.interpret_literal_again
      (callbacks (silent.engines [2]).delegates 2) "main" 0 .plain .null
      (r := ⟨shaded.machine 2, shaded.note (.enter 2)⟩) hx
      (report_of_no_listener hregistered (congrArg (·.listeners.error?) hvm))
    have htold : (world 2 t).toldResult .compileError = .compileError := by
      rw [World.toldResult, World.hasFault, show (world 2 t).faults = [] from hkept.trans hfaults]
      rfl
    rw [interpret_of_run hsteady hlive hmodule hsource hrun, htold]
  · have hvalue : live 1 "interpret" shaded = (.value 2, shaded) := by
      rw [live_of_alive hlive.1, hlive.2]
    have hname : Text.firstNul? "\x00" = some 0 := by cbv
    have hrefused : (terminated "\x00" : Act (Host Unit) Unit) shaded =
        (.fault (.stringConversion 0), shaded) := by
      rw [terminated, hname]
      rfl
    unfold Vm.interpret
    rw [Run.bind_of_value hvalue, Run.bind_of_fault hrefused]

end Setting

end ScriptHost.Bridge
