import ScriptHost.Proofs.Tending

/-!
# Slots that operations do not name

An operation that runs no program writes at most the slot that it names, its destination
(`Operation.destination?`).  Slots may be added, but what is added holds null, as a slot does that is not
there.  Collections write no slots; the finalizers that they call are programs, which name slots like
all others.

So a slot holds what it held behind any program that runs nothing and names another destination each
time, if the finalizers that it may set off do so, too (`keepsSlot_of_avoids`).
-/

namespace ScriptHost.Machine

variable {m m' m'' : State} {index : Int}

/-! ## Slots that are kept -/

/-- No slot is lost, and the one at an index holds what it held. -/
structure State.KeepsSlot (index : Int) (m m' : State) : Prop where
  length : m.slots.length ≤ m'.slots.length
  slot : m'.slot index = m.slot index

theorem State.eq_of_position? {k : Nat} (h : State.position? index = some k) : index = k := by
  unfold State.position? at h
  split at h
  · cases h
  · next hnonneg =>
    cases h
    exact (Int.toNat_of_nonneg (Int.not_lt.1 hnonneg)).symm

namespace State.KeepsSlot

theorem of_slots (h : m'.slots = m.slots) : KeepsSlot index m m' := by
  refine ⟨by rw [h], ?_⟩
  rw [State.slot, State.slot, h]

theorem refl (m : State) : KeepsSlot index m m := of_slots rfl

theorem trans (h : KeepsSlot index m m') (h' : KeepsSlot index m' m'') : KeepsSlot index m m'' :=
  ⟨h.length.trans h'.length, h'.slot.trans h.slot⟩

theorem setSlot (h : KeepsSlot index m m') {i : Int} (hi : i ≠ index) (v : Value) :
    KeepsSlot index m (m'.setSlot i v) := by
  refine h.trans ?_
  unfold State.setSlot
  split
  · next k hk =>
    refine ⟨(List.length_set ..).ge, ?_⟩
    unfold State.slot
    split
    · next j hj =>
      have hne : k ≠ j := by
        rintro rfl
        exact hi ((State.eq_of_position? hk).trans (State.eq_of_position? hj).symm)
      rw [List.getD_eq_getElem?_getD, List.getElem?_set_ne hne, List.getD_eq_getElem?_getD]
    · rfl
  · exact .refl m'

theorem allocInto (m : State) {i : Int} (hi : i ≠ index) (o : Object) :
    KeepsSlot index m (m.allocInto i o) :=
  (of_slots rfl : KeepsSlot index m (m.alloc o).2).setSlot hi _

theorem ensureSlots (m : State) (count : Int) : KeepsSlot index m (m.ensureSlots count) := by
  refine ⟨by simp [State.ensureSlots], ?_⟩
  unfold State.slot State.ensureSlots
  split
  · next i _ =>
    rw [List.getD_eq_getElem?_getD, List.getD_eq_getElem?_getD, List.getElem?_append]
    split
    · rfl
    · next hi =>
      rw [List.getElem?_eq_none (Nat.not_lt.1 hi), List.getElem?_replicate]
      split <;> rfl
  · rfl

end State.KeepsSlot

open State (KeepsSlot)

/-- **An entry point writes no slot that its host may not write.** -/
theorem Edit.keepsSlot {q : Rights} (he : Edit q m m') (hq : ¬ q.writes index) :
    KeepsSlot index m m' := by
  have hne : ∀ {i}, q.writes i → i ≠ index := fun hi heq => hq (heq ▸ hi)
  have hset : ∀ {i}, q.writes i → ∀ v, KeepsSlot index m (m.setSlot i v) := fun hi =>
    (KeepsSlot.refl m).setSlot (hne hi)
  cases he with
  | ensureSlots count => exact .ensureSlots m count
  | requestAbort => exact .of_slots rfl
  | setSlot _ hi | getVariable _ _ _ hi => exact hset hi _
  | newList _ hi | newMap _ hi => exact .allocInto m (hne hi) _
  | setSlotHandle _ _ hi =>
    unfold State.setSlotHandle
    split <;> exact hset hi _
  | getElement _ _ _ hi =>
    unfold State.getElement
    split
    · split
      · exact hset hi _
      · exact .refl m
    · exact .refl m
  | setElement | insertElement =>
    simp only [State.setElement, State.insertElement]
    split
    · split <;> exact .of_slots rfl
    · exact .refl m
  | getEntry _ _ _ hi =>
    unfold State.getEntry
    split
    · exact hset hi _
    · exact .refl m
  | setEntry =>
    unfold State.setEntry
    split <;> exact .of_slots rfl
  | dropEntry map key _ hi =>
    unfold State.dropEntry
    split
    · next id entries _ =>
      have hheap : KeepsSlot index m
          { m with heap := m.heap.set id (.map (State.removeEntry (m.slot key) entries)) } :=
        .of_slots rfl
      exact hheap.setSlot (hne hi) _
    · exact .refl m

end ScriptHost.Machine

namespace ScriptHost.Bridge

open Machine (State Rights)
open Machine.State (KeepsSlot)
open Run (Within)

variable {η α β : Type}

/-- **Work of a host writes no slot that it may not write.** -/
theorem Touch.keepsSlot {q : Rights} {m m' : State} {index : Int} (h : Touch q m m')
    (hq : ¬ q.writes index) : KeepsSlot index m m' := by
  cases h with
  | edit h => exact h.keepsSlot hq
  | @bear i classIndex owner x hi hc _ service =>
    have hne : i ≠ index := fun heq => hq (heq ▸ hi)
    have hnew : KeepsSlot index m (m.newForeign i classIndex x).2 := by
      rw [State.newForeign, hc]
      exact .allocInto m hne _
    refine hnew.trans (.of_slots ?_)
    unfold State.tagBlock
    split <;> rfl
  | _ => exact .of_slots rfl

/-! ## Programs that avoid a slot -/

/-- Whether an operation lets finalizers run. -/
def Operation.finalizes : Operation η β → Bool
  | .collectGarbage _ | .dispose _ | .drop _ => true
  | _ => false

/-- An operation that runs no program and names another slot, and lets finalizers run only if
`finalizing` holds. -/
structure Operation.Avoids (s : Slot) (finalizing : Prop) (op : Operation η β) : Prop where
  quiet : op.runs? = none
  destination : op.destination? ≠ some s
  finalizes : op.finalizes = true → finalizing

/-- A program all of whose operations avoid a slot. -/
def Program.Avoids (s : Slot) (finalizing : Prop) : Program η α → Prop
  | .done _ => True
  | .stop _ => True
  | .perform op next => op.Avoids s finalizing ∧ ∀ outcome, (next outcome).Avoids s finalizing

theorem Program.avoids_ask {s : Slot} {finalizing : Prop} {op : Operation η β}
    {next : β → Program η α} (hop : op.Avoids s finalizing)
    (hnext : ∀ v, (next v).Avoids s finalizing) : (Program.ask op next).Avoids s finalizing := by
  refine ⟨hop, fun outcome => ?_⟩
  cases outcome with
  | value v => exact hnext v
  | fault | halt => trivial

/-- Code whose finalizers avoid a slot. -/
structure Code.FinalizersAvoid (s : Slot) (code : Code η) : Prop where
  ofClass : ∀ f object, (code.classFinalizer f object).Avoids s True
  ofType : ∀ f payload, (code.typedFinalizer f payload).Avoids s True

/-- The slot `s` of the machine at `a` is not written. -/
def Regime.keepingSlot (s : Slot) (a : Address) (finalizing : Prop) : Regime η :=
  .about { Licence.free with sweeps := finalizing } s.vm a (fun _ => True) (KeepsSlot s.index)
    ⟨True, (· ≠ (s.index : Int))⟩

theorem tends_keepsSlot (index : Int) :
    Tends (fun _ => True) (KeepsSlot index) ⟨True, (· ≠ index)⟩ where
  refl := .refl
  trans _ _ _ := .trans
  touch h := ⟨id, h.keepsSlot fun hne => hne rfl⟩
  create := trivial

section

variable [Observer η] {s : Slot} {a : Address} {finalizing : Prop} {active : List Address}
  {engines : List Address → Engine (Host η)}

omit [Observer η] in
theorem Operation.Avoids.permits {op : Operation η β} (h : op.Avoids s finalizing) :
    (Regime.keepingSlot s a finalizing).Permits op := by
  cases op with
  | collectGarbage | dispose | drop => exact ⟨h.finalizes rfl, trivial⟩
  | interpret | call => cases h.quiet
  | _ => trivial

omit [Observer η] in
theorem Operation.Avoids.granted {op : Operation η β} (h : op.Avoids s finalizing) :
    op.Granted (Regime.keepingSlot s a finalizing : Regime η).rights where
  request _ _ _ := trivial
  destination t ht hvm hindex := by
    obtain ⟨vm, i⟩ := t
    obtain rfl : vm = s.vm := hvm
    obtain rfl : i = s.index := Int.ofNat.inj hindex
    exact h.destination ht

/-- Programs that avoid a slot leave it alone, if finalizers do. -/
theorem within_avoiding (hgathers : finalizing → ∀ active,
      (Regime.keepingSlot s a finalizing).Gathers active (engines active))
    {p : Program η α} (hp : p.Avoids s finalizing) :
    ∀ w, Within ((Regime.keepingSlot s a finalizing).Moves active)
      ((Regime.keepingSlot s a finalizing).Reaches active) (p.run engines active) w := by
  have k : (Regime.keepingSlot s a finalizing : Regime η).Lawful := lawful_about (tends_keepsSlot _)
  induction p with
  | done v => exact fun w => within_return k v w
  | stop halt => exact fun w => Run.within_halt k.span halt w
  | perform op next ih =>
    exact k.perform (fun w hop => k.operation hgathers op hp.1.permits hp.1.granted hp.1.quiet hop)
      fun outcome w => ih outcome (hp.2 outcome) w

/-- Collections leave a slot alone that finalizers avoid, however deep they nest. -/
theorem gathers_avoiding {code : Code η} (hcode : code.FinalizersAvoid s) (importDepth depth : Nat) :
    ∀ active, (Regime.keepingSlot s a True).Gathers active (code.engines importDepth depth active) := by
  have k : (Regime.keepingSlot s a True : Regime η).Lawful := lawful_about (tends_keepsSlot _)
  induction depth with
  | zero =>
    exact fun active => k.gathers_of_sweeps (sweeps_about (tends_keepsSlot _))
      ⟨fun _ _ w => Run.within_halt k.span _ w, fun _ _ w => Run.within_halt k.span _ w⟩
  | succ depth ih =>
    exact fun active => k.gathers_of_sweeps (sweeps_about (tends_keepsSlot _))
      ⟨fun f object => within_avoiding (fun _ => ih) (hcode.ofClass f object),
        fun f payload => within_avoiding (fun _ => ih) (hcode.ofType f payload)⟩

/-- **A slot is kept by programs that avoid it**, as long as its machine is alive. -/
theorem keepsSlot_of_avoids {code : Code η} {importDepth depth : Nat} {w w' : World (Host η)}
    {outcome : Outcome Empty α} {p : Program η α} (hp : p.Avoids s (code.FinalizersAvoid s))
    (hw : Steady active w) (hl : w.LiveAt s.vm a)
    (hrun : p.run (code.engines importDepth depth) active w = (outcome, w'))
    (hend : outcome.isFinal = false) (hl' : w'.LiveAt s.vm a) :
    KeepsSlot s.index (w.machine a) (w'.machine a) := by
  have hgathers : code.FinalizersAvoid s → ∀ active,
      (Regime.keepingSlot s a (code.FinalizersAvoid s)).Gathers active
        (code.engines importDepth depth active) := by
    intro hcode
    rw [eq_true hcode]
    exact gathers_avoiding hcode importDepth depth
  have hwithin : Within ((Regime.keepingSlot s a (code.FinalizersAvoid s)).Moves active)
      ((Regime.keepingSlot s a (code.FinalizersAvoid s)).Reaches active)
      (p.run (code.engines importDepth depth) active) w := within_avoiding hgathers hp w
  rw [Within, hrun] at hwithin
  obtain ⟨-, -, -, hkeeps⟩ := hwithin.2 hend hw fun _ => trivial
  exact (hkeeps (hw.sound.roster.known _ (World.mem_vms_of_isAlive hl.1)) hl').2

end

end ScriptHost.Bridge
