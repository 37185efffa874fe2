import ScriptHost.Proofs.Bounded
import ScriptHost.Proofs.Sweep

/-!
# Machines without dangling references

A machine is whole if all objects that it refers to are on its heap: from its variables, slots, saved
frames, pins and handles, and from one object to another.  So the objects on its heap bound it, and
what an entry point writes refers to an object on the heap (`Edit.whole`).  A collection removes
objects, but none that can be reached (`Whole.sweep`).

Beside that, entry points and collections leave the pins and the saved frames alone (`Kept`): these
belong to the evaluation that runs.
-/

namespace ScriptHost

namespace Machine

/-! ## Heaps -/

namespace Heap

/-- A value refers to no object, or to one that is on the heap. -/
def Holds (h : Heap) (v : Value) : Prop := ∀ id ∈ v.object?, id ∈ h.objects.keys

/-- The objects on the heap refer to objects that are on the heap. -/
def Closed (h : Heap) : Prop := ∀ id ∈ h.objects.keys, ∀ r ∈ h.references id, r ∈ h.objects.keys

instance (h : Heap) (v : Value) : Decidable (h.Holds v) :=
  inferInstanceAs (Decidable (∀ id ∈ v.object?, id ∈ h.objects.keys))

instance (h : Heap) : Decidable h.Closed :=
  inferInstanceAs (Decidable (∀ id ∈ h.objects.keys, ∀ r ∈ h.references id, r ∈ h.objects.keys))

variable {h : Heap} {v : Value} {id : ObjectId}

theorem holds_of_none (hv : v.object? = none) : h.Holds v := Value.into_of_none hv

theorem holds_null (h : Heap) : h.Holds .null := holds_of_none rfl

theorem holds_object : h.Holds (.object id) ↔ id ∈ h.objects.keys := Value.into_object

theorem references_list {items : List Value} :
    (∀ r ∈ (Object.list items).references, r ∈ h.objects.keys) ↔ ∀ v ∈ items, h.Holds v :=
  Object.references_list

end Heap

/-! ## Roots -/

namespace State

variable {m m' : State} {v : Value}

/-- All objects that a machine refers to are on its heap. -/
structure Whole (m : State) : Prop where
  roots : ∀ v ∈ m.rootValues, m.heap.Holds v
  closed : m.heap.Closed

instance (m : State) : Decidable m.Whole :=
  decidable_of_iff ((∀ v ∈ m.rootValues, m.heap.Holds v) ∧ m.heap.Closed)
    ⟨fun h => ⟨h.1, h.2⟩, fun h => ⟨h.roots, h.closed⟩⟩

/-- What belongs to the running evaluation stays as it is. -/
structure Kept (m m' : State) : Prop where
  pins : m'.pins = m.pins
  savedFrames : m'.savedFrames = m.savedFrames

theorem Kept.refl (m : State) : Kept m m := ⟨rfl, rfl⟩

theorem Kept.trans {m₁ m₂ m₃ : State} (h : Kept m₁ m₂) (h' : Kept m₂ m₃) : Kept m₁ m₃ :=
  ⟨h'.pins.trans h.pins, h'.savedFrames.trans h.savedFrames⟩

/-- Nothing changes but the heap and the slots. -/
def Writes (m m' : State) : Prop := m' = { m with heap := m'.heap, slots := m'.slots }

theorem Writes.refl (m : State) : Writes m m := rfl

theorem Writes.trans {m₁ m₂ m₃ : State} (h : Writes m₁ m₂) (h' : Writes m₂ m₃) : Writes m₁ m₃ := by
  unfold Writes at h h' ⊢
  rw [h', h]

theorem Writes.abortRequest? (h : Writes m m') : m'.abortRequest? = m.abortRequest? := by rw [h]

/-- Nothing changes but the heap, the slots, and the wish of a host function to abort. -/
def Rewrites (m m' : State) : Prop :=
  m' = { m with heap := m'.heap, slots := m'.slots, abortRequest? := m'.abortRequest? }

theorem Writes.rewrites (h : Writes m m') : Rewrites m m' := by
  rw [h]
  rfl

theorem Rewrites.kept (h : Rewrites m m') : Kept m m' := by
  rw [h]
  exact ⟨rfl, rfl⟩

theorem Rewrites.modules (h : Rewrites m m') : m'.modules = m.modules := by rw [h]

theorem Rewrites.location (h : Rewrites m m') : m'.location = m.location := by rw [h]

namespace Whole

/-- A whole machine is bounded by the objects on its heap. -/
theorem bounded (h : m.Whole) : m.Bounded (· ∈ m.heap.objects.keys) := ⟨h.roots, h.closed⟩

/-- A larger bound covers numbers without objects, which refer to nothing. -/
theorem within (h : m.Whole) {P : ObjectId → Prop} (hP : ∀ id ∈ m.heap.objects.keys, P id) :
    m.Bounded P := by
  refine ⟨fun v hv => (h.bounded.roots v hv).mono hP, fun id _ r hr => ?_⟩
  by_cases hid : id ∈ m.heap.objects.keys
  · exact hP r (h.closed id hid r hr)
  · rw [Heap.references, Heap.get?, Table.find?_eq_none_iff.2 hid] at hr
    exact absurd hr List.not_mem_nil

/-- Work that leaves the heap alone. -/
theorem of_bounded (hheap : m'.heap = m.heap) (h : m'.Bounded (· ∈ m.heap.objects.keys)) :
    m'.Whole := by
  rw [← hheap] at h
  exact ⟨h.roots, h.heap⟩

/-- The roots change, and the heap does not. -/
theorem reroot (h : m.Whole) (hheap : m'.heap = m.heap)
    (hroots : ∀ v ∈ m'.rootValues, v ∈ m.rootValues ∨ m.heap.Holds v) : m'.Whole :=
  of_bounded hheap (h.bounded.reroot hheap hroots)

/-! ### Reading -/

theorem lookup? (h : m.Whole) {module name : String} (hv : m.lookup? module name = some v) :
    m.heap.Holds v :=
  h.bounded.lookup? hv

theorem global? (h : m.Whole) {module name : String} (hv : m.global? module name = some v) :
    m.heap.Holds v :=
  h.bounded.global? hv

theorem slots (h : m.Whole) (hv : v ∈ m.slots) : m.heap.Holds v := h.bounded.slots hv

theorem pins (h : m.Whole) (hv : v ∈ m.pins) : m.heap.Holds v := h.bounded.pins hv

theorem slot (h : m.Whole) (index : Int) : m.heap.Holds (m.slot index) := h.bounded.slot index

/-! ### Writing -/

theorem setSlot (h : m.Whole) (index : Int) (hv : m.heap.Holds v) : (m.setSlot index v).Whole :=
  of_bounded (m.setSlot_eq_except_slots index v).2.2.2.2 (h.bounded.setSlot index hv)

theorem define (h : m.Whole) (module name : String) (hv : m.heap.Holds v) :
    (m.define module name v).Whole :=
  of_bounded rfl (h.bounded.define module name hv)

theorem addModule (h : m.Whole) (module : String) : (m.addModule module).Whole := by
  refine of_bounded ?_ (h.bounded.addModule module)
  unfold State.addModule
  split <;> rfl

/-- An object is allocated, and can be referred to. -/
theorem alloc (h : m.Whole) {o : Object} (ho : ∀ r ∈ o.references, r ∈ m.heap.objects.keys) :
    (m.alloc o).2.Whole ∧ (m.alloc o).2.heap.Holds (.object (m.alloc o).1) := by
  have hkeys : ∀ id ∈ m.heap.objects.keys, id ∈ (m.alloc o).2.heap.objects.keys :=
    fun id hid => Table.mem_keys_insert.2 (Or.inr hid)
  have hbounded := (h.within hkeys).alloc fun r hr => hkeys r (ho r hr)
  exact ⟨⟨hbounded.roots, hbounded.heap⟩,
    Heap.holds_object.2 (Table.mem_keys_insert.2 (Or.inl rfl))⟩

/-- The running evaluation pins values and forgets them. -/
theorem pin (h : m.Whole) {values : List Value} (hv : ∀ v ∈ values, m.heap.Holds v) :
    ({ m with pins := values } : State).Whole :=
  of_bounded rfl (h.bounded.pin hv)

theorem enterFrame (h : m.Whole) {frame : List Value} (hv : ∀ v ∈ frame, m.heap.Holds v) :
    (m.enterFrame frame).Whole :=
  of_bounded rfl (h.bounded.enterFrame hv)

theorem leaveFrame (h : m.Whole) : m.leaveFrame.Whole := of_bounded rfl h.bounded.leaveFrame

theorem storeHandle (h : m.Whole) (address : Nat) {target : HandleTarget}
    (ht : ∀ v, target = .value v → m.heap.Holds v) : (m.storeHandle address target).Whole :=
  of_bounded rfl (h.bounded.storeHandle address ht)

/-- Roots are given up. -/
theorem releaseHandle (h : m.Whole) (address : Nat) : (m.releaseHandle address).Whole :=
  of_bounded rfl (h.bounded.releaseHandle address)

/-! ### Collections -/

theorem sweep (h : m.Whole) : m.sweep.2.Whole := by
  have hkeys : ∀ id ∈ m.heap.objects.keys, id ∈ m.heap.reachable m.roots →
      id ∈ m.sweep.2.heap.objects.keys := by
    intro id hid hreach
    obtain ⟨o, ho⟩ := Table.exists_find?_of_mem hid
    have hget := Heap.get?_collect m.heap m.roots id
    rw [if_pos hreach, Heap.get?, Heap.get?, ho] at hget
    exact Table.mem_keys_of_find? hget
  refine ⟨fun v hv id hid => ?_, fun id hid r hr => ?_⟩
  · have hroot : id ∈ m.roots := List.mem_filterMap.2 ⟨v, hv, hid⟩
    exact hkeys id (h.roots v hv id hid) (Heap.mem_reachable_of_root hroot)
  · have hget := Heap.get?_collect m.heap m.roots id
    obtain ⟨o, ho⟩ := Table.exists_find?_of_mem hid
    change m.sweep.2.heap.get? id = _ at hget
    rw [Heap.get?, ho] at hget
    split at hget
    · next hreach =>
      rw [Heap.references, Heap.get?, ho] at hr
      have hold : r ∈ m.heap.references id := by
        rw [Heap.references, ← hget]
        exact hr
      have hr' := h.bounded.heap.references (Table.mem_keys_of_find? hget.symm) hget.symm r hr
      exact hkeys r hr' (Heap.closed_reachable hreach hold)
    · exact absurd hget (by simp)

end Whole

/-! ## New machines -/

theorem whole_addCoreClass (h : m.Whole) (name : String) : (m.addCoreClass name).Whole := by
  have hrefs : ∀ r ∈ (Object.classDef (coreClass name)).references, r ∈ m.heap.objects.keys :=
    fun r hr => absurd hr List.not_mem_nil
  obtain ⟨hwhole, hholds⟩ := h.alloc hrefs
  exact hwhole.define coreModule name hholds

theorem whole_create (userData : Nat) : (create userData).Whole := by
  refine whole_addCoreClass (whole_addCoreClass ⟨fun v hv => ?_, fun id hid => ?_⟩ _) _
  · exact absurd hv (by simp [rootValues, Table.values, Table.empty])
  · exact absurd hid List.not_mem_nil

end State

/-! ## Entry points -/

section

variable {m m' : State}

theorem State.writes_setSlot (m : State) (index : Int) (v : Value) :
    State.Writes m (m.setSlot index v) := by
  unfold State.setSlot
  split
  · rfl
  · exact .refl m

theorem State.writes_allocInto (m : State) (index : Int) (o : Object) :
    State.Writes m (m.allocInto index o) := by
  have halloc : State.Writes m (m.alloc o).2 := rfl
  exact halloc.trans (State.writes_setSlot _ index _)

/-- An entry point asks to abort, or leaves all but slots and objects alone: the variables, and what
belongs to the running evaluation. -/
theorem Edit.request_or {q : Rights} (he : Edit q m m') :
    (q.requests ∧ ∃ index, m' = m.requestAbort index) ∨ State.Writes m m' := by
  cases he with
  | requestAbort hq index => exact Or.inl ⟨hq, index, rfl⟩
  | ensureSlots => exact Or.inr rfl
  | setSlot index | getVariable _ _ index => exact Or.inr (m.writes_setSlot index _)
  | newList index | newMap index => exact Or.inr (m.writes_allocInto index _)
  | setSlotHandle index address =>
    unfold State.setSlotHandle
    split
    · exact Or.inr (m.writes_setSlot index _)
    · exact Or.inr (m.writes_setSlot index _)
  | getElement list index element =>
    unfold State.getElement
    split
    · split
      · exact Or.inr (m.writes_setSlot element _)
      · exact Or.inr (.refl m)
    · exact Or.inr (.refl m)
  | setElement list index element =>
    unfold State.setElement
    split
    · split
      · exact Or.inr rfl
      · exact Or.inr (.refl m)
    · exact Or.inr (.refl m)
  | insertElement list index element =>
    unfold State.insertElement
    split
    · split
      · exact Or.inr rfl
      · exact Or.inr (.refl m)
    · exact Or.inr (.refl m)
  | getEntry map key value =>
    unfold State.getEntry
    split
    · exact Or.inr (m.writes_setSlot value _)
    · exact Or.inr (.refl m)
  | setEntry map key value =>
    unfold State.setEntry
    split
    · exact Or.inr rfl
    · exact Or.inr (.refl m)
  | dropEntry map key removed =>
    unfold State.dropEntry
    split
    · next id entries _ =>
      have hset : State.Writes m
          { m with heap := m.heap.set id (.map (State.removeEntry (m.slot key) entries)) } := rfl
      exact Or.inr (hset.trans (State.writes_setSlot _ removed _))
    · exact Or.inr (.refl m)

theorem Edit.writes {q : Rights} (he : Edit q m m') (hq : ¬ q.requests) : State.Writes m m' :=
  he.request_or.resolve_left fun h => hq h.1

theorem Edit.rewrites {q : Rights} (he : Edit q m m') : State.Rewrites m m' := by
  obtain ⟨-, index, rfl⟩ | he := he.request_or
  · rfl
  · exact he.rewrites

theorem State.mem_keys_setSlot {index : Int} {v : Value} {id : ObjectId} :
    id ∈ (m.setSlot index v).heap.objects.keys ↔ id ∈ m.heap.objects.keys := by
  rw [(m.setSlot_eq_except_slots index v).2.2.2.2]

theorem State.mem_keys_allocInto {index : Int} {o : Object} {id : ObjectId}
    (h : id ∈ m.heap.objects.keys) : id ∈ (m.allocInto index o).heap.objects.keys :=
  State.mem_keys_setSlot.2 (Table.mem_keys_insert.2 (Or.inr h))

/-- Entry points remove no object. -/
theorem Edit.keys {q : Rights} (he : Edit q m m') {id : ObjectId} (h : id ∈ m.heap.objects.keys) :
    id ∈ m'.heap.objects.keys := by
  cases he with
  | ensureSlots | requestAbort => exact h
  | setSlot | getVariable => exact State.mem_keys_setSlot.2 h
  | newList | newMap => exact State.mem_keys_allocInto h
  | setSlotHandle =>
    unfold State.setSlotHandle
    split <;> exact State.mem_keys_setSlot.2 h
  | getElement =>
    unfold State.getElement
    split
    · split
      · exact State.mem_keys_setSlot.2 h
      · exact h
    · exact h
  | setElement | insertElement =>
    simp only [State.setElement, State.insertElement]
    split
    · split
      · exact Table.mem_keys_insert.2 (Or.inr h)
      · exact h
    · exact h
  | getEntry =>
    unfold State.getEntry
    split
    · exact State.mem_keys_setSlot.2 h
    · exact h
  | setEntry =>
    unfold State.setEntry
    split
    · exact Table.mem_keys_insert.2 (Or.inr h)
    · exact h
  | dropEntry =>
    unfold State.dropEntry
    split
    · exact State.mem_keys_setSlot.2 (Table.mem_keys_insert.2 (Or.inr h))
    · exact h

/-- **What a host writes through an entry point refers to objects on the heap.** -/
theorem Edit.whole {q : Rights} (he : Edit q m m') (h : m.Whole) : m'.Whole := by
  have hbounded := he.bounded (h.within fun _ => he.keys) id
  exact ⟨hbounded.roots, hbounded.heap⟩

/-! ## Foreign objects -/

/-- A new foreign object refers to its class. -/
theorem State.Whole.newForeign (h : m.Whole) (index classIndex : Int) (address : Nat) :
    (m.newForeign index classIndex address).2.Whole := by
  unfold State.newForeign
  split
  · next owner hc =>
    have hkeys : ∀ id ∈ m.heap.objects.keys,
        id ∈ (m.allocInto index (.foreign owner ⟨address, none⟩)).heap.objects.keys :=
      fun id => State.mem_keys_allocInto
    have hbounded := (h.within hkeys).newForeign index classIndex address
      (State.mem_keys_setSlot.2 (Table.mem_keys_insert.2 (Or.inl rfl)))
    rw [State.newForeign, hc] at hbounded
    exact ⟨hbounded.roots, hbounded.heap⟩
  · exact h

theorem State.writes_newForeign (m : State) (index classIndex : Int) (address : Nat) :
    State.Writes m (m.newForeign index classIndex address).2 := by
  unfold State.newForeign
  split
  · exact m.writes_allocInto index _
  · exact .refl m

/-- A tag is written into a data block, whose object keeps its class. -/
theorem State.Whole.tagBlock (h : m.Whole) (address owner : Nat) :
    (m.tagBlock address owner).Whole := by
  have hkeys : ∀ id ∈ m.heap.objects.keys, id ∈ (m.tagBlock address owner).heap.objects.keys := by
    intro id hid
    unfold State.tagBlock
    split
    · exact Table.mem_keys_insert.2 (Or.inr hid)
    · exact hid
  have hbounded := (h.within hkeys).tagBlock owner
    fun id c block hget (_ : block.address = address) => hkeys id (Table.mem_keys_of_find? hget)
  exact ⟨hbounded.roots, hbounded.heap⟩

theorem State.writes_tagBlock (m : State) (address owner : Nat) :
    State.Writes m (m.tagBlock address owner) := by
  unfold State.tagBlock
  split
  · rfl
  · exact .refl m

end

end Machine

end ScriptHost
