import Mathlib.Data.List.InsertIdx
import ScriptHost.Machine.Evaluation
import ScriptHost.Proofs.Frame

/-!
# What a machine refers to

A machine refers to objects from its variables, slots, saved frames, pins and handles, and its objects
refer to others.  It is bounded by a set of numbers if its roots refer into the set, and so do the
objects in the set.  Values are never made up: what an entry point writes was read somewhere else in
the machine, so that a bound stays one as long as it covers what is new (`Edit.bounded`).

The objects on the heap bound a machine without dangling references, and the objects that some
collection has left, with all that are made behind it, bound any machine.
-/

namespace ScriptHost

namespace Table

variable {κ α : Type} [DecidableEq κ] {t : Table κ α} {k : κ} {a b : α}

theorem mem_values_of_putIn : ∀ {l : List (κ × α)}, b ∈ (putIn k a l).map Prod.snd →
    b = a ∨ b ∈ l.map Prod.snd
  | [], h => Or.inl (List.mem_singleton.1 h)
  | (k', a') :: rest, h => by
    rw [putIn] at h
    split at h
    · rcases List.mem_cons.1 h with h | h
      · exact Or.inl h
      · exact Or.inr (List.mem_cons_of_mem _ h)
    · rcases List.mem_cons.1 h with h | h
      · exact Or.inr (List.mem_cons.2 (Or.inl h))
      · exact (mem_values_of_putIn h).imp_right (List.mem_cons_of_mem _)

theorem mem_values_of_insert (h : b ∈ (t.insert k a).values) : b = a ∨ b ∈ t.values :=
  mem_values_of_putIn h

theorem mem_values_of_erase (h : b ∈ (t.erase k).values) : b ∈ t.values := by
  obtain ⟨e, he, rfl⟩ := List.mem_map.1 h
  exact List.mem_map_of_mem (List.mem_filter.1 he).1

end Table

namespace Machine

variable {P Q : ObjectId → Prop}

/-! ## Values -/

/-- A value refers to no object, or to one with a number in `P`. -/
def Value.Into (P : ObjectId → Prop) (v : Value) : Prop := ∀ id ∈ v.object?, P id

namespace Value

variable {v : Value} {id : ObjectId}

theorem into_of_none (hv : v.object? = none) : v.Into P := by
  intro id hid
  rw [hv] at hid
  exact absurd hid (by simp)

theorem into_null : Into P null := into_of_none rfl

theorem into_object : (object id).Into P ↔ P id := by
  simp [Into, object?]

theorem Into.mono (hv : v.Into P) (h : ∀ id, P id → Q id) : v.Into Q :=
  fun id hid => h id (hv id hid)

end Value

/-! ## Heaps -/

theorem Object.references_list {items : List Value} :
    (∀ r ∈ (Object.list items).references, P r) ↔ ∀ v ∈ items, v.Into P := by
  simp only [Object.references, List.mem_filterMap, Value.Into, Option.mem_def]
  exact ⟨fun hr v hv id hid => hr id ⟨v, hv, hid⟩, fun hv r ⟨v, hin, hid⟩ => hv v hin r hid⟩

theorem Object.references_map {entries : List (Value × Value)} :
    (∀ r ∈ (Object.map entries).references, P r) ↔ ∀ e ∈ entries, e.1.Into P ∧ e.2.Into P := by
  have hlist : (∀ r ∈ (Object.list (entries.flatMap fun e => [e.1, e.2])).references, P r) ↔
      ∀ v ∈ entries.flatMap fun e => [e.1, e.2], v.Into P :=
    Object.references_list
  refine hlist.trans ⟨fun hv e he => ⟨?_, ?_⟩, fun hv v hin => ?_⟩
  · exact hv e.1 (List.mem_flatMap.2 ⟨e, he, List.mem_cons_self⟩)
  · exact hv e.2 (List.mem_flatMap.2 ⟨e, he, List.mem_cons_of_mem _ List.mem_cons_self⟩)
  · obtain ⟨e, he, hin⟩ := List.mem_flatMap.1 hin
    rcases List.mem_cons.1 hin with rfl | hin
    · exact (hv e he).1
    · rw [List.mem_singleton.1 hin]
      exact (hv e he).2

/-- The objects with a number in `P` refer to such objects only. -/
def Heap.Bounded (P : ObjectId → Prop) (h : Heap) : Prop := ∀ id, P id → ∀ r ∈ h.references id, P r

namespace Heap.Bounded

variable {h : Heap} {id : ObjectId} {o : Object}

theorem references (hb : h.Bounded P) (hid : P id) (ho : h.get? id = some o) :
    ∀ r ∈ o.references, P r := by
  have hrefs := hb id hid
  rwa [Heap.references, ho] at hrefs

theorem list? (hb : h.Bounded P) (hid : P id) {items : List Value} (ho : h.list? id = some items) :
    ∀ v ∈ items, v.Into P :=
  Object.references_list.1 (hb.references hid (get?_of_list? ho))

theorem map? (hb : h.Bounded P) (hid : P id) {entries : List (Value × Value)}
    (ho : h.map? id = some entries) : ∀ e ∈ entries, e.1.Into P ∧ e.2.Into P :=
  Object.references_map.1 (hb.references hid (get?_of_map? ho))

/-- An object is written that refers into `P`. -/
theorem insert (hb : h.Bounded P) (ho : ∀ r ∈ o.references, P r) (n : Nat) :
    Heap.Bounded P ⟨h.objects.insert id o, n⟩ := by
  intro id' hid' r hr
  by_cases heq : id' = id
  · subst heq
    rw [Heap.references, get?, Table.find?_insert_self] at hr
    exact ho r hr
  · rw [Heap.references, get?, Table.find?_insert_ne _ _ heq] at hr
    exact hb id' hid' r hr

end Heap.Bounded

/-! ## Machines -/

namespace State

variable {m m' : State} {v : Value}

theorem mem_rootValues : v ∈ m.rootValues ↔
    (∃ g ∈ m.modules.values, v ∈ g.values) ∨ v ∈ m.slots ∨ (∃ f ∈ m.savedFrames, v ∈ f) ∨
      v ∈ m.pins ∨ m.abortRequest? = some v ∨ .value v ∈ m.handles.values := by
  simp only [rootValues, List.mem_append, List.mem_flatMap, List.mem_flatten, List.mem_filterMap,
    Option.mem_toList, or_assoc]
  refine or_congr_right (or_congr_right (or_congr_right (or_congr_right (or_congr_right ?_))))
  -- handles of methods are no roots
  constructor
  · rintro ⟨t, ht, hv⟩
    cases t with
    | value v' => cases hv; exact ht
    | method signature arity => exact absurd hv (by simp)
  · exact fun hv => ⟨_, hv, rfl⟩

/-- The roots of a machine refer into `P`, and so do the objects with a number in `P`. -/
structure Bounded (P : ObjectId → Prop) (m : State) : Prop where
  roots : ∀ v ∈ m.rootValues, v.Into P
  heap : m.heap.Bounded P

namespace Bounded

/-- The roots change, and the heap does not. -/
theorem reroot (h : m.Bounded P) (hheap : m'.heap = m.heap)
    (hroots : ∀ v ∈ m'.rootValues, v ∈ m.rootValues ∨ v.Into P) : m'.Bounded P := by
  refine ⟨fun v hv => ?_, ?_⟩
  · rcases hroots v hv with hv | hv
    · exact h.roots v hv
    · exact hv
  · rw [hheap]
    exact h.heap

/-! ### Reading -/

theorem global? (h : m.Bounded P) {module name : String} (hv : m.global? module name = some v) :
    v.Into P := by
  obtain ⟨g, hg, hv⟩ := Option.bind_eq_some_iff.1 hv
  exact h.roots v (mem_rootValues.2 (Or.inl
    ⟨g, Table.mem_values_of_find? hg, Table.mem_values_of_find? hv⟩))

theorem lookup? (h : m.Bounded P) {module name : String} (hv : m.lookup? module name = some v) :
    v.Into P := by
  rcases Option.or_eq_some_iff.1 hv with hv | ⟨-, hv⟩
  · exact h.global? hv
  · exact h.global? hv

theorem slots (h : m.Bounded P) (hv : v ∈ m.slots) : v.Into P :=
  h.roots v (mem_rootValues.2 (Or.inr (Or.inl hv)))

theorem pins (h : m.Bounded P) (hv : v ∈ m.pins) : v.Into P :=
  h.roots v (mem_rootValues.2 (Or.inr (Or.inr (Or.inr (Or.inl hv)))))

theorem abortRequest? (h : m.Bounded P) (hv : m.abortRequest? = some v) : v.Into P :=
  h.roots v (mem_rootValues.2 (Or.inr (Or.inr (Or.inr (Or.inr (Or.inl hv))))))

theorem handles (h : m.Bounded P) (hv : .value v ∈ m.handles.values) : v.Into P :=
  h.roots v (mem_rootValues.2 (Or.inr (Or.inr (Or.inr (Or.inr (Or.inr hv))))))

theorem slot (h : m.Bounded P) (index : Int) : (m.slot index).Into P := by
  unfold State.slot
  split
  · next i _ =>
    rw [List.getD_eq_getElem?_getD]
    cases hi : m.slots[i]? with
    | none => exact Value.into_null
    | some v => exact h.slots (List.mem_of_getElem? hi)
  · exact Value.into_null

/-! ### Writing -/

theorem setSlot (h : m.Bounded P) (index : Int) (hv : v.Into P) : (m.setSlot index v).Bounded P := by
  unfold State.setSlot
  split
  · next i _ =>
    refine h.reroot rfl fun u hu => ?_
    simp only [mem_rootValues] at hu ⊢
    rcases hu with hu | hu | hu
    · exact Or.inl (Or.inl hu)
    · rcases List.mem_or_eq_of_mem_set hu with hu | rfl
      · exact Or.inl (Or.inr (Or.inl hu))
      · exact Or.inr hv
    · exact Or.inl (Or.inr (Or.inr hu))
  · exact h

theorem define (h : m.Bounded P) (module name : String) (hv : v.Into P) :
    (m.define module name v).Bounded P := by
  refine h.reroot rfl fun u hu => ?_
  simp only [mem_rootValues] at hu ⊢
  refine hu.elim (fun ⟨g, hg, hu⟩ => ?_) fun hu => Or.inl (Or.inr hu)
  rcases Table.mem_values_of_insert hg with rfl | hg
  · rcases Table.mem_values_of_insert hu with rfl | hu
    · exact Or.inr hv
    · cases hfind : m.modules.find? module with
      | none =>
        rw [hfind] at hu
        exact absurd hu List.not_mem_nil
      | some globals =>
        rw [hfind] at hu
        exact Or.inl (Or.inl ⟨globals, Table.mem_values_of_find? hfind, hu⟩)
  · exact Or.inl (Or.inl ⟨g, hg, hu⟩)

theorem addModule (h : m.Bounded P) (module : String) : (m.addModule module).Bounded P := by
  unfold State.addModule
  split
  · exact h
  · refine h.reroot rfl fun u hu => ?_
    simp only [mem_rootValues] at hu ⊢
    refine hu.elim (fun ⟨g, hg, hu⟩ => ?_) fun hu => Or.inl (Or.inr hu)
    rcases Table.mem_values_of_insert hg with rfl | hg
    · exact absurd hu List.not_mem_nil
    · exact Or.inl (Or.inl ⟨g, hg, hu⟩)

/-- An object is replaced by one that refers into `P`. -/
theorem set (h : m.Bounded P) {id : ObjectId} {o : Object} (ho : ∀ r ∈ o.references, P r) :
    ({ m with heap := m.heap.set id o } : State).Bounded P :=
  ⟨h.roots, h.heap.insert ho _⟩

/-- An object is allocated that refers into `P`. -/
theorem alloc (h : m.Bounded P) {o : Object} (ho : ∀ r ∈ o.references, P r) :
    (m.alloc o).2.Bounded P :=
  ⟨h.roots, h.heap.insert ho _⟩

theorem allocInto (h : m.Bounded P) (index : Int) {o : Object} (ho : ∀ r ∈ o.references, P r)
    (hnew : P (m.heap.lastId + 1)) : (m.allocInto index o).Bounded P :=
  (h.alloc ho).setSlot index (Value.into_object.2 hnew)

/-- The running evaluation pins values and forgets them. -/
theorem pin (h : m.Bounded P) {values : List Value} (hv : ∀ v ∈ values, v.Into P) :
    ({ m with pins := values } : State).Bounded P := by
  refine h.reroot rfl fun u hu => ?_
  simp only [mem_rootValues] at hu ⊢
  rcases hu with hu | hu | hu | hu | hu
  · exact Or.inl (Or.inl hu)
  · exact Or.inl (Or.inr (Or.inl hu))
  · exact Or.inl (Or.inr (Or.inr (Or.inl hu)))
  · exact Or.inr (hv u hu)
  · exact Or.inl (Or.inr (Or.inr (Or.inr (Or.inr hu))))

theorem enterFrame (h : m.Bounded P) {frame : List Value} (hv : ∀ v ∈ frame, v.Into P) :
    (m.enterFrame frame).Bounded P := by
  refine h.reroot rfl fun u hu => ?_
  simp only [mem_rootValues, State.enterFrame] at hu ⊢
  rcases hu with hu | hu | ⟨f, hf, hu⟩ | hu | hu | hu
  · exact Or.inl (Or.inl hu)
  · exact Or.inr (hv u hu)
  · rcases List.mem_cons.1 hf with rfl | hf
    · exact Or.inl (Or.inr (Or.inl hu))
    · exact Or.inl (Or.inr (Or.inr (Or.inl ⟨f, hf, hu⟩)))
  · exact Or.inl (Or.inr (Or.inr (Or.inr (Or.inl hu))))
  · exact absurd hu (by simp)
  · exact Or.inl (Or.inr (Or.inr (Or.inr (Or.inr (Or.inr hu)))))

theorem leaveFrame (h : m.Bounded P) : m.leaveFrame.Bounded P := by
  refine h.reroot rfl fun u hu => ?_
  simp only [mem_rootValues, State.leaveFrame] at hu ⊢
  rcases hu with hu | hu | ⟨f, hf, hu⟩ | hu | hu | hu
  · exact Or.inl (Or.inl hu)
  · cases hframes : m.savedFrames with
    | nil =>
      rw [hframes] at hu
      exact absurd hu List.not_mem_nil
    | cons f rest =>
      rw [hframes] at hu
      exact Or.inl (Or.inr (Or.inr (Or.inl ⟨f, List.mem_cons_self, hu⟩)))
  · exact Or.inl (Or.inr (Or.inr (Or.inl ⟨f, List.mem_of_mem_tail hf, hu⟩)))
  · exact Or.inl (Or.inr (Or.inr (Or.inr (Or.inl hu))))
  · exact absurd hu (by simp)
  · exact Or.inl (Or.inr (Or.inr (Or.inr (Or.inr (Or.inr hu)))))

theorem storeHandle (h : m.Bounded P) (address : Nat) {target : HandleTarget}
    (ht : ∀ v, target = .value v → v.Into P) : (m.storeHandle address target).Bounded P := by
  refine h.reroot rfl fun u hu => ?_
  simp only [mem_rootValues, State.storeHandle] at hu ⊢
  rcases hu with hu | hu | hu | hu | hu | hu
  · exact Or.inl (Or.inl hu)
  · exact Or.inl (Or.inr (Or.inl hu))
  · exact Or.inl (Or.inr (Or.inr (Or.inl hu)))
  · exact Or.inl (Or.inr (Or.inr (Or.inr (Or.inl hu))))
  · exact Or.inl (Or.inr (Or.inr (Or.inr (Or.inr (Or.inl hu)))))
  · rcases Table.mem_values_of_insert hu with hu | hu
    · exact Or.inr (ht u hu.symm)
    · exact Or.inl (Or.inr (Or.inr (Or.inr (Or.inr (Or.inr hu)))))

/-- Roots are given up. -/
theorem releaseHandle (h : m.Bounded P) (address : Nat) : (m.releaseHandle address).Bounded P := by
  refine h.reroot rfl fun u hu => Or.inl ?_
  simp only [mem_rootValues, State.releaseHandle] at hu ⊢
  rcases hu with hu | hu | hu | hu | hu | hu
  · exact Or.inl hu
  · exact Or.inr (Or.inl hu)
  · exact Or.inr (Or.inr (Or.inl hu))
  · exact Or.inr (Or.inr (Or.inr (Or.inl hu)))
  · exact Or.inr (Or.inr (Or.inr (Or.inr (Or.inl hu))))
  · exact Or.inr (Or.inr (Or.inr (Or.inr (Or.inr (Table.mem_values_of_erase hu)))))

theorem requestAbort (h : m.Bounded P) (index : Int) : (m.requestAbort index).Bounded P := by
  refine h.reroot rfl fun u hu => ?_
  simp only [mem_rootValues, State.requestAbort] at hu ⊢
  rcases hu with hu | hu | hu | hu | hu | hu
  · exact Or.inl (Or.inl hu)
  · exact Or.inl (Or.inr (Or.inl hu))
  · exact Or.inl (Or.inr (Or.inr (Or.inl hu)))
  · exact Or.inl (Or.inr (Or.inr (Or.inr (Or.inl hu))))
  · cases hu
    exact Or.inr (h.slot index)
  · exact Or.inl (Or.inr (Or.inr (Or.inr (Or.inr (Or.inr hu)))))

theorem ensureSlots (h : m.Bounded P) (count : Int) : (m.ensureSlots count).Bounded P := by
  refine h.reroot rfl fun u hu => ?_
  simp only [mem_rootValues, State.ensureSlots] at hu ⊢
  rcases hu with hu | hu | hu
  · exact Or.inl (Or.inl hu)
  · rcases List.mem_append.1 hu with hu | hu
    · exact Or.inl (Or.inr (Or.inl hu))
    · rw [List.eq_of_mem_replicate hu]
      exact Or.inr Value.into_null
  · exact Or.inl (Or.inr (Or.inr hu))

end Bounded

/-! ## Entry points -/

theorem slot_of_slotList? {index : Int} {id : ObjectId} {items : List Value}
    (h : m.slotList? index = some (id, items)) : m.slot index = .object id := by
  unfold slotList? at h
  obtain ⟨id', hv, h⟩ := Option.bind_eq_some_iff.1 h
  obtain ⟨items', -, h⟩ := Option.bind_eq_some_iff.1 h
  cases h
  cases hslot : m.slot index with
  | object id' =>
    rw [hslot] at hv
    cases hv
    rfl
  | _ =>
    rw [hslot] at hv
    cases hv

theorem slot_of_slotMap? {index : Int} {id : ObjectId} {entries : List (Value × Value)}
    (h : m.slotMap? index = some (id, entries)) : m.slot index = .object id := by
  unfold slotMap? at h
  obtain ⟨id', hv, h⟩ := Option.bind_eq_some_iff.1 h
  obtain ⟨entries', -, h⟩ := Option.bind_eq_some_iff.1 h
  cases h
  cases hslot : m.slot index with
  | object id' =>
    rw [hslot] at hv
    cases hv
    rfl
  | _ =>
    rw [hslot] at hv
    cases hv

theorem mem_of_findEntry {key v : Value} : ∀ {entries : List (Value × Value)},
    findEntry key entries = some v → ∃ e ∈ entries, e.2 = v
  | [], h => absurd h (by simp [findEntry])
  | (k, u) :: rest, h => by
    rw [findEntry] at h
    split at h
    · exact ⟨(k, u), List.mem_cons_self, Option.some.inj h⟩
    · obtain ⟨e, he, hv⟩ := mem_of_findEntry h
      exact ⟨e, List.mem_cons_of_mem _ he, hv⟩

theorem mem_of_putEntry {key v : Value} {e : Value × Value} :
    ∀ {entries : List (Value × Value)}, e ∈ putEntry key v entries →
      e ∈ entries ∨ e.2 = v ∧ (e.1 = key ∨ ∃ e' ∈ entries, e'.1 = e.1)
  | [], h => by
    rw [List.mem_singleton.1 h]
    exact Or.inr ⟨rfl, Or.inl rfl⟩
  | (k, u) :: rest, h => by
    rw [putEntry] at h
    split at h
    · rcases List.mem_cons.1 h with rfl | h
      · exact Or.inr ⟨rfl, Or.inr ⟨(k, u), List.mem_cons_self, rfl⟩⟩
      · exact Or.inl (List.mem_cons_of_mem _ h)
    · rcases List.mem_cons.1 h with rfl | h
      · exact Or.inl List.mem_cons_self
      · rcases mem_of_putEntry h with h | ⟨hv, hk | ⟨e', he', hk⟩⟩
        · exact Or.inl (List.mem_cons_of_mem _ h)
        · exact Or.inr ⟨hv, Or.inl hk⟩
        · exact Or.inr ⟨hv, Or.inr ⟨e', List.mem_cons_of_mem _ he', hk⟩⟩

theorem mem_of_removeEntry {key : Value} {e : Value × Value} :
    ∀ {entries : List (Value × Value)}, e ∈ removeEntry key entries → e ∈ entries
  | [], h => absurd h List.not_mem_nil
  | (k, u) :: rest, h => by
    rw [removeEntry] at h
    split at h
    · exact List.mem_cons_of_mem _ h
    · rcases List.mem_cons.1 h with rfl | h
      · exact List.mem_cons_self
      · exact List.mem_cons_of_mem _ (mem_of_removeEntry h)

namespace Bounded

theorem slotList? (h : m.Bounded P) {index : Int} {id : ObjectId} {items : List Value}
    (hlist : m.slotList? index = some (id, items)) : P id ∧ ∀ v ∈ items, v.Into P := by
  have hid : P id := Value.into_object.1 (slot_of_slotList? hlist ▸ h.slot index)
  exact ⟨hid, h.heap.list? hid (m.list?_of_slotList? hlist)⟩

theorem slotMap? (h : m.Bounded P) {index : Int} {id : ObjectId} {entries : List (Value × Value)}
    (hmap : m.slotMap? index = some (id, entries)) :
    P id ∧ ∀ e ∈ entries, e.1.Into P ∧ e.2.Into P := by
  have hid : P id := Value.into_object.1 (slot_of_slotMap? hmap ▸ h.slot index)
  exact ⟨hid, h.heap.map? hid (m.map?_of_slotMap? hmap)⟩

/-- The value under a key, or null. -/
theorem findEntry (h : m.Bounded P) {index : Int} {id : ObjectId}
    {entries : List (Value × Value)} (hmap : m.slotMap? index = some (id, entries)) (key : Value) :
    ((State.findEntry key entries).getD .null).Into P := by
  cases hfind : State.findEntry key entries with
  | none => exact Value.into_null
  | some v =>
    obtain ⟨e, he, rfl⟩ := mem_of_findEntry hfind
    exact ((h.slotMap? hmap).2 e he).2

end Bounded

end State

section

variable {m m' : State}

/-- **What a host writes through an entry point refers to what the machine has referred to before**, or
to an object that is new. -/
theorem Edit.bounded {q : Rights} (he : Edit q m m') (h : m.Bounded P)
    (hnew : m.heap.lastId + 1 ∈ m'.heap.objects.keys → P (m.heap.lastId + 1)) : m'.Bounded P := by
  have hkey : ∀ (index : Int) (o : Object),
      m.heap.lastId + 1 ∈ (m.allocInto index o).heap.objects.keys := by
    intro index o
    rw [State.allocInto, (State.setSlot_eq_except_slots _ index _).2.2.2.2]
    exact Table.mem_keys_insert.2 (Or.inl rfl)
  cases he with
  | ensureSlots count => exact h.ensureSlots count
  | setSlot index _ hv => exact h.setSlot index (Value.into_of_none hv)
  | setSlotHandle index address =>
    unfold State.setSlotHandle
    split
    · next v hv => exact h.setSlot index (h.handles (Table.mem_values_of_find? hv))
    · exact h.setSlot index Value.into_null
  | getVariable module name index =>
    refine h.setSlot index ?_
    cases hv : m.global? module name with
    | none => exact Value.into_null
    | some v => exact h.global? hv
  | requestAbort _ index => exact h.requestAbort index
  | newList index =>
    exact h.allocInto index (fun r hr => absurd hr List.not_mem_nil) (hnew (hkey index _))
  | newMap index =>
    exact h.allocInto index (fun r hr => absurd hr List.not_mem_nil) (hnew (hkey index _))
  | getElement list index element =>
    unfold State.getElement
    split
    · next items hlist =>
      split
      · next v hv =>
        obtain ⟨i, -, hi⟩ := Option.bind_eq_some_iff.1 hv
        exact h.setSlot element ((h.slotList? hlist).2 v (List.mem_of_getElem? hi))
      · exact h
    · exact h
  | setElement list index element =>
    unfold State.setElement
    split
    · next items hlist =>
      split
      · refine h.set (Object.references_list.2 fun v hv => ?_)
        rcases List.mem_or_eq_of_mem_set hv with hv | rfl
        · exact (h.slotList? hlist).2 v hv
        · exact h.slot element
      · exact h
    · exact h
  | insertElement list index element =>
    unfold State.insertElement
    split
    · next items hlist =>
      split
      · refine h.set (Object.references_list.2 fun v hv => ?_)
        rcases List.eq_or_mem_of_mem_insertIdx hv with rfl | hv
        · exact h.slot element
        · exact (h.slotList? hlist).2 v hv
      · exact h
    · exact h
  | getEntry map key value =>
    unfold State.getEntry
    split
    · next entries hmap => exact h.setSlot value (h.findEntry hmap _)
    · exact h
  | setEntry map key value =>
    unfold State.setEntry
    split
    · next entries hmap =>
      refine h.set (Object.references_map.2 fun e he => ?_)
      rcases State.mem_of_putEntry he with he | ⟨hv, hk⟩
      · exact (h.slotMap? hmap).2 e he
      · refine ⟨?_, hv ▸ h.slot value⟩
        rcases hk with hk | ⟨e', he', hk⟩
        · exact hk ▸ h.slot key
        · exact hk ▸ ((h.slotMap? hmap).2 e' he').1
    · exact h
  | dropEntry map key removed =>
    unfold State.dropEntry
    split
    · next id entries hmap =>
      have hset : ({ m with heap := m.heap.set id (.map (State.removeEntry (m.slot key) entries)) } :
          State).Bounded P :=
        h.set (Object.references_map.2 fun e he =>
          (h.slotMap? hmap).2 e (State.mem_of_removeEntry he))
      exact hset.setSlot removed (h.findEntry hmap (m.slot key))
    · exact h

theorem State.class?_of_foreignClass? {index : Int} {owner : ObjectId}
    (hc : m.foreignClass? index = some owner) :
    m.slot index = .object owner ∧ (m.heap.class? owner).isSome := by
  obtain ⟨hv, hfilter⟩ := Option.filter_eq_some_iff.1 hc
  refine ⟨?_, ?_⟩
  · cases hslot : m.slot index with
    | object id =>
      rw [hslot] at hv
      cases hv
      rfl
    | _ =>
      rw [hslot] at hv
      cases hv
  · cases hclass : m.heap.class? owner with
    | none => simp [hclass] at hfilter
    | some c => rfl

/-- A new foreign object refers to its class. -/
theorem State.Bounded.newForeign (h : m.Bounded P) (index classIndex : Int) (address : Nat)
    (hnew : P (m.heap.lastId + 1)) : (m.newForeign index classIndex address).2.Bounded P := by
  unfold State.newForeign
  split
  · next owner hc =>
    refine h.allocInto index (fun r hr => ?_) hnew
    rw [List.mem_singleton.1 hr]
    have hslot := h.slot classIndex
    rw [(State.class?_of_foreignClass? hc).1] at hslot
    exact Value.into_object.1 hslot
  · exact h

/-- A tag is written into a data block, whose object keeps its class. -/
theorem State.Bounded.tagBlock (h : m.Bounded P) {address : Nat} (owner : Nat)
    (hblock : ∀ id c block, m.heap.get? id = some (.foreign c block) → block.address = address →
      P id) : (m.tagBlock address owner).Bounded P := by
  unfold State.tagBlock
  split
  · next id c block hfind =>
    refine h.set fun r hr => ?_
    have hget : m.heap.get? id = some (.foreign c block) :=
      Table.find?_of_mem_entries (List.mem_of_find?_eq_some hfind)
    have haddress : block.address = address := by
      simpa using List.find?_some hfind
    exact h.heap.references (hblock id c block hget haddress) hget r hr
  · exact h

end

end Machine

end ScriptHost
