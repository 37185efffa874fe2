import ScriptHost.Proofs.Operations

/-!
# What entry points are there for

The entry points of a machine check nothing: one that is called for a slot, a value or a position that
is not there has a default, or does nothing.  `EntryPoint.Does` says what each of them does where its
operands are there, and has no constructor for the rest; then the call does exactly this
(`EntryPoint.call_of_effective`).  The operands are there if the slot exists and reports the right type,
since what it reports of a value is what the value is.
-/

namespace ScriptHost.Machine.State

variable {m : State} {i : Nat}

/-- A slot holds a list. -/
def ListIn (m : State) (i : Nat) (id : ObjectId) (items : List Value) : Prop :=
  m.slots[i]? = some (.object id) ∧ m.heap.get? id = some (.list items)

/-- A slot holds a map. -/
def MapIn (m : State) (i : Nat) (id : ObjectId) (entries : List (Value × Value)) : Prop :=
  m.slots[i]? = some (.object id) ∧ m.heap.get? id = some (.map entries)

/-- The position among `upper` ones that an index means; a negative one counts from behind. -/
def IsPosition (index : Int) (upper position : Nat) : Prop :=
  position < upper ∧ (index = position ∨ index = (position : Int) - upper)

/-! ## Slots that are there -/

theorem position?_natCast (i : Nat) : position? (i : Int) = some i := by
  rw [position?, if_neg (Int.not_lt.2 (Int.natCast_nonneg i)), Int.toNat_natCast]

theorem slot_of_getElem? {v : Value} (h : m.slots[i]? = some v) : m.slot i = v := by
  rw [slot, position?_natCast]
  exact (List.getD_eq_getElem?_getD).trans (congrArg (Option.getD · .null) h)

theorem setSlot_natCast (m : State) (i : Nat) (v : Value) :
    m.setSlot i v = { m with slots := m.slots.set i v } := by
  rw [setSlot, position?_natCast]

theorem exists_slot (h : i < m.slots.length) : ∃ v, m.slots[i]? = some v ∧ m.slot i = v :=
  have hv := List.getElem?_eq_getElem h
  ⟨m.slots[i], hv, slot_of_getElem? hv⟩

theorem lt_of_slot {v : Value} (h : m.slots[i]? = some v) : i < m.slots.length :=
  (List.getElem?_eq_some_iff.1 h).1

theorem ListIn.slotList?_eq {id : ObjectId} {items : List Value} (h : m.ListIn i id items) :
    m.slotList? i = some (id, items) := by
  rw [slotList?, slot_of_getElem? h.1]
  simp [Value.object?, Heap.list?, h.2]

theorem MapIn.slotMap?_eq {id : ObjectId} {entries : List (Value × Value)}
    (h : m.MapIn i id entries) : m.slotMap? i = some (id, entries) := by
  rw [slotMap?, slot_of_getElem? h.1]
  simp [Value.object?, Heap.map?, h.2]

/-- Both sides take an index of at most `upper` positions for the same one. -/
theorem IsPosition.resolveIndex_eq {index : Int} {upper position : Nat}
    (h : IsPosition index upper position) : resolveIndex index upper = some position := by
  obtain ⟨hlt, rfl | rfl⟩ := h
  · have hindex : ¬ (position : Int) < 0 := by omega
    rw [resolveIndex, if_neg hindex, if_pos ⟨by omega, by omega⟩, Int.toNat_natCast]
  · have hindex : (position : Int) - upper < 0 := by omega
    rw [resolveIndex, if_pos hindex, if_pos ⟨by omega, by omega⟩]
    exact congrArg some (by omega)

/-- An index that is found to be one of `upper` positions means one of them. -/
theorem exists_isPosition {index : Int} {upper : Nat} (h : -(upper : Int) ≤ index ∧ index < upper) :
    ∃ position, IsPosition index upper position := by
  by_cases hneg : index < 0
  · exact ⟨(upper + index).toNat, by omega, Or.inr (by omega)⟩
  · exact ⟨index.toNat, by omega, Or.inl (by omega)⟩

/-! ### Entry points whose operands are there -/

theorem allocInto_natCast (m : State) (i : Nat) (o : Object) :
    m.allocInto i o = { m with
      heap := (m.heap.alloc o).2
      slots := m.slots.set i (.object (m.heap.alloc o).1) } := by
  rw [allocInto]
  exact setSlot_natCast _ i _

section

variable {id : ObjectId} {items : List Value} {entries : List (Value × Value)} {index : Int}
  {position j : Nat} {k v : Value}

theorem listCount_of_listIn (h : m.ListIn i id items) : m.listCount i = items.length := by
  rw [listCount, h.slotList?_eq]

theorem getElement_of_listIn (h : m.ListIn i id items)
    (hindex : IsPosition index items.length position) (hv : items[position]? = some v) :
    m.getElement i index j = { m with slots := m.slots.set j v } := by
  rw [getElement, h.slotList?_eq]
  dsimp only
  rw [hindex.resolveIndex_eq, Option.bind_some, hv]
  exact setSlot_natCast m j v

theorem setElement_of_listIn (h : m.ListIn i id items)
    (hindex : IsPosition index items.length position) (hv : m.slots[j]? = some v) :
    m.setElement i index j = { m with heap := m.heap.set id (.list (items.set position v)) } := by
  rw [setElement, h.slotList?_eq]
  dsimp only
  rw [hindex.resolveIndex_eq, slot_of_getElem? hv]

theorem insertElement_of_listIn (h : m.ListIn i id items)
    (hindex : IsPosition index (items.length + 1) position) (hv : m.slots[j]? = some v) :
    m.insertElement i index j =
      { m with heap := m.heap.set id (.list (items.insertIdx position v)) } := by
  rw [insertElement, h.slotList?_eq]
  dsimp only
  rw [hindex.resolveIndex_eq, slot_of_getElem? hv]

theorem mapCount_of_mapIn (h : m.MapIn i id entries) : m.mapCount i = entries.length := by
  rw [mapCount, h.slotMap?_eq]

theorem containsKey_of_mapIn (h : m.MapIn i id entries) (hk : m.slots[j]? = some k) :
    m.containsKey i j = (findEntry k entries).isSome := by
  rw [containsKey, h.slotMap?_eq, slot_of_getElem? hk]

theorem getEntry_of_mapIn (h : m.MapIn i id entries) (hk : m.slots[j]? = some k) (value : Nat) :
    m.getEntry i j value =
      { m with slots := m.slots.set value ((findEntry k entries).getD .null) } := by
  rw [getEntry, h.slotMap?_eq, slot_of_getElem? hk]
  exact setSlot_natCast m value _

theorem setEntry_of_mapIn (h : m.MapIn i id entries) (hk : m.slots[j]? = some k) {value : Nat}
    (hv : m.slots[value]? = some v) :
    m.setEntry i j value = { m with heap := m.heap.set id (.map (putEntry k v entries)) } := by
  rw [setEntry, h.slotMap?_eq, slot_of_getElem? hk, slot_of_getElem? hv]

theorem dropEntry_of_mapIn (h : m.MapIn i id entries) (hk : m.slots[j]? = some k)
    (removed : Nat) : m.dropEntry i j removed = { m with
      heap := m.heap.set id (.map (removeEntry k entries))
      slots := m.slots.set removed ((findEntry k entries).getD .null) } := by
  rw [dropEntry, h.slotMap?_eq, slot_of_getElem? hk]
  exact setSlot_natCast _ removed _

end

/-! ### Slots by the type that they are reported with -/

/-- A slot that exists holds a value of the type that is reported of it. -/
theorem exists_of_slotType {t : SlotType} (h : i < m.slots.length) (ht : m.slotType i = t) :
    ∃ v, m.slots[i]? = some v ∧ m.heap.slotType v = t := by
  obtain ⟨v, hv, hslot⟩ := exists_slot h
  refine ⟨v, hv, ?_⟩
  rw [← hslot]
  exact ht

/-- Objects are reported as what no other value is. -/
theorem slotType_object (h : Heap) (id : ObjectId) :
    h.slotType (.object id) ∈ [SlotType.list, .map, .foreign, .unknown] := by
  unfold Heap.slotType
  dsimp only
  split <;> simp

theorem bool_of_slotType (h : i < m.slots.length) (ht : m.slotType i = .bool) :
    ∃ b, m.slots[i]? = some (.bool b) := by
  obtain ⟨v, hv, htype⟩ := exists_of_slotType h ht
  cases v with
  | bool b => exact ⟨b, hv⟩
  | object id => exact absurd (htype ▸ slotType_object m.heap id) (by decide)
  | null | number | string => exact absurd htype (by simp [Heap.slotType])

theorem number_of_slotType (h : i < m.slots.length) (ht : m.slotType i = .number) :
    ∃ x, m.slots[i]? = some (.number x) := by
  obtain ⟨v, hv, htype⟩ := exists_of_slotType h ht
  cases v with
  | number x => exact ⟨x, hv⟩
  | object id => exact absurd (htype ▸ slotType_object m.heap id) (by decide)
  | null | bool | string => exact absurd htype (by simp [Heap.slotType])

theorem string_of_slotType (h : i < m.slots.length) (ht : m.slotType i = .string) :
    ∃ bytes, m.slots[i]? = some (.string bytes) := by
  obtain ⟨v, hv, htype⟩ := exists_of_slotType h ht
  cases v with
  | string bytes => exact ⟨bytes, hv⟩
  | object id => exact absurd (htype ▸ slotType_object m.heap id) (by decide)
  | null | bool | number => exact absurd htype (by simp [Heap.slotType])

/-- What is reported as a list, a map or a foreign object is an object of this kind. -/
theorem object_of_slotType {t : SlotType} (h : i < m.slots.length) (ht : m.slotType i = t)
    (hobject : t ∈ [SlotType.list, .map, .foreign]) :
    ∃ id o, m.slots[i]? = some (.object id) ∧ m.heap.get? id = some o ∧
      match o with
      | .list _ => t = .list
      | .map _ => t = .map
      | .foreign _ _ => t = .foreign
      | _ => False := by
  obtain ⟨v, hv, htype⟩ := exists_of_slotType h ht
  cases v with
  | object id =>
    unfold Heap.slotType at htype
    dsimp only at htype
    cases ho : m.heap.get? id with
    | none =>
      rw [ho] at htype
      obtain rfl : SlotType.unknown = t := htype
      exact absurd hobject (by decide)
    | some o =>
      refine ⟨id, o, hv, ho, ?_⟩
      rw [ho] at htype
      cases o with
      | list | map | foreign => exact htype.symm
      | classDef | instanceOf =>
        obtain rfl : SlotType.unknown = t := htype
        exact absurd hobject (by decide)
  | null | bool | number | string =>
    subst htype
    exact absurd hobject (by simp [Heap.slotType])

theorem list_of_slotType (h : i < m.slots.length) (ht : m.slotType i = .list) :
    ∃ id items, m.ListIn i id items := by
  obtain ⟨id, o, hv, ho, hkind⟩ := object_of_slotType h ht (by decide)
  cases o with
  | list items => exact ⟨id, items, hv, ho⟩
  | map | foreign => exact absurd hkind (by simp)
  | classDef | instanceOf => exact hkind.elim

theorem map_of_slotType (h : i < m.slots.length) (ht : m.slotType i = .map) :
    ∃ id entries, m.MapIn i id entries := by
  obtain ⟨id, o, hv, ho, hkind⟩ := object_of_slotType h ht (by decide)
  cases o with
  | map entries => exact ⟨id, entries, hv, ho⟩
  | list | foreign => exact absurd hkind (by simp)
  | classDef | instanceOf => exact hkind.elim

theorem foreign_of_slotType (h : i < m.slots.length) (ht : m.slotType i = .foreign) :
    ∃ id owner block, m.slots[i]? = some (.object id) ∧
      m.heap.get? id = some (.foreign owner block) := by
  obtain ⟨id, o, hv, ho, hkind⟩ := object_of_slotType h ht (by decide)
  cases o with
  | foreign owner block => exact ⟨id, owner, block, hv, ho⟩
  | list | map => exact absurd hkind (by simp)
  | classDef | instanceOf => exact hkind.elim

end ScriptHost.Machine.State

namespace ScriptHost.Bridge

open Machine (State Value ObjectId)
open Number (Double)

variable {η α β γ : Type}

/-! ## Entry points -/

/-- An entry point of a machine for slots, lists, maps and foreign objects, with its operands. -/
inductive EntryPoint : Type → Type where
  | slotBool (i : Nat) : EntryPoint Bool
  | slotDouble (i : Nat) : EntryPoint Double
  | slotBytes (i : Nat) : EntryPoint (List UInt8)
  | setSlot (i : Nat) (v : Value) : EntryPoint Unit
  | slotHandle (i : Nat) : EntryPoint (Option Address)
  | newList (i : Nat) : EntryPoint Unit
  | listCount (i : Nat) : EntryPoint Nat
  | getElement (i : Nat) (index : Int) (element : Nat) : EntryPoint Unit
  | setElement (i : Nat) (index : Int) (element : Nat) : EntryPoint Unit
  | insertElement (i : Nat) (index : Int) (element : Nat) : EntryPoint Unit
  | newMap (i : Nat) : EntryPoint Unit
  | mapCount (i : Nat) : EntryPoint Nat
  | containsKey (i key : Nat) : EntryPoint Bool
  | getEntry (i key value : Nat) : EntryPoint Unit
  | setEntry (i key value : Nat) : EntryPoint Unit
  | dropEntry (i key removed : Nat) : EntryPoint Unit
  | slotForeign (i : Nat) : EntryPoint Address

namespace EntryPoint

/-- Calls an entry point of the machine at an address. -/
def call (a : Address) : EntryPoint γ → Act η γ
  | slotBool i => readNative a fun m => m.slotBool i
  | slotDouble i => readNative a fun m => m.slotDouble i
  | slotBytes i => Native.slotBytes a i
  | setSlot i v => changeNative a fun m => m.setSlot i v
  | slotHandle i => Native.slotHandle a i
  | newList i => changeNative a fun m => m.newList i
  | listCount i => Native.listCount a i
  | getElement i index element => changeNative a fun m => m.getElement i index element
  | setElement i index element => changeNative a fun m => m.setElement i index element
  | insertElement i index element => changeNative a fun m => m.insertElement i index element
  | newMap i => changeNative a fun m => m.newMap i
  | mapCount i => Native.mapCount a i
  | containsKey i key => readNative a fun m => m.containsKey i key
  | getEntry i key value => changeNative a fun m => m.getEntry i key value
  | setEntry i key value => changeNative a fun m => m.setEntry i key value
  | dropEntry i key removed => changeNative a fun m => m.dropEntry i key removed
  | slotForeign i => Native.slotForeign a i

open Machine.State (findEntry putEntry removeEntry IsPosition)

/-- What an entry point does to a machine in which its operands are there: its result, and the machine
behind it.  Slots exist and hold what is meant, and an index means a position. -/
inductive Does (m : State) : {γ : Type} → EntryPoint γ → γ → State → Prop where
  | slotBool {i : Nat} {b : Bool} (h : m.slots[i]? = some (.bool b)) : Does m (.slotBool i) b m
  | slotDouble {i : Nat} {x : Double} (h : m.slots[i]? = some (.number x)) :
    Does m (.slotDouble i) x m
  | slotBytes {i : Nat} {bytes : List UInt8} (h : m.slots[i]? = some (.string bytes)) :
    Does m (.slotBytes i) bytes m
  | setSlot {i : Nat} {v : Value} (h : i < m.slots.length) :
    Does m (.setSlot i v) () { m with slots := m.slots.set i v }
  | slotHandle {i : Nat} {v : Value} {x : Address} (h : m.slots[i]? = some v)
      (hx : x ∉ m.handles.keys) :
    Does m (.slotHandle i) (some x) { m with handles := m.handles.insert x (.value v) }
  | newList {i : Nat} (h : i < m.slots.length) :
    Does m (.newList i) () { m with
      heap := (m.heap.alloc (.list [])).2
      slots := m.slots.set i (.object (m.heap.alloc (.list [])).1) }
  | listCount {i : Nat} {id : ObjectId} {items : List Value} (h : m.ListIn i id items) :
    Does m (.listCount i) items.length m
  | getElement {i : Nat} {index : Int} {element : Nat} {id : ObjectId} {items : List Value}
      {position : Nat} {v : Value} (h : m.ListIn i id items)
      (hindex : IsPosition index items.length position) (hv : items[position]? = some v)
      (helement : element < m.slots.length) :
    Does m (.getElement i index element) () { m with slots := m.slots.set element v }
  | setElement {i : Nat} {index : Int} {element : Nat} {id : ObjectId} {items : List Value}
      {position : Nat} {v : Value} (h : m.ListIn i id items)
      (hindex : IsPosition index items.length position) (hv : m.slots[element]? = some v) :
    Does m (.setElement i index element) ()
      { m with heap := m.heap.set id (.list (items.set position v)) }
  | insertElement {i : Nat} {index : Int} {element : Nat} {id : ObjectId} {items : List Value}
      {position : Nat} {v : Value} (h : m.ListIn i id items)
      (hindex : IsPosition index (items.length + 1) position)
      (hv : m.slots[element]? = some v) :
    Does m (.insertElement i index element) ()
      { m with heap := m.heap.set id (.list (items.insertIdx position v)) }
  | newMap {i : Nat} (h : i < m.slots.length) :
    Does m (.newMap i) () { m with
      heap := (m.heap.alloc (.map [])).2
      slots := m.slots.set i (.object (m.heap.alloc (.map [])).1) }
  | mapCount {i : Nat} {id : ObjectId} {entries : List (Value × Value)}
      (h : m.MapIn i id entries) : Does m (.mapCount i) entries.length m
  | containsKey {i key : Nat} {id : ObjectId} {entries : List (Value × Value)} {k : Value}
      (h : m.MapIn i id entries) (hk : m.slots[key]? = some k) :
    Does m (.containsKey i key) (findEntry k entries).isSome m
  | getEntry {i key value : Nat} {id : ObjectId} {entries : List (Value × Value)} {k : Value}
      (h : m.MapIn i id entries) (hk : m.slots[key]? = some k) (hvalue : value < m.slots.length) :
    Does m (.getEntry i key value) ()
      { m with slots := m.slots.set value ((findEntry k entries).getD .null) }
  | setEntry {i key value : Nat} {id : ObjectId} {entries : List (Value × Value)} {k v : Value}
      (h : m.MapIn i id entries) (hk : m.slots[key]? = some k) (hv : m.slots[value]? = some v) :
    Does m (.setEntry i key value) () { m with heap := m.heap.set id (.map (putEntry k v entries)) }
  | dropEntry {i key removed : Nat} {id : ObjectId} {entries : List (Value × Value)} {k : Value}
      (h : m.MapIn i id entries) (hk : m.slots[key]? = some k)
      (hremoved : removed < m.slots.length) :
    Does m (.dropEntry i key removed) () { m with
      heap := m.heap.set id (.map (removeEntry k entries))
      slots := m.slots.set removed ((findEntry k entries).getD .null) }
  | slotForeign {i : Nat} {id owner : ObjectId} {block : Machine.Block}
      (h : m.slots[i]? = some (.object id)) (hblock : m.heap.get? id = some (.foreign owner block)) :
    Does m (.slotForeign i) block.address m

/-- Whether the operands of an entry point are there. -/
def Effective (e : EntryPoint γ) (m : State) : Prop := ∃ result m', Does m e result m'

/-- What an element is taken from is a list, and its index means a position of it. -/
theorem isPosition_of_effective {m : State} {i element : Nat} {index : Int}
    (h : (getElement i index element).Effective m) :
    ∃ id items position, m.ListIn i id items ∧ IsPosition index items.length position := by
  have hall : ∀ {γ : Type} {e : EntryPoint γ} {result : γ} {m' : State}, Does m e result m' →
      match e with
      | .getElement i index _ =>
        ∃ id items position, m.ListIn i id items ∧ IsPosition index items.length position
      | _ => True := by
    intro γ e result m' hdoes
    cases hdoes with
    | getElement hlist hindex => exact ⟨_, _, _, hlist, hindex⟩
    | _ => trivial
  obtain ⟨_, _, hdoes⟩ := h
  exact hall hdoes

section

variable {w : World η} {a : Address}

theorem does_readNative {e : EntryPoint γ} (f : State → γ) {result : γ}
    (hcall : (e.call a : Act η γ) = readNative a f) (hf : f (w.machine a) = result)
    (h : Does (w.machine a) e result (w.machine a)) :
    ∃ result t, e.call a w = (.value result, t) ∧ Does (w.machine a) e result (t.machine a) := by
  subst hf
  rw [hcall]
  exact ⟨_, w.note (.enter a), rfl, h⟩

theorem does_changeNative {e : EntryPoint Unit} (f : State → State) {m' : State}
    (ha : a ∈ w.natives.keys) (hcall : (e.call a : Act η Unit) = changeNative a f)
    (hf : f (w.machine a) = m') (h : Does (w.machine a) e () m') :
    ∃ result t, e.call a w = (.value result, t) ∧ Does (w.machine a) e result (t.machine a) := by
  subst hf
  rw [hcall]
  refine ⟨(), (w.note (.enter a)).putMachine a (f (w.machine a)), rfl, ?_⟩
  rw [World.machine_putMachine_self (w := w.note (.enter a)) ha]
  exact h

/-- The length of a list is told as it is. -/
theorem listCount_eq {i : Nat} {id : ObjectId} {items : List Value}
    (hfault : w.hasFault .negativeListCount = false) (h : (w.machine a).ListIn i id items) :
    (Native.listCount a i : Act η Nat) w = (.value items.length, w.note (.enter a)) := by
  have htold : Native.toldCount w .negativeListCount ((w.machine a).listCount i) =
      items.length := by
    rw [Native.toldCount, hfault, if_neg Bool.false_ne_true, State.listCount_of_listIn h]
  exact Prod.ext (congrArg Outcome.value htold) rfl

/-- The number of entries of a map is told as it is. -/
theorem mapCount_eq {i : Nat} {id : ObjectId} {entries : List (Value × Value)}
    (hfault : w.hasFault .negativeMapCount = false) (h : (w.machine a).MapIn i id entries) :
    (Native.mapCount a i : Act η Nat) w = (.value entries.length, w.note (.enter a)) := by
  have htold : Native.toldCount w .negativeMapCount ((w.machine a).mapCount i) =
      entries.length := by
    rw [Native.toldCount, hfault, if_neg Bool.false_ne_true, State.mapCount_of_mapIn h]
  exact Prod.ext (congrArg Outcome.value htold) rfl

/-- **An entry point does what it is there for**, if its operands are there. -/
theorem call_of_effective {e : EntryPoint γ} (ha : a ∈ w.natives.keys) (hfaults : w.faults = [])
    (h : e.Effective (w.machine a)) :
    ∃ result t, e.call a w = (.value result, t) ∧ Does (w.machine a) e result (t.machine a) := by
  have hfault : ∀ f, w.hasFault f = false := fun f => by
    rw [World.hasFault, hfaults]
    rfl
  obtain ⟨result, m', hdoes⟩ := h
  cases hdoes with
  | slotBool h =>
    refine does_readNative (fun m => m.slotBool _) rfl ?_ (.slotBool h)
    rw [State.slotBool, State.slot_of_getElem? h]
  | slotDouble h =>
    refine does_readNative (fun m => m.slotDouble _) rfl ?_ (.slotDouble h)
    rw [State.slotDouble, State.slot_of_getElem? h]
  | slotBytes h =>
    refine ⟨_, w.note (.enter a), rfl, ?_⟩
    change Does (w.machine a) _ (if w.hasFault .nullBytes || w.hasFault .negativeBytes then [] else
      ((w.machine a).slotBytes? _).getD []) (w.machine a)
    rw [hfault, hfault, State.slotBytes?, State.slot_of_getElem? h]
    exact .slotBytes h
  | setSlot h =>
    exact does_changeNative (fun m => m.setSlot _ _) ha rfl (State.setSlot_natCast _ _ _) (.setSlot h)
  | @slotHandle i v _ h _ =>
    let x := w.placement.place w.serial w.taken
    have hx : x ∉ (w.machine a).handles.keys := fun hin =>
      w.placement.place_fresh _ _ (World.mem_taken_of_machine ha (Or.inl hin))
    have hnew := newHandle_eq (φ := HostError) (hfault .sameHandle) a fun m x => m.slotHandle x i
    rw [hfault, if_neg Bool.false_ne_true] at hnew
    refine ⟨_, _, hnew, ?_⟩
    change Does (w.machine a) _ _ ((w.putMachine a ((w.machine a).slotHandle x i)).machine a)
    rw [World.machine_putMachine_self ha, State.slotHandle, State.slot_of_getElem? h]
    exact .slotHandle h hx
  | newList h =>
    exact does_changeNative (fun m => m.newList _) ha rfl (State.allocInto_natCast _ _ _) (.newList h)
  | listCount h => exact ⟨_, w.note (.enter a), listCount_eq (hfault _) h, .listCount h⟩
  | getElement h hindex hv helement =>
    exact does_changeNative (fun m => m.getElement _ _ _) ha rfl
      (State.getElement_of_listIn h hindex hv) (.getElement h hindex hv helement)
  | setElement h hindex hv =>
    exact does_changeNative (fun m => m.setElement _ _ _) ha rfl
      (State.setElement_of_listIn h hindex hv) (.setElement h hindex hv)
  | insertElement h hindex hv =>
    exact does_changeNative (fun m => m.insertElement _ _ _) ha rfl
      (State.insertElement_of_listIn h hindex hv) (.insertElement h hindex hv)
  | newMap h =>
    exact does_changeNative (fun m => m.newMap _) ha rfl (State.allocInto_natCast _ _ _) (.newMap h)
  | mapCount h => exact ⟨_, w.note (.enter a), mapCount_eq (hfault _) h, .mapCount h⟩
  | containsKey h hk =>
    exact does_readNative (fun m => m.containsKey _ _) rfl (State.containsKey_of_mapIn h hk)
      (.containsKey h hk)
  | getEntry h hk hvalue =>
    exact does_changeNative (fun m => m.getEntry _ _ _) ha rfl (State.getEntry_of_mapIn h hk _)
      (.getEntry h hk hvalue)
  | setEntry h hk hv =>
    exact does_changeNative (fun m => m.setEntry _ _ _) ha rfl (State.setEntry_of_mapIn h hk hv)
      (.setEntry h hk hv)
  | dropEntry h hk hremoved =>
    exact does_changeNative (fun m => m.dropEntry _ _ _) ha rfl (State.dropEntry_of_mapIn h hk _)
      (.dropEntry h hk hremoved)
  | slotForeign h hblock =>
    refine ⟨_, w.note (.enter a), rfl, ?_⟩
    change Does (w.machine a) _ (if w.hasFault .nullSlotForeign then 0 else
      (((w.machine a).slotBlock? _).map Machine.Block.address).getD 0) (w.machine a)
    rw [hfault, State.slotBlock?, State.slot_of_getElem? h]
    simp [Value.object?, Machine.Heap.block?, hblock]
    exact .slotForeign h hblock

end

end EntryPoint

end ScriptHost.Bridge
