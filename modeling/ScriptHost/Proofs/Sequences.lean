import ScriptHost.Proofs.Serving

/-!
# Lists are sequences that are shared

Behind the list operations stands a much simpler thing: numbered sequences, and slots with values
that may refer to them (`Sequences`).  A negative index counts from behind, what is no position is
refused, and writing an element or inserting one leaves the others in their order.

A machine is looked at as its sequences (`Sequences.of`).  Each operation through slots ends as it
does there, and leaves a machine that shows what is there then (`serves_request`), so a host cannot
tell the two apart, whatever it asks for one after the other (`Setting.sequences_served`).  Slots,
variables, handles, elements and entries refer to a sequence by its number, so all that hold a list
see every change of it.
-/

namespace ScriptHost.Machine

/-! ## Places for values -/

/-- Where a machine has a value. -/
inductive Holder where
  | slot (i : Nat)
  | global (module name : String)
  | handle (address : Nat)
  /-- A position of a list. -/
  | element (id : ObjectId) (i : Nat)
  /-- The value of an entry of a map. -/
  | entry (id : ObjectId) (i : Nat)

namespace State

/-- The value at a place. -/
def held? (m : State) : Holder → Option Value
  | .slot i => m.slots[i]?
  | .global module name => m.global? module name
  | .handle address =>
    match m.handles.find? address with
    | some (.value v) => some v
    | _ => none
  | .element id i => (m.heap.list? id).bind (·[i]?)
  | .entry id i => ((m.heap.map? id).bind (·[i]?)).map Prod.snd

/-- The elements of the list at a place. -/
def shown? (m : State) (place : Holder) : Option (List Value) :=
  (m.held? place).bind fun v => v.object?.bind m.heap.list?

/-- Only slots and lists are written. -/
structure WritesLists (m m' : State) : Prop where
  rest : m' = { m with slots := m'.slots, heap := m'.heap }
  objects : ∀ id, m'.heap.get? id = m.heap.get? id ∨
    (m'.heap.list? id).isSome ∧ ((m.heap.list? id).isSome ∨ m.heap.get? id = none)
  numbered : m'.heap.Numbered

namespace WritesLists

variable {m m' m'' : State}

theorem refl (hn : m.heap.Numbered) : m.WritesLists m := ⟨rfl, fun _ => .inl rfl, hn⟩

theorem alters (h : m.WritesLists m') :
    Heap.Alters (fun heap id => (heap.list? id).isSome) m.heap m'.heap :=
  h.objects

theorem trans (h : m.WritesLists m') (h' : m'.WritesLists m'') : m.WritesLists m'' := by
  refine ⟨?_, h.alters.trans (fun hget => ?_) h'.alters, h'.numbered⟩
  · rw [h'.rest, h.rest]
  · rw [Heap.list?, hget, Heap.list?]

/-- A slot is written. -/
theorem slot (hn : m.heap.Numbered) (i : Nat) (v : Value) :
    m.WritesLists { m with slots := m.slots.set i v } :=
  ⟨rfl, fun _ => .inl rfl, hn⟩

/-- A new list is put into a slot. -/
theorem newList (hn : m.heap.Numbered) (i : Nat) : m.WritesLists (m.newList i) := by
  have halters : Heap.Alters (fun heap id => (heap.list? id).isSome) m.heap
      (m.heap.alloc (.list [])).2 := .alloc hn (by rw [Heap.list?, Heap.get?_alloc_self]; rfl)
  rw [State.newList, allocInto_natCast]
  exact ⟨rfl, halters, hn.alloc _⟩

/-- The elements of a list are replaced. -/
theorem elements (hn : m.heap.Numbered) {id : ObjectId} {items : List Value}
    (hid : m.heap.get? id = some (.list items)) (items' : List Value) :
    m.WritesLists { m with heap := m.heap.set id (.list items') } := by
  have hself : (m.heap.set id (.list items')).get? id = some (.list items') :=
    Table.find?_insert_self ..
  have halters : Heap.Alters (fun heap id => (heap.list? id).isSome) m.heap
      (m.heap.set id (.list items')) :=
    .set (by rw [Heap.list?, hid]; rfl) (by rw [Heap.list?, hself]; rfl)
  exact ⟨rfl, halters, (Heap.Later.set hid _).numbered hn⟩

/-- Maps stay what they are. -/
theorem map?_eq (h : m.WritesLists m') (id : ObjectId) : m'.heap.map? id = m.heap.map? id := by
  have hnone : ∀ {heap : Heap}, (heap.list? id).isSome → heap.map? id = none := fun hlist => by
    obtain ⟨items, hitems⟩ := Option.isSome_iff_exists.1 hlist
    rw [Heap.map?, Heap.get?_of_list? hitems]
  rcases h.objects id with hsame | ⟨hafter, hbefore | hbefore⟩
  · rw [Heap.map?, hsame, Heap.map?]
  · rw [hnone hafter, hnone hbefore]
  · rw [hnone hafter, Heap.map?, hbefore]

end WritesLists

end State

end ScriptHost.Machine

namespace ScriptHost.Bridge

open Machine (State Value ObjectId Holder)

variable {η α β γ : Type}

/-! ## Sequences -/

/-- An operation on lists, through slots of one machine. -/
inductive ListRequest where
  | make (slot : Nat)
  | count (slot : Nat)
  | read (slot : Nat) (index : Int) (element : Nat)
  | write (slot : Nat) (index : Int) (element : Nat)
  | insert (slot : Nat) (index : Int) (element : Nat)

/-- What there is under a number: a sequence, or something else of a type. -/
inductive Thing where
  | sequence (items : List Value)
  | other (type : SlotType)

/-- Numbered sequences, and slots with values that may refer to them. -/
structure Sequences where
  slots : List Value
  things : ObjectId → Thing
  /-- The number of the sequence that is made next. -/
  next : ObjectId

namespace Sequences

/-- The sequence with a number. -/
def items? (s : Sequences) (id : ObjectId) : Option (List Value) :=
  match s.things id with
  | .sequence items => some items
  | .other _ => none

/-- Gives a number to a sequence. -/
def assign (s : Sequences) (id : ObjectId) (items : List Value) : Sequences :=
  { s with things := Function.update s.things id (.sequence items) }

/-- The value in a slot. -/
def value (s : Sequences) (slot : Nat) : Except HostError Value :=
  match s.slots[slot]? with
  | some v => .ok v
  | none => .error (.slotOutOfRange slot s.slots.length)

/-- The sequence that a value refers to with its number, or else the type of the value. -/
def find (s : Sequences) : Value → Except SlotType (ObjectId × List Value)
  | .null => .error .null
  | .bool _ => .error .bool
  | .number _ => .error .number
  | .string _ => .error .string
  | .object id =>
    match s.things id with
    | .sequence items => .ok (id, items)
    | .other type => .error type

/-- The sequence of the value in a slot. -/
def sequence (s : Sequences) (slot : Nat) (v : Value) : Except HostError (ObjectId × List Value) :=
  (s.find v).mapError (.slotTypeMismatch slot .list)

/-- The sequence in a slot with its number, and the value in a slot for an element. -/
def operands (s : Sequences) (slot element : Nat) :
    Except HostError (Value × ObjectId × List Value) := do
  let v ← s.value slot
  let e ← s.value element
  return (e, ← s.sequence slot v)

/-- The position among `upper` ones that an index means; a negative one counts from behind. -/
def position (index : Int) (upper length : Nat) : Except HostError Nat :=
  let meant := if index < 0 then upper + index else index
  if 0 ≤ meant ∧ meant < upper then .ok meant.toNat
  else .error (.listIndexOutOfRange index length)

/-- What comes of a request, with the sequences afterwards.  A sequence has one position more for
what is inserted than for what is there. -/
def perform (s : Sequences) : ListRequest → Except HostError (Option Nat × Sequences)
  | .make slot => do
    let _ ← s.value slot
    return (none, { s.assign s.next [] with
      slots := s.slots.set slot (.object s.next), next := s.next + 1 })
  | .count slot => do
    let (_, items) ← s.sequence slot (← s.value slot)
    return (some items.length, s)
  | .read slot index element => do
    let (_, _, items) ← s.operands slot element
    let i ← position index items.length items.length
    return (none, { s with slots := s.slots.set element (items.getD i .null) })
  | .write slot index element => do
    let (e, id, items) ← s.operands slot element
    let i ← position index items.length items.length
    return (none, s.assign id (items.take i ++ e :: items.drop (i + 1)))
  | .insert slot index element => do
    let (e, id, items) ← s.operands slot element
    let i ← position index (items.length + 1) items.length
    return (none, s.assign id (items.take i ++ e :: items.drop i))

/-- The sequences behind what comes of a request.  One that is refused changes nothing. -/
def left (s : Sequences) : Except HostError (Option Nat × Sequences) → Sequences
  | .ok (_, s') => s'
  | .error _ => s

/-- The answers to requests, one after the other, with the sequences behind the last one. -/
def performAll : Sequences → List ListRequest → List (Except HostError (Option Nat)) × Sequences
  | s, [] => ([], s)
  | s, r :: rest =>
    let (answers, s') := (s.left (s.perform r)).performAll rest
    ((Prod.fst <$> s.perform r) :: answers, s')

/-- The value at a place.  What is neither a slot nor an element is as it is in `m`. -/
def held? (s : Sequences) (m : State) : Holder → Option Value
  | .slot i => s.slots[i]?
  | .element id i => (s.items? id).bind (·[i]?)
  | .global module name => m.held? (.global module name)
  | .handle address => m.held? (.handle address)
  | .entry id i => m.held? (.entry id i)

/-- The sequence at a place. -/
def shown? (s : Sequences) (m : State) (place : Holder) : Option (List Value) :=
  (s.held? m place).bind fun v => v.object?.bind s.items?

theorem left_eq_behind (s : Sequences) (r : Except HostError (Option Nat × Sequences)) :
    s.left r = behind s r := by
  cases r <;> rfl

theorem performAll_eq_answers : ∀ (s : Sequences) (requests : List ListRequest),
    s.performAll requests = answers perform s requests
  | _, [] => rfl
  | s, r :: rest => by
    rw [performAll, answers, performAll_eq_answers _ rest, left_eq_behind]

/-- An index is refused exactly if it means no position. -/
theorem position_eq_error_iff {index : Int} {upper length : Nat} :
    position index upper length = .error (.listIndexOutOfRange index length) ↔
      ¬ (-(upper : Int) ≤ index ∧ index < upper) := by
  unfold position
  dsimp only
  split <;> split <;> simp <;> omega

theorem isPosition_of_position {index : Int} {upper length i : Nat}
    (h : position index upper length = .ok i) : State.IsPosition index upper i := by
  unfold position at h
  dsimp only at h
  split at h <;> split at h <;> cases h
  · exact ⟨by omega, .inr (by omega)⟩
  · exact ⟨by omega, .inl (by omega)⟩

/-! ### The sequences of a machine -/

/-- A machine, looked at as its sequences. -/
def of (m : State) : Sequences where
  slots := m.slots
  things id :=
    match m.heap.get? id with
    | some (.list items) => .sequence items
    | _ => .other (m.heap.slotType (.object id))
  next := m.heap.lastId + 1

section

variable {m m' : State} {id : ObjectId} {items : List Value} {v : Value}

theorem things_of_list (h : m.heap.get? id = some (.list items)) :
    (of m).things id = .sequence items := by
  simp only [of, h]

theorem items?_of (m : State) (id : ObjectId) : (of m).items? id = m.heap.list? id := by
  unfold items? of Machine.Heap.list?
  dsimp only
  cases m.heap.get? id with
  | none => rfl
  | some o => cases o <;> rfl

theorem list_of_find (h : (of m).find v = .ok (id, items)) :
    v = .object id ∧ m.heap.get? id = some (.list items) := by
  cases v with
  | object id' =>
    unfold find of at h
    dsimp only at h
    cases hget : m.heap.get? id' with
    | none => simp [hget] at h
    | some o => cases o <;> simp_all
  | null | bool | number | string => cases h

theorem value_eq_ok {i : Nat} (h : (of m).value i = .ok v) : m.slots[i]? = some v := by
  unfold value at h
  split at h
  · next hv => cases h; exact hv
  · cases h

/-- The list of a sequence is in the slot. -/
theorem listIn_of_sequence {i : Nat} {p : ObjectId × List Value} (hv : m.slots[i]? = some v)
    (h : (of m).sequence i v = .ok p) : m.ListIn i p.1 p.2 := by
  unfold sequence at h
  cases hfind : (of m).find v with
  | error actual =>
    rw [hfind] at h
    cases h
  | ok q =>
    rw [hfind] at h
    cases h
    obtain ⟨rfl, hget⟩ := list_of_find hfind
    exact ⟨hv, hget⟩

/-- The operands of a request are in the slots. -/
theorem listIn_of_operands {i j : Nat} {o : Value × ObjectId × List Value}
    (h : (of m).operands i j = .ok o) : m.ListIn i o.2.1 o.2.2 ∧ m.slots[j]? = some o.1 := by
  unfold operands at h
  obtain ⟨v, hv, h⟩ := ok_of_bind h
  obtain ⟨e, he, h⟩ := ok_of_bind h
  obtain ⟨p, hp, h⟩ := ok_of_bind h
  cases h
  exact ⟨listIn_of_sequence (value_eq_ok hv) hp, value_eq_ok he⟩

/-- A value that refers to a sequence is reported as a list, and another one as what it is. -/
theorem slotType_eq_find (m : State) (v : Value) :
    m.heap.slotType v = match (of m).find v with
      | .ok _ => .list
      | .error actual => actual := by
  cases v with
  | object id =>
    unfold find of
    dsimp only
    cases hget : m.heap.get? id with
    | none => rfl
    | some o =>
      cases o with
      | list items => simp only [Machine.Heap.slotType, hget]
      | map | classDef | instanceOf | foreign => rfl
  | null | bool | number | string => rfl

theorem find_ne_list (m : State) (v : Value) : (of m).find v ≠ .error .list := by
  intro h
  cases v with
  | object id =>
    unfold find of at h
    dsimp only at h
    cases hget : m.heap.get? id with
    | none => simp [hget, Machine.Heap.slotType] at h
    | some o => cases o <;> simp [hget, Machine.Heap.slotType] at h
  | null | bool | number | string => cases h

/-- What two heaps have alike is the same thing. -/
theorem things_congr (h : m'.heap.get? id = m.heap.get? id) :
    (of m').things id = (of m).things id := by
  simp only [of, Machine.Heap.slotType, h]

theorem of_newList (m : State) (slot : Nat) :
    of (m.newList slot) = { (of m).assign (of m).next [] with
      slots := m.slots.set slot (.object (of m).next), next := (of m).next + 1 } := by
  have hthings : (of (m.newList slot)).things =
      Function.update (of m).things (of m).next (.sequence []) := by
    rw [State.newList, State.allocInto_natCast]
    funext id
    by_cases hid : id = (of m).next
    · subst hid
      rw [Function.update_self]
      exact things_of_list (m.heap.get?_alloc_self (.list []))
    · rw [Function.update_of_ne hid]
      exact things_congr (m.heap.get?_alloc_of_ne (.list []) hid)
  have hslots : (m.newList slot).slots = m.slots.set slot (.object (of m).next) := by
    rw [State.newList, State.allocInto_natCast]
    rfl
  have hnext : (of (m.newList slot)).next = (of m).next + 1 := by
    rw [State.newList, State.allocInto_natCast]
    rfl
  rw [← hslots, ← hnext, assign, ← hthings]
  rfl

theorem of_set (m : State) (id : ObjectId) (items : List Value) :
    of { m with heap := m.heap.set id (.list items) } = (of m).assign id items := by
  have hthings : (of { m with heap := m.heap.set id (.list items) }).things =
      Function.update (of m).things id (.sequence items) := by
    funext id'
    by_cases hid : id' = id
    · subst hid
      have hself : (m.heap.set id' (.list items)).get? id' = some (.list items) :=
        Table.find?_insert_self ..
      rw [things_of_list hself, Function.update_self]
    · have hother : (m.heap.set id (.list items)).get? id' = m.heap.get? id' :=
        Table.find?_insert_ne _ _ hid
      rw [things_congr hother, Function.update_of_ne hid]
  rw [assign, ← hthings]
  rfl

/-- Every place shows the sequence that it has in the view. -/
theorem shown?_of {m₀ : State} (h : m₀.WritesLists m) (place : Holder) :
    m.shown? place = (of m).shown? m₀ place := by
  have hheld : m.held? place = (of m).held? m₀ place := by
    cases place with
    | slot i => rfl
    | global module name =>
      change m.global? module name = m₀.global? module name
      rw [h.rest]
      rfl
    | handle address =>
      unfold held? State.held?
      dsimp only
      rw [h.rest]
    | element id i => rw [held?, State.held?, items?_of]
    | entry id i => rw [held?, State.held?, State.held?, h.map?_eq]
  have hitems : (of m).items? = m.heap.list? := funext (items?_of m)
  rw [shown?, State.shown?, hheld, hitems]

end

end Sequences

/-! ## Requests to a machine -/

namespace ListRequest

/-- Serves a request. -/
def run (vm : VmId) : ListRequest → Act η (Option Nat)
  | .make slot => do
    Slot.setNewList ⟨vm, slot⟩
    return none
  | .count slot => return some (← Slot.listCount ⟨vm, slot⟩)
  | .read slot index element => do
    Slot.getListElement ⟨vm, slot⟩ index ⟨vm, element⟩
    return none
  | .write slot index element => do
    Slot.setListElement ⟨vm, slot⟩ index ⟨vm, element⟩
    return none
  | .insert slot index element => do
    Slot.insertInList ⟨vm, slot⟩ index ⟨vm, element⟩
    return none

/-- Serves requests one after the other, whatever they end with. -/
def runAll (vm : VmId) (requests : List ListRequest) :
    Act η (List (Except HostError (Option Nat))) :=
  requests.mapM fun r => (r.run vm).attempt

end ListRequest

/-- Lists, looked at as sequences. -/
def lists : Aspect Sequences where
  view := Sequences.of
  Fit m := m.heap.Numbered
  Writes := State.WritesLists
  refl := .refl
  trans := .trans
  fit := State.WritesLists.numbered

section

variable {w t : World η} {vm : VmId} {a : Address}

/-! ### Checks -/

section

variable (h : Attending lists vm a w)
include h

theorem decides_sequence {i : Nat} {v : Value} (hv : (w.machine a).slots[i]? = some v) :
    Decides (Slot.expectType ⟨vm, i⟩ a .list) w
      ((fun _ => ()) <$> (Sequences.of (w.machine a)).sequence i v) := by
  have hexpect := decides_expectType h.candid hv .list
  rw [Sequences.slotType_eq_find] at hexpect
  unfold Sequences.sequence
  cases hfind : (Sequences.of (w.machine a)).find v with
  | ok p => rwa [hfind] at hexpect
  | error actual =>
    have hne : actual ≠ .list := by
      rintro rfl
      exact Sequences.find_ne_list _ _ hfind
    rw [hfind] at hexpect
    dsimp only at hexpect
    rwa [if_neg hne] at hexpect

omit h in
theorem decides_checkListIndex (index : Int) (upper count : Nat) :
    Decides (Slot.checkListIndex index upper count) w
      ((fun _ => ()) <$> Sequences.position index upper count) := by
  refine ⟨w, .refl w, ?_⟩
  unfold Slot.checkListIndex
  cases hposition : Sequences.position index upper count with
  | ok i =>
    have hin : Slot.isListIndex index upper = true := by
      obtain ⟨hlt, hindex⟩ := Sequences.isPosition_of_position hposition
      simp only [Slot.isListIndex, Bool.and_eq_true, decide_eq_true_eq]
      omega
    rw [if_pos hin]
    rfl
  | error e =>
    have herror : e = .listIndexOutOfRange index count := by
      unfold Sequences.position at hposition
      dsimp only at hposition
      split at hposition <;> split at hposition <;> cases hposition <;> rfl
    subst herror
    have hout : ¬ Slot.isListIndex index upper = true := by
      have hnot := Sequences.position_eq_error_iff.1 hposition
      simpa [Slot.isListIndex] using hnot
    rw [if_neg hout]
    rfl

theorem decides_listOperands (i j : Nat) (operation : String) :
    Decides (Slot.listOperands ⟨vm, i⟩ ⟨vm, j⟩ operation) w
      ((fun o => (a, o.2.2.length)) <$> (Sequences.of (w.machine a)).operands i j) := by
  unfold Slot.listOperands Sequences.operands
  simp only [map_bind]
  refine decides_bind (r := .ok ()) (g := id) (k := fun _ => _)
    (decides_ensureSameVm w vm j operation) fun _ t₁ _ h₁ => ?_
  have hs₁ := h.intact h₁
  rw [← h₁.machine_eq]
  refine decides_bind (decides_checked hs₁.candid i operation) fun v t₂ hv h₂ => ?_
  have hs₂ := hs₁.intact h₂
  rw [← h₂.machine_eq] at hv ⊢
  refine decides_bind (decides_checked hs₂.candid j operation) fun e t₃ _ h₃ => ?_
  have hs₃ := hs₂.intact h₃
  rw [← h₃.machine_eq] at hv ⊢
  have hslot := Sequences.value_eq_ok hv
  refine decides_bind (decides_sequence hs₃ hslot) fun p t₄ hp h₄ => ?_
  rw [← h₄.machine_eq] at hp hslot
  have hcount := EntryPoint.listCount_eq ((hs₃.intact h₄).candid.hasFault _)
    (Sequences.listIn_of_sequence hslot hp)
  exact ⟨t₄.note (.enter a), .note t₄ _, Run.bind_of_value hcount _⟩

/-- What is done at a position of a list, behind all checks. -/
theorem serves_position {i j : Nat} {index : Int} (upper : Nat → Nat) {operation : String}
    {f : State → State} (k : Value → ObjectId → List Value → Nat → Sequences)
    (hf : ∀ e id items p, (w.machine a).ListIn i id items → (w.machine a).slots[j]? = some e →
      State.IsPosition index (upper items.length) p →
        (w.machine a).WritesLists (f (w.machine a)) ∧
          Sequences.of (f (w.machine a)) = k e id items p) :
    Serves lists (do
        let checked ← Slot.listOperands ⟨vm, i⟩ ⟨vm, j⟩ operation
        Slot.checkListIndex index (upper checked.2) checked.2
        changeNative checked.1 f
        return (none : Option Nat)) w a (do
      let o ← (Sequences.of (w.machine a)).operands i j
      let p ← Sequences.position index (upper o.2.2.length) o.2.2.length
      return (none, k o.1 o.2.1 o.2.2 p)) := by
  refine serves_bind h (decides_listOperands h i j operation) fun o t ho ht => ?_
  obtain ⟨hlist, he⟩ := Sequences.listIn_of_operands ho
  have hs := h.intact ht
  refine serves_bind hs (decides_checkListIndex index _ _) fun p u hp hu => ?_
  have hmachine : u.machine a = w.machine a := (hu.machine_eq a).trans (ht.machine_eq a)
  rw [← hmachine] at hf hlist he
  obtain ⟨hwrites, hview⟩ := hf _ _ _ p hlist he (Sequences.isPosition_of_position hp)
  exact serves_change hwrites hview

/-- **A machine serves a request as its sequences do**, and shows then what they are then. -/
theorem serves_request (r : ListRequest) :
    Serves lists (r.run vm) w a ((Sequences.of (w.machine a)).perform r) := by
  cases r with
  | make slot =>
    simp only [ListRequest.run, Slot.setNewList, bind_assoc]
    refine serves_bind h (decides_checked h.candid slot _) fun v t _ ht => ?_
    have hs := h.intact ht
    rw [← ht.machine_eq]
    exact serves_change (.newList hs.fit slot) (Sequences.of_newList _ slot)
  | count slot =>
    simp only [ListRequest.run, Slot.listCount, bind_assoc]
    refine serves_bind h (decides_checked h.candid slot _) fun v t hv ht => ?_
    have hs := h.intact ht
    rw [← ht.machine_eq] at hv ⊢
    have hslot := Sequences.value_eq_ok hv
    refine serves_bind hs (decides_sequence hs hslot) fun p u hp hu => ?_
    rw [← hu.machine_eq] at hp hslot ⊢
    have hcount := EntryPoint.listCount_eq ((hs.intact hu).candid.hasFault _)
      (Sequences.listIn_of_sequence hslot hp)
    exact serves_read (hs.intact hu) hcount some
  | read slot index element =>
    simp only [ListRequest.run, Slot.getListElement, bind_assoc]
    refine serves_position h (fun n => n) (fun _ _ items p => { Sequences.of (w.machine a) with
      slots := (w.machine a).slots.set element (items.getD p .null) })
      fun e id items p hlist _ hp => ?_
    have hitem : items[p]? = some (items.getD p .null) := by
      rw [List.getD_eq_getElem _ _ hp.1, List.getElem?_eq_getElem]
    rw [State.getElement_of_listIn hlist hp hitem]
    exact ⟨.slot h.fit _ _, rfl⟩
  | write slot index element =>
    simp only [ListRequest.run, Slot.setListElement, bind_assoc]
    refine serves_position h (fun n => n) (fun e id items p =>
      (Sequences.of (w.machine a)).assign id (items.take p ++ e :: items.drop (p + 1)))
      fun e id items p hlist he hp => ?_
    have hset : items.set p e = items.take p ++ e :: items.drop (p + 1) := by
      rw [List.set_eq_take_append_cons_drop, if_pos hp.1]
    rw [State.setElement_of_listIn hlist hp he, hset]
    exact ⟨.elements h.fit hlist.2 _, Sequences.of_set _ _ _⟩
  | insert slot index element =>
    simp only [ListRequest.run, Slot.insertInList, bind_assoc]
    refine serves_position h (fun n => n + 1) (fun e id items p =>
      (Sequences.of (w.machine a)).assign id (items.take p ++ e :: items.drop p))
      fun e id items p hlist he hp => ?_
    have hinsert : items.insertIdx p e = items.take p ++ e :: items.drop p := by
      refine List.ext_getElem? fun n => ?_
      have hle : p ≤ items.length := Nat.le_of_lt_succ hp.1
      grind
    rw [State.insertElement_of_listIn hlist hp he, hinsert]
    exact ⟨.elements h.fit hlist.2 _, Sequences.of_set _ _ _⟩

end

end

namespace Setting

section

variable (s : Setting η)

/-- **Lists are sequences**, in every world that a host reaches with machines that misreport
nothing.  Whatever is asked for, through slots that exist or not, the answers are those of the
sequences, and the machine has their slots and elements afterwards and has written nothing else.  So
every place shows the sequence that it refers to, as it is then. -/
theorem sequences_served {w : World (Host η)} (hsteps : Steps s.start w) (hfaults : w.faults = [])
    {vm : VmId} {a : Address} (hl : w.LiveAt vm a) (requests : List ListRequest) :
    ∃ m t, (w.putMachine a m).Intact t ∧
      ListRequest.runAll vm requests w =
        (.value ((Sequences.of (w.machine a)).performAll requests).1, t) ∧
      Sequences.of m = ((Sequences.of (w.machine a)).performAll requests).2 ∧
      (w.machine a).WritesLists m ∧
      ∀ place, m.shown? place =
        ((Sequences.of (w.machine a)).performAll requests).2.shown? (w.machine a) place := by
  have hserving : Attending lists vm a w :=
    ⟨hl, (hsteps.sound s.steady_start.sound).roster.mem_natives hl, hfaults,
      ((tracking_of_steps hsteps).tidy a).numbered⟩
  have hserves : ∀ {w : World (Host η)}, Attending lists vm a w → ∀ r : ListRequest,
      Serves lists (r.run vm) w a (Sequences.perform (lists.view (w.machine a)) r) :=
    serves_request
  obtain ⟨m, t, ht, hwrites, hrun, hview⟩ := serves_requests hserves requests hserving
  rw [← Sequences.performAll_eq_answers] at hrun hview
  refine ⟨m, t, ht, hrun, hview, hwrites, fun place => ?_⟩
  have hplace : Sequences.of m = ((Sequences.of (w.machine a)).performAll requests).2 := hview
  rw [← hplace]
  exact Sequences.shown?_of hwrites place

end

/-- The list takes itself as an element and is found there.  It has two elements then, so that `-4`
is a position in it no more than `3` is. -/
theorem sequences_served_listed :
    ∃ m t, (listed.putMachine 2 m).Intact t ∧
      ListRequest.runAll 1 [.insert 0 (-1) 0, .read 0 (-1) 1, .write 1 0 1, .count 0,
        .insert 1 (-4) 0, .insert 1 3 0] listed =
        (.value [.ok none, .ok none, .ok none, .ok (some 2), .error (.listIndexOutOfRange (-4) 2),
          .error (.listIndexOutOfRange 3 2)], t) ∧
      m.shown? (.slot 0) = some [.object 3, .object 3] ∧ m.shown? (.slot 1) = m.shown? (.slot 0) ∧
      m.shown? (.element 3 0) = m.shown? (.slot 0) := by
  have hsteps : Steps silent.start listed := silent.steps_run .listing
  have hfaults : listed.faults = [] := congrArg (·.1) listed_eq
  have hlive : listed.LiveAt 1 2 := by
    refine ⟨?_, congrArg (·.2.1) listed_eq⟩
    cbv
  obtain ⟨m, t, ht, hrun, -, -, hshown⟩ := silent.sequences_served hsteps hfaults hlive
    [.insert 0 (-1) 0, .read 0 (-1) 1, .write 1 0 1, .count 0, .insert 1 (-4) 0, .insert 1 3 0]
  have hother : ∀ {place place'}, m.shown? place = m.shown? place' ↔ _ := fun {place place'} => by
    rw [hshown place, hshown place']
  refine ⟨m, t, ht, hrun.trans ?_, (hshown _).trans ?_, hother.2 ?_, hother.2 ?_⟩ <;> cbv

end Setting

end ScriptHost.Bridge
