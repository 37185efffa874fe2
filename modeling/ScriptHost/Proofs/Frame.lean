import ScriptHost.Proofs.Entries

/-!
# What entry points leave alone

Between two collections a machine only ever adds objects, and what its host writes through the entry
points are slots, lists and maps.  `Frame` says so: the handles and the swept objects stay, every
data block stays with its object, and so does every class.  Maps get no key twice.  Only the entry
points that make handles or foreign objects, and those that collect, are outside of it.
-/

namespace ScriptHost.Machine

/-! ## Heaps -/

namespace Heap

/-- The foreign object with a number: its class and its data block. -/
def foreign? (h : Heap) (id : ObjectId) : Option (ObjectId × Block) :=
  match h.get? id with
  | some (.foreign owner block) => some (owner, block)
  | _ => none

/-- No object has a number that is still to come. -/
def Numbered (h : Heap) : Prop := ∀ id ∈ h.objects.keys, id ≤ h.lastId

/-- A later heap with the same foreign objects and at least the same classes. -/
structure Extends (h h' : Heap) : Prop where
  numbered : h'.Numbered
  foreign : ∀ id, h'.foreign? id = h.foreign? id
  classes : ∀ id c, h.class? id = some c → h'.class? id = some c

theorem Extends.refl {h : Heap} (hn : h.Numbered) : h.Extends h :=
  ⟨hn, fun _ => rfl, fun _ _ hc => hc⟩

theorem Extends.trans {h₁ h₂ h₃ : Heap} (h : h₁.Extends h₂) (h' : h₂.Extends h₃) :
    h₁.Extends h₃ :=
  ⟨h'.numbered, fun id => (h'.foreign id).trans (h.foreign id),
    fun id c hc => h'.classes id c (h.classes id c hc)⟩

theorem get?_eq_none_of_gt {h : Heap} (hn : h.Numbered) {id : ObjectId} (hid : h.lastId < id) :
    h.get? id = none := by
  refine Table.find?_eq_none_iff.2 fun hm => ?_
  exact absurd (hn id hm) (Nat.not_le.2 hid)

theorem Numbered.alloc {h : Heap} (hn : h.Numbered) (o : Object) : (h.alloc o).2.Numbered := by
  intro id hid
  rcases Table.mem_keys_insert.1 hid with rfl | hid
  · exact Nat.le_refl _
  · exact Nat.le_succ_of_le (hn id hid)

theorem foreign?_of_get? {h : Heap} {id : ObjectId} {o : Object} (hid : h.get? id = some o)
    (ho : isForeign o = false) : h.foreign? id = none := by
  rw [foreign?, hid]
  cases o with
  | foreign owner block => exact absurd ho (by simp [isForeign])
  | _ => rfl

/-- An object of another kind is allocated beside the foreign ones. -/
theorem Extends.alloc {h : Heap} (hn : h.Numbered) {o : Object} (ho : isForeign o = false) :
    h.Extends (h.alloc o).2 := by
  refine ⟨hn.alloc o, ?_, ?_⟩
  · intro id
    by_cases hid : id = h.lastId + 1
    · subst hid
      have hself : (h.alloc o).2.get? (h.lastId + 1) = some o := get?_alloc_self h o
      rw [foreign?_of_get? hself ho, foreign?, get?_eq_none_of_gt hn (Nat.lt_succ_self _)]
    · rw [foreign?, foreign?, get?_alloc_of_ne h o hid]
  · intro id c hc
    by_cases hid : id = h.lastId + 1
    · subst hid
      rw [class?, get?_eq_none_of_gt hn (Nat.lt_succ_self _)] at hc
      exact absurd hc (by simp)
    · rwa [class?, get?_alloc_of_ne h o hid]

/-- A list or a map is replaced by one with other contents. -/
theorem Extends.set {h : Heap} (hn : h.Numbered) {id : ObjectId} {o o' : Object}
    (hid : h.get? id = some o) (ho : isForeign o = false) (ho' : isForeign o' = false)
    (hc : h.class? id = none) : h.Extends (h.set id o') := by
  have hkey : id ∈ h.objects.keys := Table.mem_keys_of_find? hid
  refine ⟨?_, ?_, ?_⟩
  · intro id' hid'
    rcases Table.mem_keys_insert.1 hid' with rfl | hid'
    · exact hn _ hkey
    · exact hn _ hid'
  · intro id'
    by_cases h' : id' = id
    · subst h'
      have hself : (h.set id' o').get? id' = some o' := Table.find?_insert_self ..
      rw [foreign?_of_get? hself ho', foreign?_of_get? hid ho]
    · have hne : (h.set id o').get? id' = h.get? id' := Table.find?_insert_ne _ _ h'
      rw [foreign?, foreign?, hne]
  · intro id' c hcls
    have h' : id' ≠ id := by
      rintro rfl
      exact absurd (hc.symm.trans hcls) (by simp)
    have hne : (h.set id o').get? id' = h.get? id' := Table.find?_insert_ne _ _ h'
    rwa [class?, hne]

theorem get?_of_list? {h : Heap} {id : ObjectId} {items : List Value} (hid : h.list? id = some items) :
    h.get? id = some (.list items) := by
  unfold list? at hid
  split at hid
  · next hget => rwa [← Option.some.inj hid]
  · exact absurd hid (by simp)

theorem get?_of_map? {h : Heap} {id : ObjectId} {entries : List (Value × Value)}
    (hid : h.map? id = some entries) : h.get? id = some (.map entries) := by
  unfold map? at hid
  split at hid
  · next hget => rwa [← Option.some.inj hid]
  · exact absurd hid (by simp)

theorem Extends.setList {h : Heap} (hn : h.Numbered) {id : ObjectId} {items : List Value}
    (hid : h.list? id = some items) (items' : List Value) : h.Extends (h.set id (.list items')) := by
  have hget := get?_of_list? hid
  exact Extends.set hn hget rfl rfl (by rw [class?, hget])

theorem Extends.setMap {h : Heap} (hn : h.Numbered) {id : ObjectId}
    {entries : List (Value × Value)} (hid : h.map? id = some entries)
    (entries' : List (Value × Value)) : h.Extends (h.set id (.map entries')) := by
  have hget := get?_of_map? hid
  exact Extends.set hn hget rfl rfl (by rw [class?, hget])

/-- No map has a key twice. -/
def KeysApart (h : Heap) : Prop := ∀ id entries, h.map? id = some entries → Apart entries

/-- Whether an object is neither foreign nor a map with entries. -/
def isBare : Object → Bool
  | .foreign _ _ => false
  | .map entries => entries.isEmpty
  | _ => true

theorem isForeign_of_isBare {o : Object} (ho : isBare o = true) : isForeign o = false := by
  cases o with
  | foreign => cases ho
  | _ => rfl

theorem apart_of_isBare {o : Object} (ho : isBare o = true) {entries : List (Value × Value)}
    (hmap : o = .map entries) : Apart entries := by
  subst hmap
  rw [List.isEmpty_iff.1 ho]
  exact .nil

/-- Keys stay apart where one object is what it is and the others are what they were. -/
theorem KeysApart.of_others {h h' : Heap} (hk : h.KeysApart) {id : ObjectId} {o : Object}
    (hself : h'.get? id = some o) (hothers : ∀ id', id' ≠ id → h'.get? id' = h.get? id')
    (ho : ∀ entries, o = .map entries → Apart entries) : h'.KeysApart := by
  intro id' entries hmap
  by_cases hid : id' = id
  · subst hid
    exact ho entries (Option.some.inj (hself.symm.trans (get?_of_map? hmap)))
  · refine hk id' entries ?_
    rwa [map?, ← hothers id' hid]

theorem KeysApart.alloc {h : Heap} (hk : h.KeysApart) {o : Object}
    (ho : ∀ entries, o = .map entries → Apart entries) : (h.alloc o).2.KeysApart :=
  hk.of_others (h.get?_alloc_self o) (fun _ => h.get?_alloc_of_ne o) ho

theorem KeysApart.set {h : Heap} (hk : h.KeysApart) (id : ObjectId) {o : Object}
    (ho : ∀ entries, o = .map entries → Apart entries) : (h.set id o).KeysApart :=
  hk.of_others (Table.find?_insert_self ..) (fun _ => Table.find?_insert_ne h.objects o) ho

/-- A later heap with one more foreign object, which has its data block for itself. -/
structure Bears (h h' : Heap) (owner : ObjectId) (block : Block) : Prop where
  numbered : h'.Numbered
  born : ∃ id, h.get? id = none ∧ h'.foreign? id = some (owner, block) ∧
    ∀ id', id' ≠ id → h'.foreign? id' = h.foreign? id'
  classes : ∀ id c, h.class? id = some c → h'.class? id = some c

/-- A later heap: numbers are given out in order, and none again that is free. -/
structure Later (h h' : Heap) : Prop where
  numbered : h.Numbered → h'.Numbered
  lastId : h.lastId ≤ h'.lastId
  vacant : ∀ id ≤ h.lastId, h.get? id = none → h'.get? id = none

theorem Later.refl (h : Heap) : h.Later h := ⟨id, Nat.le_refl _, fun _ _ hid => hid⟩

theorem Later.trans {h₁ h₂ h₃ : Heap} (h : h₁.Later h₂) (h' : h₂.Later h₃) : h₁.Later h₃ :=
  ⟨fun hn => h'.numbered (h.numbered hn), Nat.le_trans h.lastId h'.lastId,
    fun id hle hid => h'.vacant id (Nat.le_trans hle h.lastId) (h.vacant id hle hid)⟩

theorem Later.alloc (h : Heap) (o : Object) : h.Later (h.alloc o).2 := by
  refine ⟨fun hn => hn.alloc o, Nat.le_succ _, fun id hle hid => ?_⟩
  rwa [get?_alloc_of_ne h o (Nat.ne_of_lt (Nat.lt_succ_of_le hle))]

/-- An object is replaced in its place. -/
theorem Later.set {h : Heap} {id : ObjectId} {o : Object} (hid : h.get? id = some o) (o' : Object) :
    h.Later (h.set id o') := by
  refine ⟨fun hn id' hid' => ?_, Nat.le_refl _, fun id' _ hnone => ?_⟩
  · rcases Table.mem_keys_insert.1 hid' with rfl | hid'
    · exact hn _ (Table.mem_keys_of_find? hid)
    · exact hn _ hid'
  · have hne : id' ≠ id := by
      rintro rfl
      exact absurd (hnone.symm.trans hid) (by simp)
    exact (Table.find?_insert_ne _ _ hne).trans hnone

end Heap

/-! ## Machines -/

/-- The handles, the swept objects and the foreign objects stay as they are, and no map gets a key
twice. -/
structure Frame (s s' : State) : Prop where
  handles : s'.handles = s.handles
  swept : s'.swept = s.swept
  finalizing : s'.finalizing = s.finalizing
  heap : s.heap.Numbered → s.heap.Extends s'.heap
  keys : s.heap.KeysApart → s'.heap.KeysApart

namespace Frame

theorem refl (s : State) : Frame s s := ⟨rfl, rfl, rfl, Heap.Extends.refl, id⟩

theorem trans {s₁ s₂ s₃ : State} (h : Frame s₁ s₂) (h' : Frame s₂ s₃) : Frame s₁ s₃ := by
  refine ⟨h'.handles.trans h.handles, h'.swept.trans h.swept,
    h'.finalizing.trans h.finalizing, ?_, fun hk => h'.keys (h.keys hk)⟩
  intro hn
  have hext := h.heap hn
  exact hext.trans (h'.heap hext.numbered)

/-- Work that leaves the heap alone. -/
theorem of_heap {s s' : State} (heap : s'.heap = s.heap) (handles : s'.handles = s.handles)
    (swept : s'.swept = s.swept) (finalizing : s'.finalizing = s.finalizing) : Frame s s' :=
  ⟨handles, swept, finalizing, fun hn => by rw [heap]; exact Heap.Extends.refl hn,
    fun hk => by rwa [heap]⟩

/-- Work that changes nothing but the heap. -/
theorem of_extends {s : State} {h : Heap} (hext : s.heap.Numbered → s.heap.Extends h)
    (hkeys : s.heap.KeysApart → h.KeysApart) : Frame s { s with heap := h } :=
  ⟨rfl, rfl, rfl, hext, hkeys⟩

end Frame

/-- Nothing is finalized, and the heap is a later one. -/
structure Ages (s s' : State) : Prop where
  finalized : s'.finalized = s.finalized
  later : s.heap.Later s'.heap

namespace Ages

theorem trans {s₁ s₂ s₃ : State} (h : Ages s₁ s₂) (h' : Ages s₂ s₃) : Ages s₁ s₃ :=
  ⟨h'.finalized.trans h.finalized, h.later.trans h'.later⟩

theorem of_heap {s s' : State} (heap : s'.heap = s.heap) (finalized : s'.finalized = s.finalized) :
    Ages s s' :=
  ⟨finalized, by rw [heap]; exact .refl _⟩

theorem refl (s : State) : Ages s s := of_heap rfl rfl

end Ages

namespace State

variable (s : State)

theorem frame_setSlot (index : Int) (v : Value) : Frame s (s.setSlot index v) := by
  unfold setSlot
  split
  · exact Frame.of_heap rfl rfl rfl rfl
  · exact Frame.refl s

theorem frame_ensureSlots (count : Int) : Frame s (s.ensureSlots count) :=
  Frame.of_heap rfl rfl rfl rfl

theorem frame_define (module name : String) (v : Value) : Frame s (s.define module name v) :=
  Frame.of_heap rfl rfl rfl rfl

theorem frame_requestAbort (index : Int) : Frame s (s.requestAbort index) :=
  Frame.of_heap rfl rfl rfl rfl

theorem frame_getVariable (module name : String) (index : Int) :
    Frame s (s.getVariable module name index) :=
  frame_setSlot s index _

theorem frame_setSlotHandle (index : Int) (address : Nat) :
    Frame s (s.setSlotHandle index address) := by
  unfold setSlotHandle
  split
  · exact frame_setSlot s index _
  · exact frame_setSlot s index _

/-! ### Allocation -/

theorem frame_alloc {o : Object} (ho : Heap.isBare o = true) : Frame s (s.alloc o).2 :=
  Frame.of_extends (fun hn => Heap.Extends.alloc hn (Heap.isForeign_of_isBare ho)) fun hk =>
    hk.alloc fun _ => Heap.apart_of_isBare ho

theorem frame_allocInto (index : Int) {o : Object} (ho : Heap.isBare o = true) :
    Frame s (s.allocInto index o) :=
  (frame_alloc s ho).trans (frame_setSlot _ index _)

theorem frame_newList (index : Int) : Frame s (s.newList index) := frame_allocInto s index rfl

theorem frame_newMap (index : Int) : Frame s (s.newMap index) := frame_allocInto s index rfl

/-! ### Lists -/

theorem list?_of_slotList? {index : Int} {id : ObjectId} {items : List Value}
    (h : s.slotList? index = some (id, items)) : s.heap.list? id = some items := by
  unfold slotList? at h
  cases hv : (s.slot index).object? with
  | none => rw [hv] at h; exact absurd h (by simp)
  | some id' =>
    cases hl : s.heap.list? id' with
    | none => simp [hv, hl] at h
    | some items' =>
      simp only [hv, hl, Option.bind_eq_bind, Option.bind_some, Option.pure_def,
        Option.some.injEq, Prod.mk.injEq] at h
      rw [← h.1, ← h.2, hl]

theorem frame_setList {id : ObjectId} {items : List Value} (h : s.heap.list? id = some items)
    (items' : List Value) : Frame s { s with heap := s.heap.set id (.list items') } :=
  Frame.of_extends (fun hn => Heap.Extends.setList hn h _) fun hk => hk.set id fun _ heq => by cases heq

theorem frame_getElement (list index element : Int) :
    Frame s (s.getElement list index element) := by
  unfold getElement
  split
  · split
    · exact frame_setSlot s element _
    · exact Frame.refl s
  · exact Frame.refl s

theorem frame_setElement (list index element : Int) :
    Frame s (s.setElement list index element) := by
  unfold setElement
  split
  · rename_i id items hlist
    split
    · exact frame_setList s (list?_of_slotList? s hlist) _
    · exact Frame.refl s
  · exact Frame.refl s

theorem frame_insertElement (list index element : Int) :
    Frame s (s.insertElement list index element) := by
  unfold insertElement
  split
  · rename_i id items hlist
    split
    · exact frame_setList s (list?_of_slotList? s hlist) _
    · exact Frame.refl s
  · exact Frame.refl s

/-! ### Maps -/

theorem map?_of_slotMap? {index : Int} {id : ObjectId} {entries : List (Value × Value)}
    (h : s.slotMap? index = some (id, entries)) : s.heap.map? id = some entries := by
  unfold slotMap? at h
  cases hv : (s.slot index).object? with
  | none => rw [hv] at h; exact absurd h (by simp)
  | some id' =>
    cases hl : s.heap.map? id' with
    | none => simp [hv, hl] at h
    | some entries' =>
      simp only [hv, hl, Option.bind_eq_bind, Option.bind_some, Option.pure_def,
        Option.some.injEq, Prod.mk.injEq] at h
      rw [← h.1, ← h.2, hl]

theorem frame_setMap {id : ObjectId} {entries entries' : List (Value × Value)}
    (h : s.heap.map? id = some entries) (hkeys : Apart entries → Apart entries') :
    Frame s { s with heap := s.heap.set id (.map entries') } := by
  refine Frame.of_extends (fun hn => Heap.Extends.setMap hn h _) fun hk => hk.set id fun _ heq => ?_
  cases heq
  exact hkeys (hk id entries h)

theorem frame_getEntry (map key value : Int) : Frame s (s.getEntry map key value) := by
  unfold getEntry
  split
  · exact frame_setSlot s value _
  · exact Frame.refl s

theorem frame_setEntry (map key value : Int) : Frame s (s.setEntry map key value) := by
  unfold setEntry
  split
  · rename_i id entries hmap
    exact frame_setMap s (map?_of_slotMap? s hmap) (.putEntry _ _)
  · exact Frame.refl s

theorem frame_dropEntry (map key removed : Int) : Frame s (s.dropEntry map key removed) := by
  unfold dropEntry
  split
  · rename_i id entries hmap
    refine Frame.trans ?_ (frame_setSlot _ removed _)
    exact frame_setMap s (map?_of_slotMap? s hmap) (.removeEntry _)
  · exact Frame.refl s

/-! ### Numbers -/

theorem ages_setSlot (index : Int) (v : Value) : Ages s (s.setSlot index v) := by
  unfold setSlot
  split
  · exact .of_heap rfl rfl
  · exact .refl s

theorem ages_alloc (o : Object) : Ages s (s.alloc o).2 := ⟨rfl, .alloc s.heap o⟩

theorem ages_allocInto (index : Int) (o : Object) : Ages s (s.allocInto index o) :=
  (ages_alloc s o).trans (ages_setSlot _ index _)

theorem ages_setList {id : ObjectId} {items : List Value} (h : s.heap.list? id = some items)
    (o : Object) : Ages s { s with heap := s.heap.set id o } :=
  ⟨rfl, .set (Heap.get?_of_list? h) o⟩

theorem ages_setMap {id : ObjectId} {entries : List (Value × Value)}
    (h : s.heap.map? id = some entries) (o : Object) : Ages s { s with heap := s.heap.set id o } :=
  ⟨rfl, .set (Heap.get?_of_map? h) o⟩

/-! ### Foreign objects -/

/-- Whether an object is the foreign one whose data block lies at an address. -/
def isBlockAt (address : Nat) (e : ObjectId × Object) : Bool :=
  match e.2 with
  | .foreign _ block => block.address == address
  | _ => false

theorem mem_blockAddresses {h : Heap} {address : Nat} :
    address ∈ h.blockAddresses ↔ ∃ e ∈ h.objects.entries, isBlockAt address e = true := by
  simp only [Heap.blockAddresses, Table.values, List.mem_filterMap, List.mem_map]
  constructor
  · rintro ⟨o, ⟨e, he, rfl⟩, haddr⟩
    refine ⟨e, he, ?_⟩
    cases ho : e.2 with
    | foreign owner block => simpa [ho, Heap.blockAddress?, isBlockAt] using haddr
    | _ => simp [ho, Heap.blockAddress?] at haddr
  · rintro ⟨e, he, haddr⟩
    refine ⟨e.2, ⟨e, he, rfl⟩, ?_⟩
    cases ho : e.2 with
    | foreign owner block => simpa [ho, Heap.blockAddress?, isBlockAt] using haddr
    | _ => simp [ho, isBlockAt] at haddr

/-- A tag is written nowhere if no data block lies at the address. -/
theorem tagBlock_of_not_mem {s : State} {address : Nat} (h : address ∉ s.heap.blockAddresses)
    (service : Nat) : s.tagBlock address service = s := by
  have hnone : s.heap.objects.entries.find? (isBlockAt address) = none := by
    refine List.find?_eq_none.2 fun e he hat => ?_
    exact h (mem_blockAddresses.2 ⟨e, he, hat⟩)
  unfold State.tagBlock
  split
  · next _ _ _ hsome => exact absurd (hnone.symm.trans hsome) (by simp)
  · rfl

theorem find?_putIn {p : ObjectId × Object → Bool} {l : List (ObjectId × Object)}
    (hl : ∀ e ∈ l, p e = false) {id : ObjectId} {o : Object} (ho : p (id, o) = true) :
    (Table.putIn id o l).find? p = some (id, o) := by
  induction l with
  | nil => simp [Table.putIn, ho]
  | cons e rest ih =>
    obtain ⟨id', o'⟩ := e
    have hrest : ∀ e ∈ rest, p e = false := fun e he => hl e (List.mem_cons_of_mem _ he)
    have hhead : p (id', o') = false := hl _ List.mem_cons_self
    by_cases h : id' = id
    · simp [Table.putIn, h, ho]
    · simp [Table.putIn, h, hhead, ih hrest]

end State

/-- A foreign object is made, and nothing else of its kind. -/
structure Birth (s s' : State) (owner : ObjectId) (block : Block) : Prop where
  handles : s'.handles = s.handles
  swept : s'.swept = s.swept
  finalizing : s'.finalizing = s.finalizing
  heap : s.heap.Numbered → s.heap.Bears s'.heap owner block
  keys : s.heap.KeysApart → s'.heap.KeysApart

namespace State

theorem setSlot_eq_except_slots (s : State) (index : Int) (v : Value) :
    (s.setSlot index v).handles = s.handles ∧ (s.setSlot index v).swept = s.swept ∧
      (s.setSlot index v).finalizing = s.finalizing ∧
      (s.setSlot index v).finalized = s.finalized ∧ (s.setSlot index v).heap = s.heap := by
  unfold setSlot
  split
  · exact ⟨rfl, rfl, rfl, rfl, rfl⟩
  · exact ⟨rfl, rfl, rfl, rfl, rfl⟩

/-- The slot that gets a new foreign object matters to nothing but the slots. -/
theorem newForeign_of_class {s : State} {classIndex : Int} {owner : ObjectId}
    (hc : s.foreignClass? classIndex = some owner) (index : Int) (address : Nat) :
    let s' := (s.newForeign index classIndex address).2
    s'.handles = s.handles ∧ s'.swept = s.swept ∧ s'.finalizing = s.finalizing ∧
      s'.finalized = s.finalized ∧
      s'.heap = (s.heap.alloc (.foreign owner ⟨address, none⟩)).2 := by
  simp only [newForeign, hc, allocInto]
  exact setSlot_eq_except_slots (s.alloc (.foreign owner ⟨address, none⟩)).2 index _

/-- A new foreign object whose data block is tagged at once is allocated with its tag, if no other
block of the machine lies at the address. -/
theorem newForeign_tagged {s : State} {classIndex : Int} {owner : ObjectId} {address : Nat}
    (hc : s.foreignClass? classIndex = some owner) (hfresh : address ∉ s.heap.blockAddresses)
    (index : Int) (service : Nat) :
    let s' := (s.newForeign index classIndex address).2.tagBlock address service
    s'.handles = s.handles ∧ s'.swept = s.swept ∧ s'.finalizing = s.finalizing ∧
      s'.finalized = s.finalized ∧
      s'.heap = (s.heap.alloc (.foreign owner ⟨address, some service⟩)).2 := by
  obtain ⟨hhandles, hswept, hfinalizing, hfinalized, hheap⟩ :=
    newForeign_of_class hc index address
  generalize (s.newForeign index classIndex address).2 = s' at *
  -- the new object is the only one whose block lies at the address
  have hfind : s'.heap.objects.entries.find? (isBlockAt address) =
      some (s.heap.lastId + 1, .foreign owner ⟨address, none⟩) := by
    rw [hheap]
    refine find?_putIn (fun e he => ?_) (by simp [isBlockAt])
    cases hat : isBlockAt address e with
    | false => rfl
    | true => exact absurd (mem_blockAddresses.2 ⟨e, he, hat⟩) hfresh
  have htag : s'.tagBlock address service =
      { s' with heap := s'.heap.set (s.heap.lastId + 1) (.foreign owner ⟨address, service⟩) } := by
    unfold State.tagBlock
    split
    · next _ _ _ hsome =>
      have heq := hfind.symm.trans hsome
      simp only [Option.some.injEq, Prod.mk.injEq, Object.foreign.injEq] at heq
      obtain ⟨rfl, rfl, -⟩ := heq
      rfl
    · next hother => exact absurd hfind (hother _ _ _)
  rw [htag]
  refine ⟨hhandles, hswept, hfinalizing, hfinalized, ?_⟩
  change s'.heap.set (s.heap.lastId + 1) (.foreign owner ⟨address, some service⟩) = _
  rw [hheap]
  simp [Heap.set, Heap.alloc, Table.insert_insert]

/-- **A new foreign object whose data block is tagged at once.** -/
theorem birth_newForeign {s : State} {index classIndex : Int} {owner : ObjectId} {address : Nat}
    (hc : s.foreignClass? classIndex = some owner) (hfresh : address ∉ s.heap.blockAddresses)
    (service : Nat) :
    Birth s ((s.newForeign index classIndex address).2.tagBlock address service) owner
      ⟨address, some service⟩ := by
  obtain ⟨hhandles, hswept, hfinalizing, -, hheap⟩ := newForeign_tagged hc hfresh index service
  refine ⟨hhandles, hswept, hfinalizing, fun hn => ?_, fun hk => ?_⟩
  case refine_2 =>
    rw [hheap]
    exact hk.alloc fun _ heq => by cases heq
  rw [hheap]
  have hnone : s.heap.get? (s.heap.lastId + 1) = none :=
    Heap.get?_eq_none_of_gt hn (Nat.lt_succ_self _)
  refine ⟨hn.alloc _, ⟨s.heap.lastId + 1, hnone, ?_, ?_⟩, ?_⟩
  · rw [Heap.foreign?, Heap.alloc, Heap.get?, Table.find?_insert_self]
  · intro id' hid'
    rw [Heap.foreign?, Heap.foreign?, Heap.get?_alloc_of_ne _ _ hid']
  · intro id c hcls
    have hid : id ≠ s.heap.lastId + 1 := by
      rintro rfl
      rw [Heap.class?, hnone] at hcls
      exact absurd hcls (by simp)
    rwa [Heap.class?, Heap.get?_alloc_of_ne _ _ hid]

end State

/-! ## Edits -/

/-- What a host may write of a machine, apart from lists and maps, and more slots. -/
structure Rights where
  /-- Whether the machine may be asked to abort. -/
  requests : Prop
  /-- The slots that may be written. -/
  writes : Int → Prop

namespace Rights

/-- Everything may be written. -/
def all : Rights := ⟨True, fun _ => True⟩

/-- Nothing else may be written. -/
def none : Rights := ⟨False, fun _ => False⟩

/-- Whatever the ones allow, the others allow. -/
structure Le (q q' : Rights) : Prop where
  requests : q.requests → q'.requests
  writes : ∀ index, q.writes index → q'.writes index

/-- The machine may be asked to abort with a message, which goes into the first slot. -/
def Aborts (q : Rights) : Prop := q.requests ∧ q.writes 0

theorem none_le (q : Rights) : none.Le q := ⟨False.elim, fun _ => False.elim⟩

theorem le_all (q : Rights) : q.Le all := ⟨fun _ => trivial, fun _ _ => trivial⟩

end Rights

/-- What a host writes through an entry point, as far as it may: slots, lists, maps, and its wish to
abort.  A value that is written out of nowhere refers to no object. -/
inductive Edit (q : Rights) (s : State) : State → Prop where
  | ensureSlots (count : Int) : Edit q s (s.ensureSlots count)
  | setSlot (index : Int) (hq : q.writes index) {v : Value} (h : v.object? = none) :
      Edit q s (s.setSlot index v)
  | setSlotHandle (index : Int) (address : Nat) (hq : q.writes index) :
      Edit q s (s.setSlotHandle index address)
  | getVariable (module name : String) (index : Int) (hq : q.writes index) :
      Edit q s (s.getVariable module name index)
  | requestAbort (hq : q.requests) (index : Int) : Edit q s (s.requestAbort index)
  | newList (index : Int) (hq : q.writes index) : Edit q s (s.newList index)
  | newMap (index : Int) (hq : q.writes index) : Edit q s (s.newMap index)
  | getElement (list index element : Int) (hq : q.writes element) :
      Edit q s (s.getElement list index element)
  | setElement (list index element : Int) : Edit q s (s.setElement list index element)
  | insertElement (list index element : Int) : Edit q s (s.insertElement list index element)
  | getEntry (map key value : Int) (hq : q.writes value) : Edit q s (s.getEntry map key value)
  | setEntry (map key value : Int) : Edit q s (s.setEntry map key value)
  | dropEntry (map key removed : Int) (hq : q.writes removed) : Edit q s (s.dropEntry map key removed)

theorem Edit.mono {q q' : Rights} {s s' : State} (hle : q.Le q') (h : Edit q s s') : Edit q' s s' := by
  cases h with
  | ensureSlots count => exact .ensureSlots count
  | setSlot index hq h => exact .setSlot index (hle.writes _ hq) h
  | setSlotHandle index address hq => exact .setSlotHandle index address (hle.writes _ hq)
  | getVariable module name index hq => exact .getVariable module name index (hle.writes _ hq)
  | requestAbort hq index => exact .requestAbort (hle.requests hq) index
  | newList index hq => exact .newList index (hle.writes _ hq)
  | newMap index hq => exact .newMap index (hle.writes _ hq)
  | getElement list index element hq => exact .getElement list index element (hle.writes _ hq)
  | setElement list index element => exact .setElement list index element
  | insertElement list index element => exact .insertElement list index element
  | getEntry map key value hq => exact .getEntry map key value (hle.writes _ hq)
  | setEntry map key value => exact .setEntry map key value
  | dropEntry map key removed hq => exact .dropEntry map key removed (hle.writes _ hq)

theorem Edit.frame {q : Rights} {s s' : State} (h : Edit q s s') : Frame s s' := by
  cases h with
  | ensureSlots count => exact s.frame_ensureSlots count
  | setSlot index _ => exact s.frame_setSlot index _
  | setSlotHandle index address => exact s.frame_setSlotHandle index address
  | getVariable module name index => exact s.frame_getVariable module name index
  | requestAbort _ index => exact s.frame_requestAbort index
  | newList index => exact s.frame_newList index
  | newMap index => exact s.frame_newMap index
  | getElement list index element => exact s.frame_getElement list index element
  | setElement list index element => exact s.frame_setElement list index element
  | insertElement list index element => exact s.frame_insertElement list index element
  | getEntry map key value => exact s.frame_getEntry map key value
  | setEntry map key value => exact s.frame_setEntry map key value
  | dropEntry map key removed => exact s.frame_dropEntry map key removed

theorem Edit.ages {q : Rights} {s s' : State} (h : Edit q s s') : Ages s s' := by
  cases h with
  | ensureSlots | requestAbort => exact .of_heap rfl rfl
  | setSlot index _ | getVariable _ _ index => exact s.ages_setSlot index _
  | setSlotHandle index address =>
    unfold State.setSlotHandle
    split
    · exact s.ages_setSlot index _
    · exact s.ages_setSlot index _
  | newList index | newMap index => exact s.ages_allocInto index _
  | getElement list index element =>
    unfold State.getElement
    split
    · split
      · exact s.ages_setSlot element _
      · exact .refl s
    · exact .refl s
  | setElement | insertElement =>
    simp only [State.setElement, State.insertElement]
    split
    · next hlist =>
      split
      · exact s.ages_setList (s.list?_of_slotList? hlist) _
      · exact .refl s
    · exact .refl s
  | getEntry map key value =>
    unfold State.getEntry
    split
    · exact s.ages_setSlot value _
    · exact .refl s
  | setEntry =>
    unfold State.setEntry
    split
    · next hmap => exact s.ages_setMap (s.map?_of_slotMap? hmap) _
    · exact .refl s
  | dropEntry map key removed =>
    unfold State.dropEntry
    split
    · next hmap =>
      exact (s.ages_setMap (s.map?_of_slotMap? hmap) _).trans (State.ages_setSlot _ removed _)
    · exact .refl s

end ScriptHost.Machine
