import Mathlib.Data.List.Perm.Subperm
import ScriptHost.Proofs.Ledger

/-!
# Machines that match

A machine that has collected its garbage is the same as before for everybody who holds only values that
it holds.  `State.Matches P` says so of two machines: they have the same roots, the same objects under
the numbers in `P`, and no way from there to any other number.  Under other numbers the first one may
have what it likes, and the second one has nothing: neither gives such a number out again, since what
is new is in `P`.

Two machines that match answer every entry point alike, and match again behind it.  They match also
behind a collection, on both of them (`Matches.collect`) or on one (`Matches.collect_right`).  The
foreign objects that one of them has lost have been counted (`Matches.total`).
-/

namespace ScriptHost.Machine

variable {P : ObjectId → Prop}

/-! ## Heaps -/

namespace Heap

/-- Two heaps have the same objects under the numbers in `P`, and the same numbers to come, which are in
`P`.  The second one has no other objects. -/
structure Matches (P : ObjectId → Prop) (h h' : Heap) : Prop where
  lastId : h'.lastId = h.lastId
  get? : ∀ id, P id → h'.get? id = h.get? id
  lost : ∀ id, ¬ P id → h'.get? id = none
  numbered : h.Numbered
  numbered' : h'.Numbered
  fresh : ∀ id, h.lastId < id → P id

/-- There are no more objects than numbers. -/
theorem Numbered.size_le {h : Heap} (hn : h.Numbered) : h.objects.size ≤ h.lastId + 1 := by
  have hsub : h.objects.keys ⊆ List.range (h.lastId + 1) :=
    fun id hid => List.mem_range.2 (Nat.lt_succ_of_le (hn id hid))
  have hle := (List.Nodup.subperm h.objects.nodup_keys hsub).length_le
  rw [List.length_range, List.length_map] at hle
  exact hle

namespace Matches

variable {h h' : Heap} {id : ObjectId} {o : Object} {v : Value}

theorem mem_keys (m : Matches P h h') (hid : P id) : id ∈ h'.objects.keys ↔ id ∈ h.objects.keys := by
  rw [← not_iff_not, ← Table.find?_eq_none_iff, ← Table.find?_eq_none_iff]
  exact iff_of_eq (congrArg (· = none) (m.get? id hid))

theorem class? (m : Matches P h h') (hid : P id) : h'.class? id = h.class? id := by
  rw [Heap.class?, Heap.class?, m.get? id hid]

theorem list? (m : Matches P h h') (hid : P id) : h'.list? id = h.list? id := by
  rw [Heap.list?, Heap.list?, m.get? id hid]

theorem map? (m : Matches P h h') (hid : P id) : h'.map? id = h.map? id := by
  rw [Heap.map?, Heap.map?, m.get? id hid]

theorem block? (m : Matches P h h') (hid : P id) : h'.block? id = h.block? id := by
  rw [Heap.block?, Heap.block?, m.get? id hid]

theorem className (m : Matches P h h') (hid : P id) : h'.className id = h.className id := by
  rw [Heap.className, Heap.className, m.class? hid]

theorem references (m : Matches P h h') (hid : P id) : h'.references id = h.references id := by
  rw [Heap.references, Heap.references, m.get? id hid]

/-- An object that is referred to from a bound is found alike. -/
theorem get?_of_into (m : Matches P h h') (hv : v.Into P) :
    v.object?.bind h'.get? = v.object?.bind h.get? := by
  cases hobject : v.object? with
  | none => rfl
  | some id => exact m.get? id (hv id hobject)

theorem slotType (m : Matches P h h') (hv : v.Into P) : h'.slotType v = h.slotType v := by
  cases v with
  | object id => rw [Heap.slotType, Heap.slotType, m.get? id (Value.into_object.1 hv)]
  | _ => rfl

theorem isForeignInstance (m : Matches P h h') (hv : v.Into P) (owner : ObjectId) :
    h'.isForeignInstance v owner = h.isForeignInstance v owner := by
  rw [Heap.isForeignInstance, Heap.isForeignInstance, m.get?_of_into hv]

variable (m : Matches P h h') (hb : h.Bounded P)
include m hb

theorem typeName (hv : v.Into P) : h'.typeName v = h.typeName v := by
  cases v with
  | object id =>
    have hid := Value.into_object.1 hv
    rw [Heap.typeName, Heap.typeName, m.get? id hid]
    cases ho : h.get? id with
    | none => rfl
    | some o =>
      cases o with
      | instanceOf c => exact m.className (hb.references hid ho c (List.mem_singleton_self c))
      | foreign c _ => exact m.className (hb.references hid ho c (List.mem_singleton_self c))
      | _ => rfl
  | _ => rfl

omit hb in
theorem instanceTarget {owner : ObjectId} (howner : P owner) (signature : String) :
    instanceTarget h' owner signature = instanceTarget h owner signature := by
  rw [Machine.instanceTarget, Machine.instanceTarget, m.class? howner]

theorem target (hv : v.Into P) (signature : String) :
    h'.target v signature = h.target v signature := by
  unfold Heap.target
  cases hobject : v.object? with
  | none => rfl
  | some id =>
    have hid := hv id hobject
    dsimp only
    rw [m.get? id hid]
    cases ho : h.get? id with
    | none => rfl
    | some o =>
      cases o with
      | instanceOf c =>
        exact m.instanceTarget (hb.references hid ho c (List.mem_singleton_self c)) signature
      | foreign c _ =>
        exact m.instanceTarget (hb.references hid ho c (List.mem_singleton_self c)) signature
      | _ => rfl

/-- A value is written alike, however deep. -/
theorem textWithin : ∀ (depth : Nat) {v : Value}, v.Into P →
    h'.textWithin depth v = h.textWithin depth v
  | _, .null, _ | _, .bool _, _ | _, .number _, _ | _, .string _, _ => by
    rw [Heap.textWithin, Heap.textWithin]
  | 0, .object _, _ => by rw [Heap.textWithin, Heap.textWithin]
  | depth + 1, .object id, hv => by
    have hid := Value.into_object.1 hv
    rw [Heap.textWithin, Heap.textWithin, m.get? id hid]
    cases ho : h.get? id with
    | none => rfl
    | some o =>
      have hrefs := hb.references hid ho
      cases o with
      | list items =>
        have hitems : items.map (h'.textWithin depth) = items.map (h.textWithin depth) :=
          List.map_congr_left fun v hv => textWithin depth (Object.references_list.1 hrefs v hv)
        exact congrArg (fun texts => "[" ++ ", ".intercalate texts ++ "]") hitems
      | map entries =>
        have hentries : (entries.map fun e => h'.textWithin depth e.1 ++ ": " ++
            h'.textWithin depth e.2) =
            entries.map fun e => h.textWithin depth e.1 ++ ": " ++ h.textWithin depth e.2 := by
          refine List.map_congr_left fun e he => ?_
          obtain ⟨hkey, hvalue⟩ := Object.references_map.1 hrefs e he
          rw [textWithin depth hkey, textWithin depth hvalue]
        exact congrArg (fun texts => "\x7b" ++ ", ".intercalate texts ++ "\x7d") hentries
      | classDef c => rfl
      | instanceOf c =>
        exact congrArg ("instance of " ++ ·) (m.className (hrefs c (List.mem_singleton_self c)))
      | foreign c _ =>
        exact congrArg ("instance of " ++ ·) (m.className (hrefs c (List.mem_singleton_self c)))

/-- The depth of a text counts the numbers that were given out, and not the objects that are left. -/
theorem text (hv : v.Into P) : h'.text v = h.text v := by
  unfold Heap.text
  rw [Nat.max_eq_left m.numbered'.size_le, Nat.max_eq_left m.numbered.size_le, m.lastId]
  exact m.textWithin hb _ hv

/-- Heaps that match can reach the same objects from a bound, and stay in it. -/
theorem reachedFrom {roots : List ObjectId} (hroots : ∀ r ∈ roots, P r) :
    (h'.ReachedFrom roots id ↔ h.ReachedFrom roots id) ∧ (h.ReachedFrom roots id → P id) := by
  have hstays : ∀ {r id}, P r → Relation.ReflTransGen h.Refers r id → P id := by
    intro r id hr hpath
    induction hpath with
    | refl => exact hr
    | tail _ hlast ih => exact hb _ ih _ hlast
  have hpaths : ∀ {r}, P r →
      (Relation.ReflTransGen h'.Refers r id ↔ Relation.ReflTransGen h.Refers r id) := by
    intro r hr
    refine ⟨fun hpath => ?_, fun hpath => ?_⟩
    · induction hpath with
      | refl => exact .refl
      | tail _ hlast ih =>
        have hlast' := hlast
        rw [Heap.Refers, m.references (hstays hr ih)] at hlast'
        exact ih.tail hlast'
    · induction hpath with
      | refl => exact .refl
      | tail hfirst hlast ih =>
        refine ih.tail ?_
        rw [Heap.Refers, m.references (hstays hr hfirst)]
        exact hlast
  refine ⟨⟨fun ⟨r, hr, hpath⟩ => ⟨r, hr, (hpaths (hroots r hr)).1 hpath⟩,
    fun ⟨r, hr, hpath⟩ => ⟨r, hr, (hpaths (hroots r hr)).2 hpath⟩⟩,
    fun ⟨r, hr, hpath⟩ => hstays (hroots r hr) hpath⟩

/-- What is left of a foreign object is the same, its finalizer included. -/
theorem remains? (hid : P id) : h'.remains? id = h.remains? id := by
  rw [Heap.remains?, Heap.remains?, m.get? id hid]
  cases ho : h.get? id with
  | none => rfl
  | some o =>
    cases o with
    | foreign c block =>
      have hc : P c := hb.references hid ho c (List.mem_singleton_self c)
      have hfinalizer : h'.finalizer? c = h.finalizer? c :=
        congrArg (Option.bind · Class.finalize?) (m.class? hc)
      exact congrArg (fun finalize? => some (Dead.mk block finalize?)) hfinalizer
    | _ => rfl

omit hb

/-! ### Changes -/

theorem alloc (o : Object) : Matches P (h.alloc o).2 (h'.alloc o).2 where
  lastId := congrArg (· + 1) m.lastId
  get? id hid := by
    rw [Heap.alloc, Heap.alloc, Heap.get?, Heap.get?, m.lastId]
    by_cases heq : id = h.lastId + 1
    · rw [heq, Table.find?_insert_self, Table.find?_insert_self]
    · rw [Table.find?_insert_ne _ _ heq, Table.find?_insert_ne _ _ heq]
      exact m.get? id hid
  lost id hid := by
    have hne : id ≠ (h'.alloc o).1 := by
      rintro rfl
      exact hid (m.fresh _ (m.lastId ▸ Nat.lt_succ_self _))
    rw [get?_alloc_of_ne h' o hne]
    exact m.lost id hid
  numbered := m.numbered.alloc o
  numbered' := m.numbered'.alloc o
  fresh id hid := m.fresh id (Nat.lt_of_succ_lt hid)

theorem set (hid : P id) (ho : (h.get? id).isSome) (o' : Object) :
    Matches P (h.set id o') (h'.set id o') := by
  obtain ⟨o, ho⟩ := Option.isSome_iff_exists.1 ho
  have ho' : h'.get? id = some o := (m.get? id hid).trans ho
  have hset : ∀ (h : Heap) {id'}, id' ≠ id → (h.set id o').get? id' = h.get? id' :=
    fun h _ heq => Table.find?_insert_ne _ _ heq
  refine ⟨m.lastId, fun id' hid' => ?_, fun id' hid' => ?_, (Later.set ho o').numbered m.numbered,
    (Later.set ho' o').numbered m.numbered', m.fresh⟩
  · by_cases heq : id' = id
    · subst heq
      rw [Heap.set, Heap.set, Heap.get?, Heap.get?, Table.find?_insert_self, Table.find?_insert_self]
    · rw [hset h heq, hset h' heq, m.get? id' hid']
  · have hne : id' ≠ id := fun heq => hid' (heq ▸ hid)
    rw [hset h' hne, m.lost id' hid']

end Matches

/-- Heaps with the same foreign objects have as many of them. -/
theorem Extends.foreignCount {h h' : Heap} (hext : h.Extends h') :
    h'.foreignCount = h.foreignCount := by
  rw [← length_foreignIds, ← length_foreignIds]
  exact (foreignIds_perm fun id => by rw [hext.foreign id]).length_eq

/-- What is removed from a heap and what is left of it are as many as before. -/
theorem foreignCount_release (h : Heap) {ids : List ObjectId} (hnodup : ids.Nodup) :
    (h.release ids).1.length + (h.release ids).2.foreignCount = h.foreignCount := by
  have hlength := (Heap.leaving_perm (h := h) hnodup).length_eq
  rwa [List.length_append, List.length_map, ← List.length_map Prod.snd, snd_leaving,
    length_foreignIds, length_foreignIds] at hlength

theorem foreignCount_alloc {h : Heap} (hn : h.Numbered) (owner : ObjectId) (block : Block) :
    (h.alloc (.foreign owner block)).2.foreignCount = h.foreignCount + 1 := by
  rw [← length_foreignIds, ← length_foreignIds]
  exact (foreignIds_alloc hn owner block).length_eq

end Heap

/-! ## Machines -/

namespace State

/-- A new machine has no slots. -/
theorem slot_create (n : Nat) (index : Int) : (create n).slot index = .null := by
  have hslots : (create n).slots = [] := rfl
  unfold slot
  rw [hslots]
  split <;> rfl

theorem allocInto_eq (m : State) (index : Int) (o : Object) :
    m.allocInto index o = (m.alloc o).2.setSlot index (.object (m.alloc o).1) := rfl

/-- A new foreign object whose data block is tagged at once is allocated with its tag. -/
theorem newForeign_tagBlock {m : State} {classIndex : Int} {owner : ObjectId} {address : Nat}
    (hc : m.foreignClass? classIndex = some owner) (hfresh : address ∉ m.heap.blockAddresses)
    (index : Int) (service : Nat) :
    (m.newForeign index classIndex address).2.tagBlock address service =
      m.allocInto index (.foreign owner ⟨address, some service⟩) := by
  have hnew : (m.newForeign index classIndex address).2 =
      m.allocInto index (.foreign owner ⟨address, none⟩) := by
    rw [newForeign, hc]
  have htag : ∀ n : State, (n.tagBlock address service).slots = n.slots := by
    intro n
    unfold tagBlock
    split <;> rfl
  obtain ⟨-, -, -, -, hheap⟩ := newForeign_tagged hc hfresh index service
  have hheap' : (m.allocInto index (.foreign owner ⟨address, some service⟩)).heap =
      (m.heap.alloc (.foreign owner ⟨address, some service⟩)).2 :=
    (setSlot_eq_except_slots _ index _).2.2.2.2
  have hslots : ((m.newForeign index classIndex address).2.tagBlock address service).slots =
      (m.allocInto index (.foreign owner ⟨address, some service⟩)).slots := by
    rw [htag, hnew, allocInto_eq, allocInto_eq, setSlot, setSlot]
    cases position? index <;> rfl
  have hleft := (writes_newForeign m index classIndex address).trans (writes_tagBlock _ address service)
  rw [hleft, writes_allocInto m index (.foreign owner ⟨address, some service⟩), hslots, hheap, hheap']

/-- The second machine is the first one, but for objects that neither can reach.  The foreign ones among
them have been finalized, or will be.  Neither machine is in the middle of a collection. -/
structure Matches (P : ObjectId → Prop) (m m' : State) : Prop where
  bounded : m.Bounded P
  same : m' = { m with heap := m'.heap, finalized := m'.finalized }
  heap : Heap.Matches P m.heap m'.heap
  total : m'.finalized + m'.heap.foreignCount = m.finalized + m.heap.foreignCount
  swept : m.swept = []
  finalizing : m.finalizing = []

namespace Matches

variable {m m' : State} {v : Value}

/-! ### Reading -/

theorem slots (h : Matches P m m') : m'.slots = m.slots := by rw [h.same]

theorem savedFrames (h : Matches P m m') : m'.savedFrames = m.savedFrames := by rw [h.same]

theorem pins (h : Matches P m m') : m'.pins = m.pins := by rw [h.same]

theorem modules (h : Matches P m m') : m'.modules = m.modules := by rw [h.same]

theorem handles (h : Matches P m m') : m'.handles = m.handles := by rw [h.same]

theorem abortRequest? (h : Matches P m m') : m'.abortRequest? = m.abortRequest? := by rw [h.same]

theorem location (h : Matches P m m') : m'.location = m.location := by rw [h.same]

theorem slot (h : Matches P m m') (index : Int) : m'.slot index = m.slot index := by
  rw [State.slot, State.slot, h.slots]

theorem global? (h : Matches P m m') (module name : String) :
    m'.global? module name = m.global? module name := by
  rw [State.global?, State.global?, h.modules]

theorem lookup? (h : Matches P m m') (module name : String) :
    m'.lookup? module name = m.lookup? module name := by
  rw [State.lookup?, State.lookup?, h.global?, h.global?]

theorem hasModule (h : Matches P m m') (module : String) :
    m'.hasModule module = m.hasModule module := by
  rw [State.hasModule, State.hasModule, h.modules]

theorem namesIn (h : Matches P m m') (module : String) : m'.namesIn module = m.namesIn module := by
  rw [State.namesIn, State.namesIn, h.modules]

theorem slotList? (h : Matches P m m') (index : Int) : m'.slotList? index = m.slotList? index := by
  unfold State.slotList?
  rw [h.slot]
  cases hobject : (m.slot index).object? with
  | none => rfl
  | some id =>
    have hid := h.bounded.slot index id hobject
    simp only [Option.bind_eq_bind, Option.bind_some, h.heap.list? hid]

theorem slotMap? (h : Matches P m m') (index : Int) : m'.slotMap? index = m.slotMap? index := by
  unfold State.slotMap?
  rw [h.slot]
  cases hobject : (m.slot index).object? with
  | none => rfl
  | some id =>
    have hid := h.bounded.slot index id hobject
    simp only [Option.bind_eq_bind, Option.bind_some, h.heap.map? hid]

theorem slotType (h : Matches P m m') (index : Int) : m'.slotType index = m.slotType index := by
  rw [State.slotType, State.slotType, h.slot, h.heap.slotType (h.bounded.slot index)]

theorem slotBlock? (h : Matches P m m') (index : Int) :
    m'.slotBlock? index = m.slotBlock? index := by
  unfold State.slotBlock?
  rw [h.slot]
  cases hobject : (m.slot index).object? with
  | none => rfl
  | some id => exact h.heap.block? (h.bounded.slot index id hobject)

theorem foreignClass? (h : Matches P m m') (index : Int) :
    m'.foreignClass? index = m.foreignClass? index := by
  unfold State.foreignClass?
  rw [h.slot]
  cases hobject : (m.slot index).object? with
  | none => rfl
  | some id =>
    rw [Option.filter_some, Option.filter_some, h.heap.class? (h.bounded.slot index id hobject)]

/-! ### Writing -/

/-- The same is done to both machines, and the heap is left alone. -/
theorem reroot (h : Matches P m m') {n n' : State} (hb : n.Bounded P) (hheap : n.heap = m.heap)
    (hfinalized : n.finalized = m.finalized) (hswept : n.swept = m.swept)
    (hfinalizing : n.finalizing = m.finalizing)
    (hsame : n' = { n with heap := m'.heap, finalized := m'.finalized }) : Matches P n n' := by
  subst hsame
  exact ⟨hb, rfl, hheap ▸ h.heap, hheap ▸ hfinalized ▸ h.total, hswept.trans h.swept,
    hfinalizing.trans h.finalizing⟩

theorem setSlot (h : Matches P m m') (index : Int) (hv : v.Into P) :
    Matches P (m.setSlot index v) (m'.setSlot index v) := by
  obtain ⟨-, hswept, hfinalizing, hfinalized, hheap⟩ := m.setSlot_eq_except_slots index v
  refine h.reroot (h.bounded.setSlot index hv) hheap hfinalized hswept hfinalizing ?_
  unfold State.setSlot
  split
  · rw [h.same]
  · exact h.same

theorem define (h : Matches P m m') (module name : String) (hv : v.Into P) :
    Matches P (m.define module name v) (m'.define module name v) :=
  h.reroot (h.bounded.define module name hv) rfl rfl rfl rfl (by rw [h.same]; rfl)

theorem addModule (h : Matches P m m') (module : String) :
    Matches P (m.addModule module) (m'.addModule module) := by
  have hb := h.bounded.addModule module
  unfold State.addModule
  rw [h.hasModule]
  split
  · exact h
  · next hnew =>
    rw [State.addModule, if_neg hnew] at hb
    exact h.reroot hb rfl rfl rfl rfl (by rw [h.same])

theorem locate (h : Matches P m m') (location : Location) :
    Matches P { m with location } { m' with location } :=
  h.reroot (h.bounded.reroot rfl fun _ hu => Or.inl hu) rfl rfl rfl rfl (by rw [h.same])

theorem pin (h : Matches P m m') {values : List Value} (hv : ∀ v ∈ values, v.Into P) :
    Matches P { m with pins := values } { m' with pins := values } :=
  h.reroot (h.bounded.pin hv) rfl rfl rfl rfl (by rw [h.same])

theorem enterFrame (h : Matches P m m') {frame : List Value} (hv : ∀ v ∈ frame, v.Into P) :
    Matches P (m.enterFrame frame) (m'.enterFrame frame) :=
  h.reroot (h.bounded.enterFrame hv) rfl rfl rfl rfl (by rw [h.same]; rfl)

theorem leaveFrame (h : Matches P m m') : Matches P m.leaveFrame m'.leaveFrame :=
  h.reroot h.bounded.leaveFrame rfl rfl rfl rfl (by rw [h.same]; rfl)

theorem storeHandle (h : Matches P m m') (address : Nat) {target : HandleTarget}
    (ht : ∀ v, target = .value v → v.Into P) :
    Matches P (m.storeHandle address target) (m'.storeHandle address target) :=
  h.reroot (h.bounded.storeHandle address ht) rfl rfl rfl rfl (by rw [h.same]; rfl)

theorem releaseHandle (h : Matches P m m') (address : Nat) :
    Matches P (m.releaseHandle address) (m'.releaseHandle address) :=
  h.reroot (h.bounded.releaseHandle address) rfl rfl rfl rfl (by rw [h.same]; rfl)

theorem requestAbort (h : Matches P m m') (index : Int) :
    Matches P (m.requestAbort index) (m'.requestAbort index) := by
  refine h.reroot (h.bounded.requestAbort index) rfl rfl rfl rfl ?_
  rw [State.requestAbort, State.requestAbort, h.slot, h.same]

theorem ensureSlots (h : Matches P m m') (count : Int) :
    Matches P (m.ensureSlots count) (m'.ensureSlots count) :=
  h.reroot (h.bounded.ensureSlots count) rfl rfl rfl rfl (by rw [h.same]; rfl)

/-- Both machines allocate the same object, under the same number. -/
theorem alloc (h : Matches P m m') {o : Object} (ho : Heap.isForeign o = false)
    (hrefs : ∀ r ∈ o.references, P r) :
    Matches P (m.alloc o).2 (m'.alloc o).2 ∧ (m'.alloc o).1 = (m.alloc o).1 ∧
      P (m.alloc o).1 := by
  refine ⟨⟨h.bounded.alloc hrefs, ?_, h.heap.alloc o, ?_, h.swept, h.finalizing⟩,
    congrArg (· + 1) h.heap.lastId, h.heap.fresh _ (Nat.lt_succ_self _)⟩
  · rw [State.alloc, State.alloc, h.same]
  · have hcount := (Heap.Extends.alloc h.heap.numbered ho).foreignCount
    have hcount' := (Heap.Extends.alloc h.heap.numbered' ho).foreignCount
    exact (congrArg (m'.finalized + ·) hcount').trans
      (h.total.trans (congrArg (m.finalized + ·) hcount).symm)

theorem allocInto (h : Matches P m m') (index : Int) {o : Object} (ho : Heap.isForeign o = false)
    (hrefs : ∀ r ∈ o.references, P r) : Matches P (m.allocInto index o) (m'.allocInto index o) := by
  obtain ⟨halloc, hid, hnew⟩ := h.alloc ho hrefs
  have hset := halloc.setSlot index (Value.into_object.2 hnew)
  rw [allocInto_eq, allocInto_eq, hid]
  exact hset

/-- Both machines write the same contents into a list or a map that both have. -/
theorem set (h : Matches P m m') {id : ObjectId} {o : Object} (hid : P id)
    (hext : ∀ {h : Heap}, h.Numbered → h.get? id = m.heap.get? id → h.Extends (h.set id o))
    (hsome : (m.heap.get? id).isSome) (hrefs : ∀ r ∈ o.references, P r) :
    Matches P { m with heap := m.heap.set id o } { m' with heap := m'.heap.set id o } := by
  refine ⟨h.bounded.set hrefs, ?_, h.heap.set hid hsome o, ?_, h.swept, h.finalizing⟩
  · rw [h.same]
  · have hcount := (hext h.heap.numbered rfl).foreignCount
    have hcount' := (hext h.heap.numbered' (h.heap.get? id hid)).foreignCount
    exact (congrArg (m'.finalized + ·) hcount').trans
      (h.total.trans (congrArg (m.finalized + ·) hcount).symm)

theorem setList (h : Matches P m m') {index : Int} {id : ObjectId} {items items' : List Value}
    (hlist : m.slotList? index = some (id, items)) (hv : ∀ v ∈ items', v.Into P) :
    Matches P { m with heap := m.heap.set id (.list items') }
      { m' with heap := m'.heap.set id (.list items') } := by
  have hget := Heap.get?_of_list? (m.list?_of_slotList? hlist)
  refine h.set (h.bounded.slotList? hlist).1 (fun hn hsame => ?_) (by rw [hget]; rfl)
    (Object.references_list.2 hv)
  exact Heap.Extends.setList hn (by rw [Heap.list?, hsame, hget]) items'

theorem setMap (h : Matches P m m') {index : Int} {id : ObjectId}
    {entries entries' : List (Value × Value)} (hmap : m.slotMap? index = some (id, entries))
    (hv : ∀ e ∈ entries', e.1.Into P ∧ e.2.Into P) :
    Matches P { m with heap := m.heap.set id (.map entries') }
      { m' with heap := m'.heap.set id (.map entries') } := by
  have hget := Heap.get?_of_map? (m.map?_of_slotMap? hmap)
  refine h.set (h.bounded.slotMap? hmap).1 (fun hn hsame => ?_) (by rw [hget]; rfl)
    (Object.references_map.2 hv)
  exact Heap.Extends.setMap hn (by rw [Heap.map?, hsame, hget]) entries'

/-! ### Entry points -/

theorem setSlotHandle (h : Matches P m m') (index : Int) (address : Nat) :
    Matches P (m.setSlotHandle index address) (m'.setSlotHandle index address) := by
  unfold State.setSlotHandle
  rw [h.handles]
  split
  · next v hv => exact h.setSlot index (h.bounded.handles (Table.mem_values_of_find? hv))
  · exact h.setSlot index Value.into_null

theorem getVariable (h : Matches P m m') (module name : String) (index : Int) :
    Matches P (m.getVariable module name index) (m'.getVariable module name index) := by
  unfold State.getVariable
  rw [h.global?]
  refine h.setSlot index ?_
  cases hv : m.global? module name with
  | none => exact Value.into_null
  | some v => exact h.bounded.global? hv

theorem getElement (h : Matches P m m') (list index element : Int) :
    Matches P (m.getElement list index element) (m'.getElement list index element) := by
  unfold State.getElement
  rw [h.slotList?]
  split
  · next items hlist =>
    split
    · next v hv =>
      obtain ⟨i, -, hi⟩ := Option.bind_eq_some_iff.1 hv
      exact h.setSlot element ((h.bounded.slotList? hlist).2 v (List.mem_of_getElem? hi))
    · exact h
  · exact h

theorem setElement (h : Matches P m m') (list index element : Int) :
    Matches P (m.setElement list index element) (m'.setElement list index element) := by
  unfold State.setElement
  rw [h.slotList?, h.slot]
  split
  · next items hlist =>
    split
    · refine h.setList hlist fun v hv => ?_
      rcases List.mem_or_eq_of_mem_set hv with hv | rfl
      · exact (h.bounded.slotList? hlist).2 v hv
      · exact h.bounded.slot element
    · exact h
  · exact h

theorem insertElement (h : Matches P m m') (list index element : Int) :
    Matches P (m.insertElement list index element) (m'.insertElement list index element) := by
  unfold State.insertElement
  rw [h.slotList?, h.slot]
  split
  · next items hlist =>
    split
    · refine h.setList hlist fun v hv => ?_
      rcases List.eq_or_mem_of_mem_insertIdx hv with rfl | hv
      · exact h.bounded.slot element
      · exact (h.bounded.slotList? hlist).2 v hv
    · exact h
  · exact h

theorem getEntry (h : Matches P m m') (map key value : Int) :
    Matches P (m.getEntry map key value) (m'.getEntry map key value) := by
  unfold State.getEntry
  rw [h.slotMap?, h.slot]
  split
  · next entries hmap => exact h.setSlot value (h.bounded.findEntry hmap _)
  · exact h

theorem setEntry (h : Matches P m m') (map key value : Int) :
    Matches P (m.setEntry map key value) (m'.setEntry map key value) := by
  unfold State.setEntry
  rw [h.slotMap?, h.slot, h.slot]
  split
  · next entries hmap =>
    refine h.setMap hmap fun e he => ?_
    rcases State.mem_of_putEntry he with he | ⟨hv, hk⟩
    · exact (h.bounded.slotMap? hmap).2 e he
    · refine ⟨?_, hv ▸ h.bounded.slot value⟩
      rcases hk with hk | ⟨e', he', hk⟩
      · exact hk ▸ h.bounded.slot key
      · exact hk ▸ ((h.bounded.slotMap? hmap).2 e' he').1
  · exact h

theorem dropEntry (h : Matches P m m') (map key removed : Int) :
    Matches P (m.dropEntry map key removed) (m'.dropEntry map key removed) := by
  unfold State.dropEntry
  rw [h.slotMap?, h.slot]
  split
  · next id entries hmap =>
    have hkept : ∀ e ∈ State.removeEntry (m.slot key) entries, e.1.Into P ∧ e.2.Into P :=
      fun e he => (h.bounded.slotMap? hmap).2 e (State.mem_of_removeEntry he)
    have hset := h.setMap hmap hkept
    exact hset.setSlot removed (h.bounded.findEntry hmap (m.slot key))
  · exact h

/-- **A new foreign object is the same in both machines**, and its data block is tagged alike. -/
theorem bear (h : Matches P m m') {classIndex : Int} {owner : ObjectId} {address : Nat}
    (hc : m.foreignClass? classIndex = some owner) (hfresh : address ∉ m.heap.blockAddresses)
    (hfresh' : address ∉ m'.heap.blockAddresses) (index : Int) (service : Nat) :
    Matches P ((m.newForeign index classIndex address).2.tagBlock address service)
      ((m'.newForeign index classIndex address).2.tagBlock address service) := by
  have hc' : m'.foreignClass? classIndex = some owner := (h.foreignClass? classIndex).trans hc
  rw [newForeign_tagBlock hc hfresh, newForeign_tagBlock hc' hfresh']
  have howner : P owner := by
    have hslot := h.bounded.slot classIndex
    rw [(State.class?_of_foreignClass? hc).1] at hslot
    exact Value.into_object.1 hslot
  have hrefs : ∀ r ∈ (Object.foreign owner ⟨address, some service⟩).references, P r :=
    fun r hr => List.mem_singleton.1 hr ▸ howner
  have hcount := Heap.foreignCount_alloc h.heap.numbered owner ⟨address, some service⟩
  have hcount' := Heap.foreignCount_alloc h.heap.numbered' owner ⟨address, some service⟩
  have halloc : Matches P (m.alloc (.foreign owner ⟨address, some service⟩)).2
      (m'.alloc (.foreign owner ⟨address, some service⟩)).2 := by
    refine ⟨h.bounded.alloc hrefs, ?_, h.heap.alloc _, ?_, h.swept, h.finalizing⟩
    · rw [State.alloc, State.alloc, h.same]
    · exact (congrArg (m'.finalized + ·) hcount').trans
        ((congrArg (· + 1) h.total).trans (congrArg (m.finalized + ·) hcount).symm)
  have hnew : P (m.heap.lastId + 1) := h.heap.fresh _ (Nat.lt_succ_self _)
  have hset := halloc.setSlot index (Value.into_object.2 hnew)
  have hid : m'.heap.lastId = m.heap.lastId := h.heap.lastId
  have hid' : (m'.alloc (.foreign owner ⟨address, some service⟩)).1 = m.heap.lastId + 1 :=
    congrArg (· + 1) hid
  rw [allocInto_eq, allocInto_eq, hid']
  exact hset

end Matches

/-! ## Collections -/

/-- A machine behind a collection, when the finalizers of what was removed have ended. -/
def collected (m : State) : State :=
  { m with heap := m.sweep.2.heap, finalized := m.finalized + m.sweep.1.length }

/-- When all that waits has been finalized, nothing is left to wait. -/
theorem bury_of_swept : ∀ (dead : List Dead) {s : State}, s.swept = dead →
    s.bury dead = { s with swept := [], finalized := s.finalized + dead.length }
  | [], s, hswept => by
    obtain ⟨heap, modules, slots, savedFrames, pins, handles, abortRequest?, location, userData,
      swept, finalizing, finalized⟩ := s
    obtain rfl : swept = [] := hswept
    rfl
  | d :: rest, s, hswept => by
    have hrest := bury_of_swept rest (s := (s.beginFinalizer d).endFinalizer)
      (congrArg List.tail hswept)
    have hcount : s.finalized + 1 + rest.length = s.finalized + (d :: rest).length := by
      rw [List.length_cons, Nat.add_assoc, Nat.add_comm 1]
    rw [← hcount]
    exact hrest

/-- A collection that began with nothing else waiting. -/
theorem bury_sweep {m : State} (hswept : m.swept = []) : m.sweep.2.bury m.sweep.1 = m.collected := by
  have hwaits : m.sweep.2.swept = m.sweep.1 := by
    rw [sweep, hswept]
    exact List.append_nil _
  rw [bury_of_swept _ hwaits, collected]
  obtain ⟨heap, modules, slots, savedFrames, pins, handles, abortRequest?, location, userData,
    swept, finalizing, finalized⟩ := m
  obtain rfl : swept = [] := hswept
  rfl

/-- An emptied machine has finalized what was alive. -/
theorem finalized_drain {m : State} (hswept : m.swept = []) :
    (m.drain.2.bury m.drain.1).finalized = m.finalized + m.heap.foreignCount := by
  have hwaits : m.drain.2.swept = m.drain.1 := by
    rw [drain, hswept]
    exact List.append_nil _
  have hnodup : m.heap.objects.keys.Nodup := m.heap.objects.nodup_keys
  have hcount := Heap.foreignCount_release m.heap hnodup
  have hempty : (m.heap.release m.heap.objects.keys).2.foreignCount = 0 := by
    rw [← Heap.length_foreignIds, Heap.foreignIds]
    have hobjects : (m.heap.release m.heap.objects.keys).2.objects = .empty :=
      Heap.objects_drain m.heap
    rw [hobjects]
    rfl
  rw [hempty, Nat.add_zero] at hcount
  rw [bury_of_swept _ hwaits, ← hcount]
  rfl

theorem get?_collected (m : State) (id : ObjectId) :
    m.collected.heap.get? id = if id ∈ m.heap.reachable m.roots then m.heap.get? id else none :=
  Heap.get?_collect m.heap m.roots id

theorem numbered_collected {m : State} (hn : m.heap.Numbered) : m.collected.heap.Numbered :=
  Heap.numbered_release hn _

/-- What leaves the heap is counted. -/
theorem total_collected (m : State) :
    m.collected.finalized + m.collected.heap.foreignCount = m.finalized + m.heap.foreignCount := by
  have hcount := Heap.foreignCount_release m.heap (m.heap.objects.nodup_keys.filter
    fun id => !(m.heap.reachable m.roots).contains id)
  exact (Nat.add_assoc _ _ _).trans (congrArg (m.finalized + ·) hcount)

namespace Matches

variable {m m' : State}

theorem roots (h : Matches P m m') : m'.roots = m.roots := by
  rw [h.same]
  rfl

theorem of_mem_roots (h : Matches P m m') : ∀ id ∈ m.roots, P id := by
  intro id hid
  obtain ⟨v, hv, hobject⟩ := List.mem_filterMap.1 hid
  exact h.bounded.roots v hv id hobject

/-- Machines that match can reach the same objects, all of which are in `P`. -/
theorem reachable (h : Matches P m m') {id : ObjectId} :
    (id ∈ m'.heap.reachable m'.roots ↔ id ∈ m.heap.reachable m.roots) ∧
      (id ∈ m.heap.reachable m.roots → P id) := by
  rw [h.roots, Heap.mem_reachable, Heap.mem_reachable]
  exact h.heap.reachedFrom h.bounded.heap h.of_mem_roots

/-- Machines that match still do when both have collected. -/
theorem collect (h : Matches P m m') : Matches P m.collected m'.collected := by
  refine ⟨⟨h.bounded.roots, fun id hid r hr => ?_⟩, ?_, ⟨h.heap.lastId, fun id hid => ?_,
    fun id hid => ?_, numbered_collected h.heap.numbered, numbered_collected h.heap.numbered',
    h.heap.fresh⟩, ?_, h.swept, h.finalizing⟩
  · rw [Heap.references, get?_collected] at hr
    by_cases hreach : id ∈ m.heap.reachable m.roots
    · rw [if_pos hreach] at hr
      exact h.bounded.heap id hid r hr
    · rw [if_neg hreach] at hr
      exact absurd hr List.not_mem_nil
  · rw [collected, collected, h.same]
  · rw [get?_collected, get?_collected, h.heap.get? id hid]
    simp only [h.reachable.1]
  · rw [get?_collected, h.heap.lost id hid, ite_self]
  · rw [total_collected, total_collected, h.total]

/-- The numbers that still mean the same when the second machine alone has collected. -/
def Survives (P : ObjectId → Prop) (m : State) (id : ObjectId) : Prop :=
  P id ∧ (id ∈ m.heap.reachable m.roots ∨ m.heap.lastId < id)

/-- **A machine that has collected matches one that has not.** -/
theorem collect_right (h : Matches P m m') : Matches (Survives P m') m m'.collected := by
  have hroot : ∀ id ∈ m.roots, Survives P m' id := by
    intro id hid
    exact ⟨h.of_mem_roots id hid, Or.inl (Heap.mem_reachable_of_root (h.roots ▸ hid))⟩
  refine ⟨⟨fun v hv id hobject => hroot id (List.mem_filterMap.2 ⟨v, hv, hobject⟩),
    fun id hid r hr => ?_⟩, ?_, ⟨h.heap.lastId, fun id hid => ?_, fun id hid => ?_, h.heap.numbered,
    numbered_collected h.heap.numbered', fun id hid => ?_⟩, ?_, h.swept, h.finalizing⟩
  · rcases hid.2 with hreach | hnew
    · refine ⟨h.bounded.heap id hid.1 r hr, Or.inl (Heap.closed_reachable hreach ?_)⟩
      rwa [h.heap.references hid.1]
    · rw [h.heap.lastId] at hnew
      rw [Heap.references, Heap.get?_eq_none_of_gt h.heap.numbered hnew] at hr
      exact absurd hr List.not_mem_nil
  · rw [collected, h.same]
  · rw [get?_collected]
    split
    · exact h.heap.get? id hid.1
    · next hunreached =>
      have hnew := hid.2.resolve_left hunreached
      rw [h.heap.lastId] at hnew
      exact (Heap.get?_eq_none_of_gt h.heap.numbered hnew).symm
  · rw [get?_collected]
    split
    · next hreach => exact h.heap.lost id fun hP => hid ⟨hP, Or.inl hreach⟩
    · rfl
  · exact ⟨h.heap.fresh id hid, Or.inr (h.heap.lastId ▸ hid)⟩
  · rw [total_collected, h.total]

end Matches

end State

end ScriptHost.Machine
