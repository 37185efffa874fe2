import ScriptHost.Proofs.Serving

/-!
# Maps are finite maps

Behind the map operations stands something simpler: numbered finite maps, and slots with values that
may refer to them (`Mappings`).  No work of a host or of its scripts stores a key twice
(`Steps.keysApart`), so a machine can be looked at in this way (`Mappings.of`).  Each operation through
slots ends as it does there, and leaves a machine that shows what is there then
(`serves_mapRequest`).  A host cannot tell the two apart, whatever it asks for one after the other
(`Setting.maps_served`), and whether slots for the map, the key and the value are the same or not.
-/

namespace ScriptHost.Machine

/-! ## Keys stay apart -/

theorem Heap.KeysApart.release {h : Heap} (hk : h.KeysApart) (ids : List ObjectId) :
    (h.release ids).2.KeysApart := by
  intro id entries hmap
  have hget := Heap.get?_of_map? hmap
  rw [Heap.get?_release] at hget
  split at hget
  · cases hget
  · exact hk id entries (by rw [Heap.map?, hget])

namespace State

theorem keysApart_create (n : Nat) : (create n).heap.KeysApart := by
  have hempty : Heap.empty.KeysApart := fun id entries hmap => by cases hmap
  have hfirst : (Heap.empty.alloc (.classDef (coreClass systemName))).2.KeysApart :=
    hempty.alloc fun _ h => by cases h
  exact hfirst.alloc fun _ h => by cases h

theorem MapIn.apart {m : State} {i : Nat} {id : ObjectId} {entries : List (Value × Value)}
    (h : m.MapIn i id entries) (hk : m.heap.KeysApart) : Apart entries :=
  hk id entries (by rw [Heap.map?, h.2])

/-- Only slots and maps are written, and no map gets a key twice. -/
structure WritesMaps (m m' : State) : Prop where
  rest : m' = { m with slots := m'.slots, heap := m'.heap }
  objects : ∀ id, m'.heap.get? id = m.heap.get? id ∨
    (m'.heap.map? id).isSome ∧ ((m.heap.map? id).isSome ∨ m.heap.get? id = none)
  numbered : m'.heap.Numbered
  keys : m'.heap.KeysApart

namespace WritesMaps

variable {m m' m'' : State}

theorem refl (h : m.heap.Numbered ∧ m.heap.KeysApart) : m.WritesMaps m :=
  ⟨rfl, fun _ => .inl rfl, h.1, h.2⟩

theorem alters (h : m.WritesMaps m') :
    Heap.Alters (fun heap id => (heap.map? id).isSome) m.heap m'.heap :=
  h.objects

theorem trans (h : m.WritesMaps m') (h' : m'.WritesMaps m'') : m.WritesMaps m'' := by
  refine ⟨?_, h.alters.trans (fun hget => ?_) h'.alters, h'.numbered, h'.keys⟩
  · rw [h'.rest, h.rest]
  · rw [Heap.map?, hget, Heap.map?]

/-- A slot is written. -/
theorem slot (h : m.heap.Numbered ∧ m.heap.KeysApart) (i : Nat) (v : Value) :
    m.WritesMaps { m with slots := m.slots.set i v } :=
  ⟨rfl, fun _ => .inl rfl, h.1, h.2⟩

/-- A new map is put into a slot. -/
theorem newMap (h : m.heap.Numbered ∧ m.heap.KeysApart) (i : Nat) : m.WritesMaps (m.newMap i) := by
  have halters : Heap.Alters (fun heap id => (heap.map? id).isSome) m.heap
      (m.heap.alloc (.map [])).2 := .alloc h.1 (by rw [Heap.map?, Heap.get?_alloc_self]; rfl)
  rw [State.newMap, allocInto_natCast]
  exact ⟨rfl, halters, h.1.alloc _, h.2.alloc fun _ => Heap.apart_of_isBare rfl⟩

/-- The entries of a map are replaced by others with different keys. -/
theorem entries (h : m.heap.Numbered ∧ m.heap.KeysApart) {id : ObjectId}
    {entries entries' : List (Value × Value)} (hid : m.heap.get? id = some (.map entries))
    (hapart : Apart entries') : m.WritesMaps { m with heap := m.heap.set id (.map entries') } := by
  have hself : (m.heap.set id (.map entries')).get? id = some (.map entries') :=
    Table.find?_insert_self ..
  have halters : Heap.Alters (fun heap id => (heap.map? id).isSome) m.heap
      (m.heap.set id (.map entries')) :=
    .set (by rw [Heap.map?, hid]; rfl) (by rw [Heap.map?, hself]; rfl)
  refine ⟨rfl, halters, (Heap.Later.set hid _).numbered h.1, h.2.set id fun _ heq => ?_⟩
  cases heq
  exact hapart

end WritesMaps

end State

end ScriptHost.Machine

namespace ScriptHost.Bridge

open Machine (State Value ObjectId Mapping Apart)

variable {η α β γ : Type}

/-- **No step stores a key twice** in a map of any machine. -/
theorem Step.keysApart {w w' : World (Host η)} (h : Step w w')
    (hk : ∀ a, (w.machine a).heap.KeysApart) (a : Address) : (w'.machine a).heap.KeysApart := by
  have hput : ∀ {b : Address} {m : State}, m.heap.KeysApart →
      ((w.putMachine b m).machine a).heap.KeysApart := fun {b m} hm => by
    rcases w.machine_putMachine b a m with ⟨hself, -⟩ | hother
    · rwa [hself]
    · rw [hother]
      exact hk a
  cases h with
  | idle | watch | misreport | enter | use | serve | found | listen | retire => exact hk a
  | work _ hframe => exact hput (hframe.keys (hk _))
  | create _ ha _ =>
    rw [World.machine_withVm ha]
    exact hk a
  | adopt | release => exact hput (hk _)
  | bear hd => exact hput (hd.birth.keys (hk _))
  | sweep | drain => exact hput ((hk _).release _)
  | finalize =>
    rw [machine_finalized]
    exact hput (hk _)
  | bury => exact hput (hk _)
  | @discard b =>
    by_cases hab : a = b
    · subst hab
      rw [World.machine, Table.find?_erase_self]
      exact Machine.State.keysApart_create 0
    · rw [World.machine, Table.find?_erase_ne _ hab]
      exact hk a

/-- **Maps have every key once**, in every world that a host reaches. -/
theorem Steps.keysApart {s : Setting η} {w : World (Host η)} (h : Steps s.start w) (a : Address) :
    (w.machine a).heap.KeysApart := by
  refine h.preserve (P := fun w => ∀ a, (w.machine a).heap.KeysApart)
    (fun hstep hk => hstep.keysApart hk) (fun b => ?_) a
  rw [Setting.start, World.machine_start]
  exact Machine.State.keysApart_create 0

/-! ## Numbered maps -/

/-- An operation on maps, through slots of one machine. -/
inductive MapRequest where
  | make (slot : Nat)
  | count (slot : Nat)
  | has (slot key : Nat)
  | read (slot key value : Nat)
  | write (slot key value : Nat)
  | remove (slot key removed : Nat)

/-- What an operation on maps answers. -/
inductive MapAnswer where
  | done
  | count (entries : Nat)
  | has (present : Bool)

/-- What there is under a number: a finite map, or something else of a type. -/
inductive MapThing where
  | mapping (m : Mapping)
  | other (type : SlotType)

/-- Numbered finite maps, and slots with values that may refer to them. -/
structure Mappings where
  slots : List Value
  things : ObjectId → MapThing
  /-- The number of the map that is made next. -/
  next : ObjectId

namespace Mappings

/-- Gives a number to a map. -/
def assign (s : Mappings) (id : ObjectId) (m : Mapping) : Mappings :=
  { s with things := Function.update s.things id (.mapping m) }

/-- The map that a value refers to with its number, or else the type of the value. -/
def find (s : Mappings) : Value → Except SlotType (ObjectId × Mapping)
  | .null => .error .null
  | .bool _ => .error .bool
  | .number _ => .error .number
  | .string _ => .error .string
  | .object id =>
    match s.things id with
    | .mapping m => .ok (id, m)
    | .other type => .error type

/-- The map of the value in a slot. -/
def mapping (s : Mappings) (slot : Nat) (v : Value) : Except HostError (ObjectId × Mapping) :=
  (s.find v).mapError (.slotTypeMismatch slot .map)

/-- Refuses the value in a slot as a key, if it is a list, a map or a foreign object. -/
def checkKey (s : Mappings) (slot : Nat) (k : Value) : Except HostError Unit :=
  match s.find k with
  | .ok _ => .error (.unhashableKey slot .map)
  | .error type => if Slot.isHashable type then .ok () else .error (.unhashableKey slot type)

/-- The map in a slot with its number, and the key in another slot. -/
def operands (s : Mappings) (slot key : Nat) : Except HostError (Value × ObjectId × Mapping) := do
  let v ← valueAt s.slots slot
  let k ← valueAt s.slots key
  let m ← s.mapping slot v
  s.checkKey key k
  return (k, m)

/-- What comes of a request, with the maps afterwards. -/
def perform (s : Mappings) : MapRequest → Except HostError (MapAnswer × Mappings)
  | .make slot => do
    let _ ← valueAt s.slots slot
    return (.done, { s.assign s.next .empty with
      slots := s.slots.set slot (.object s.next), next := s.next + 1 })
  | .count slot => do
    let (_, m) ← s.mapping slot (← valueAt s.slots slot)
    return (.count m.count, s)
  | .has slot key => do
    let (k, _, m) ← s.operands slot key
    return (.has (m.find k).isSome, s)
  | .read slot key value => do
    let _ ← valueAt s.slots value
    let (k, _, m) ← s.operands slot key
    return (.done, { s with slots := s.slots.set value ((m.find k).getD .null) })
  | .write slot key value => do
    let v ← valueAt s.slots value
    let (k, id, m) ← s.operands slot key
    return (.done, s.assign id (m.put k v))
  | .remove slot key removed => do
    let _ ← valueAt s.slots removed
    let (k, id, m) ← s.operands slot key
    return (.done, { s.assign id (m.drop k) with
      slots := s.slots.set removed ((m.find k).getD .null) })

/-! ### The maps of a machine -/

/-- A machine, looked at as its maps. -/
def of (m : State) : Mappings where
  slots := m.slots
  things id :=
    match m.heap.get? id with
    | some (.map entries) => .mapping (.of entries)
    | _ => .other (m.heap.slotType (.object id))
  next := m.heap.lastId + 1

section

variable {m m' : State} {id : ObjectId} {entries : List (Value × Value)} {v : Value}

theorem things_of_map (h : m.heap.get? id = some (.map entries)) :
    (of m).things id = .mapping (.of entries) := by
  simp only [of, h]

/-- What two heaps have alike is the same thing. -/
theorem things_congr (h : m'.heap.get? id = m.heap.get? id) :
    (of m').things id = (of m).things id := by
  simp only [of, Machine.Heap.slotType, h]

theorem map_of_find {p : ObjectId × Mapping} (h : (of m).find v = .ok p) :
    ∃ entries, v = .object p.1 ∧ m.heap.get? p.1 = some (.map entries) ∧ p.2 = .of entries := by
  cases v with
  | object id' =>
    unfold find of at h
    dsimp only at h
    cases hget : m.heap.get? id' with
    | none => simp [hget] at h
    | some o =>
      cases o with
      | map entries =>
        rw [hget] at h
        cases h
        exact ⟨entries, rfl, hget, rfl⟩
      | _ => simp [hget] at h
  | null | bool | number | string => cases h

/-- A value that refers to a map is reported as one, and another one as what it is. -/
theorem slotType_eq_find (m : State) (v : Value) :
    m.heap.slotType v = match (of m).find v with
      | .ok _ => .map
      | .error actual => actual := by
  cases v with
  | object id =>
    unfold find of
    dsimp only
    cases hget : m.heap.get? id with
    | none => rfl
    | some o =>
      cases o with
      | map entries => simp only [Machine.Heap.slotType, hget]
      | list | classDef | instanceOf | foreign => rfl
  | null | bool | number | string => rfl

theorem find_ne_map (m : State) (v : Value) : (of m).find v ≠ .error .map := by
  intro h
  cases v with
  | object id =>
    unfold find of at h
    dsimp only at h
    cases hget : m.heap.get? id with
    | none => simp [hget, Machine.Heap.slotType] at h
    | some o => cases o <;> simp [hget, Machine.Heap.slotType] at h
  | null | bool | number | string => cases h

/-- The map of a value is in the slot. -/
theorem mapIn_of_mapping {i : Nat} {p : ObjectId × Mapping} (hv : m.slots[i]? = some v)
    (h : (of m).mapping i v = .ok p) : ∃ entries, m.MapIn i p.1 entries ∧ p.2 = .of entries := by
  unfold mapping at h
  cases hfind : (of m).find v with
  | error actual =>
    rw [hfind] at h
    cases h
  | ok q =>
    rw [hfind] at h
    cases h
    obtain ⟨entries, rfl, hget, hp⟩ := map_of_find hfind
    exact ⟨entries, ⟨hv, hget⟩, hp⟩

/-- The operands of a request are in the slots. -/
theorem mapIn_of_operands {i j : Nat} {o : Value × ObjectId × Mapping}
    (h : (of m).operands i j = .ok o) :
    ∃ entries, m.MapIn i o.2.1 entries ∧ o.2.2 = .of entries ∧ m.slots[j]? = some o.1 := by
  unfold operands at h
  obtain ⟨v, hv, h⟩ := ok_of_bind h
  obtain ⟨k, hk, h⟩ := ok_of_bind h
  obtain ⟨p, hp, h⟩ := ok_of_bind h
  obtain ⟨-, -, h⟩ := ok_of_bind h
  cases h
  obtain ⟨entries, hmap, hp⟩ := mapIn_of_mapping (valueAt_eq_ok hv) hp
  exact ⟨entries, hmap, hp, valueAt_eq_ok hk⟩

theorem of_newMap (m : State) (slot : Nat) :
    of (m.newMap slot) = { (of m).assign (of m).next .empty with
      slots := m.slots.set slot (.object (of m).next), next := (of m).next + 1 } := by
  have hthings : (of (m.newMap slot)).things =
      Function.update (of m).things (of m).next (.mapping .empty) := by
    rw [State.newMap, State.allocInto_natCast]
    funext id
    by_cases hid : id = (of m).next
    · subst hid
      rw [Function.update_self]
      change _ = MapThing.mapping (.of [])
      exact things_of_map (m.heap.get?_alloc_self (.map []))
    · rw [Function.update_of_ne hid]
      exact things_congr (m.heap.get?_alloc_of_ne (.map []) hid)
  have hslots : (m.newMap slot).slots = m.slots.set slot (.object (of m).next) := by
    rw [State.newMap, State.allocInto_natCast]
    rfl
  have hnext : (of (m.newMap slot)).next = (of m).next + 1 := by
    rw [State.newMap, State.allocInto_natCast]
    rfl
  rw [← hslots, ← hnext, assign, ← hthings]
  rfl

theorem of_set (m : State) (id : ObjectId) (entries : List (Value × Value)) :
    of { m with heap := m.heap.set id (.map entries) } = (of m).assign id (.of entries) := by
  have hthings : (of { m with heap := m.heap.set id (.map entries) }).things =
      Function.update (of m).things id (.mapping (.of entries)) := by
    funext id'
    by_cases hid : id' = id
    · subst hid
      have hself : (m.heap.set id' (.map entries)).get? id' = some (.map entries) :=
        Table.find?_insert_self ..
      rw [things_of_map hself, Function.update_self]
    · have hother : (m.heap.set id (.map entries)).get? id' = m.heap.get? id' :=
        Table.find?_insert_ne _ _ hid
      rw [things_congr hother, Function.update_of_ne hid]
  rw [assign, ← hthings]
  rfl

end

end Mappings

/-! ## Requests about maps -/

/-- Serves a request. -/
def MapRequest.run (vm : VmId) : MapRequest → Act η MapAnswer
  | .make slot => do
    Slot.setNewMap ⟨vm, slot⟩
    return .done
  | .count slot => return .count (← Slot.mapCount ⟨vm, slot⟩)
  | .has slot key => return .has (← Slot.mapContainsKey ⟨vm, slot⟩ ⟨vm, key⟩)
  | .read slot key value => do
    Slot.getMapValue ⟨vm, slot⟩ ⟨vm, key⟩ ⟨vm, value⟩
    return .done
  | .write slot key value => do
    Slot.setMapValue ⟨vm, slot⟩ ⟨vm, key⟩ ⟨vm, value⟩
    return .done
  | .remove slot key removed => do
    Slot.removeMapValue ⟨vm, slot⟩ ⟨vm, key⟩ ⟨vm, removed⟩
    return .done

/-- Maps, looked at as finite maps. -/
def maps : Aspect Mappings where
  view := Mappings.of
  Fit m := m.heap.Numbered ∧ m.heap.KeysApart
  Writes := State.WritesMaps
  refl := .refl
  trans := .trans
  fit h := ⟨h.numbered, h.keys⟩

section

variable {w t : World η} {vm : VmId} {a : Address} (h : Attending maps vm a w)
include h

theorem decides_mapping {i : Nat} {v : Value} (hv : (w.machine a).slots[i]? = some v) :
    Decides (Slot.expectType ⟨vm, i⟩ a .map) w
      ((fun _ => ()) <$> (Mappings.of (w.machine a)).mapping i v) := by
  have hexpect := decides_expectType h.candid hv .map
  rw [Mappings.slotType_eq_find] at hexpect
  unfold Mappings.mapping
  cases hfind : (Mappings.of (w.machine a)).find v with
  | ok p => rwa [hfind] at hexpect
  | error actual =>
    have hne : actual ≠ .map := by
      rintro rfl
      exact Mappings.find_ne_map _ _ hfind
    rw [hfind] at hexpect
    dsimp only at hexpect
    rwa [if_neg hne] at hexpect

/-- A key is refused for the type that its slot reports. -/
theorem decides_checkKey {j : Nat} {k : Value} (hk : (w.machine a).slots[j]? = some k) :
    Decides (do
        let actual ← Native.slotType a j
        if Slot.isHashable actual then return a else Run.fault (.unhashableKey j actual) : Act η _) w
      ((fun _ => a) <$> (Mappings.of (w.machine a)).checkKey j k) := by
  refine ⟨w.note (.enter a), .note w _, ?_⟩
  rw [Run.bind_of_value (slotType_eq_value h.candid hk), Mappings.slotType_eq_find]
  unfold Mappings.checkKey
  cases (Mappings.of (w.machine a)).find k with
  | ok p => rfl
  | error actual =>
    dsimp only
    split <;> rfl

/-- The checks of the slots for a map and a key. -/
theorem decides_operands (i j : Nat) (operation : String) :
    Decides (do
        let a ← Slot.checked ⟨vm, i⟩ operation
        let _ ← Slot.checked ⟨vm, j⟩ operation
        Slot.expectType ⟨vm, i⟩ a .map
        let actual ← Native.slotType a j
        if Slot.isHashable actual then return a else Run.fault (.unhashableKey j actual) : Act η _) w
      ((fun _ => a) <$> (Mappings.of (w.machine a)).operands i j) := by
  unfold Mappings.operands
  simp only [map_bind]
  refine decides_bind (decides_checked h.candid i operation) fun v t₁ hv h₁ => ?_
  have hs₁ := h.intact h₁
  rw [← h₁.machine_eq] at hv ⊢
  refine decides_bind (decides_checked hs₁.candid j operation) fun k t₂ hk h₂ => ?_
  have hs₂ := hs₁.intact h₂
  rw [← h₂.machine_eq] at hv hk ⊢
  refine decides_bind (decides_mapping hs₂ (valueAt_eq_ok hv)) fun p t₃ _ h₃ => ?_
  rw [← h₃.machine_eq] at hk ⊢
  obtain ⟨t₄, h₄, hcheck⟩ := decides_checkKey (hs₂.intact h₃) (valueAt_eq_ok hk)
  refine ⟨t₄, h₄, hcheck.trans ?_⟩
  cases (Mappings.of (t₃.machine a)).checkKey j k <;> rfl

theorem decides_mapOperands (i j : Nat) (operation : String) :
    Decides (Slot.mapOperands ⟨vm, i⟩ ⟨vm, j⟩ none operation) w
      ((fun _ => a) <$> (Mappings.of (w.machine a)).operands i j) := by
  refine decides_bind (r := .ok ()) (g := id) (k := fun _ => _)
    (decides_ensureSameVm w vm j operation) fun _ t _ ht => ?_
  rw [← ht.machine_eq]
  exact decides_operands (h.intact ht) i j operation

/-- A third slot is checked before those of the map and the key. -/
theorem decides_mapOperands_some (i j l : Nat) (operation : String) :
    Decides (Slot.mapOperands ⟨vm, i⟩ ⟨vm, j⟩ (some ⟨vm, l⟩) operation) w
      ((fun _ => a) <$> (do
        let v ← valueAt (w.machine a).slots l
        let o ← (Mappings.of (w.machine a)).operands i j
        return (v, o))) := by
  simp only [map_bind]
  refine decides_bind (r := .ok ()) (g := id) (k := fun _ => _)
    (decides_ensureSameVm w vm j operation) fun _ t₁ _ h₁ => ?_
  refine decides_bind (r := .ok ()) (g := id) (k := fun _ => _)
    (decides_ensureSameVm t₁ vm l operation) fun _ t₂ _ h₂ => ?_
  have ht := h₁.trans h₂
  have hs := h.intact ht
  rw [← ht.machine_eq]
  refine decides_bind (decides_checked hs.candid l operation) fun v t₃ _ h₃ => ?_
  rw [← h₃.machine_eq]
  obtain ⟨t₄, h₄, hrun⟩ := decides_operands (hs.intact h₃) i j operation
  refine ⟨t₄, h₄, hrun.trans ?_⟩
  cases (Mappings.of (t₃.machine a)).operands i j <;> rfl

/-- What is done about an entry of a map, behind all checks. -/
theorem serves_entry {i j l : Nat} {operation : String} {f : State → State}
    (k : Value → Value → ObjectId → Mapping → Mappings)
    (hf : ∀ v key id entries, (w.machine a).MapIn i id entries →
      (w.machine a).slots[j]? = some key → (w.machine a).slots[l]? = some v →
        (w.machine a).WritesMaps (f (w.machine a)) ∧
          Mappings.of (f (w.machine a)) = k v key id (.of entries)) :
    Serves maps (do
        let a ← Slot.mapOperands ⟨vm, i⟩ ⟨vm, j⟩ (some ⟨vm, l⟩) operation
        changeNative a f
        return .done) w a (do
      let v ← valueAt (w.machine a).slots l
      let o ← (Mappings.of (w.machine a)).operands i j
      return (MapAnswer.done, k v o.1 o.2.1 o.2.2)) := by
  have hserves := serves_bind h (decides_mapOperands_some h i j l operation)
    (f := fun a => do changeNative a f; return MapAnswer.done)
    (k := fun o => pure (MapAnswer.done, k o.1 o.2.1 o.2.2.1 o.2.2.2)) fun o t ho ht => ?_
  · simpa only [bind_assoc, pure_bind] using hserves
  · obtain ⟨v, hv, ho⟩ := ok_of_bind ho
    obtain ⟨p, hp, ho⟩ := ok_of_bind ho
    cases ho
    obtain ⟨entries, hmap, hentries, hkey⟩ := Mappings.mapIn_of_operands hp
    obtain ⟨hwrites, hview⟩ := hf v _ _ _ hmap hkey (valueAt_eq_ok hv)
    rw [← hentries] at hview
    rw [← ht.machine_eq] at hwrites hview
    exact serves_change hwrites hview

/-- **A machine serves a request about maps as its finite maps do**, and shows then what they are
then. -/
theorem serves_mapRequest (r : MapRequest) :
    Serves maps (r.run vm) w a ((Mappings.of (w.machine a)).perform r) := by
  cases r with
  | make slot =>
    simp only [MapRequest.run, Slot.setNewMap, bind_assoc]
    refine serves_bind h (decides_checked h.candid slot _) fun v t _ ht => ?_
    have hs := h.intact ht
    rw [← ht.machine_eq]
    exact serves_change (.newMap hs.fit slot) (Mappings.of_newMap _ slot)
  | count slot =>
    simp only [MapRequest.run, Slot.mapCount, bind_assoc]
    refine serves_bind h (decides_checked h.candid slot _) fun v t hv ht => ?_
    have hs := h.intact ht
    rw [← ht.machine_eq] at hv ⊢
    refine serves_bind hs (decides_mapping hs (valueAt_eq_ok hv)) fun p u hp hu => ?_
    have hs' := hs.intact hu
    rw [← hu.machine_eq] at hp hv ⊢
    obtain ⟨entries, hmap, hentries⟩ := Mappings.mapIn_of_mapping (valueAt_eq_ok hv) hp
    have hcount := EntryPoint.mapCount_eq (hs'.candid.hasFault _) hmap
    have hlength : p.2.count = entries.length := by
      rw [hentries, Mapping.count_of (hmap.apart hs'.fit.2)]
    rw [← hlength] at hcount
    exact serves_read hs' hcount MapAnswer.count
  | has slot key =>
    simp only [MapRequest.run, Slot.mapContainsKey, bind_assoc]
    refine serves_bind h (decides_mapOperands h slot key _) fun o t ho ht => ?_
    have hs := h.intact ht
    rw [← ht.machine_eq] at ho ⊢
    obtain ⟨entries, hmap, hentries, hkey⟩ := Mappings.mapIn_of_operands ho
    have hhas : (readNative a (fun m => m.containsKey slot key) : Act η Bool) t =
        (.value (o.2.2.find o.1).isSome, t.note (.enter a)) := by
      rw [hentries, Mapping.find_of]
      exact Prod.ext (congrArg Outcome.value (State.containsKey_of_mapIn hmap hkey)) rfl
    exact serves_read hs hhas MapAnswer.has
  | read slot key value =>
    simp only [MapRequest.run, Slot.getMapValue, bind_assoc]
    refine serves_entry h (fun _ k _ m => { Mappings.of (w.machine a) with
      slots := (w.machine a).slots.set value ((m.find k).getD .null) })
      fun v k id entries hmap hkey _ => ?_
    rw [State.getEntry_of_mapIn hmap hkey, Mapping.find_of]
    exact ⟨.slot h.fit _ _, rfl⟩
  | write slot key value =>
    simp only [MapRequest.run, Slot.setMapValue, bind_assoc]
    refine serves_entry h (fun v k id m => (Mappings.of (w.machine a)).assign id (m.put k v))
      fun v k id entries hmap hkey hv => ?_
    have hapart := hmap.apart h.fit.2
    rw [State.setEntry_of_mapIn hmap hkey hv, ← Mapping.of_putEntry]
    exact ⟨.entries h.fit hmap.2 (hapart.putEntry _ _), Mappings.of_set _ _ _⟩
  | remove slot key removed =>
    simp only [MapRequest.run, Slot.removeMapValue, bind_assoc]
    refine serves_entry h (fun _ k id m => { (Mappings.of (w.machine a)).assign id (m.drop k) with
      slots := (w.machine a).slots.set removed ((m.find k).getD .null) })
      fun v k id entries hmap hkey _ => ?_
    have hapart := hmap.apart h.fit.2
    rw [State.dropEntry_of_mapIn hmap hkey, Mapping.find_of, ← Mapping.of_removeEntry _ hapart]
    have hentries := State.WritesMaps.entries h.fit hmap.2 (hapart.removeEntry k)
    refine ⟨hentries.trans (.slot ⟨hentries.numbered, hentries.keys⟩ _ _), ?_⟩
    rw [← Mappings.of_set]
    rfl

end

namespace Setting

variable (s : Setting η)

/-- **Maps are finite maps.**  In every world that a host reaches, maps have every key once.  Where no
machine misreports anything, whatever is asked for about maps, through slots that exist or not, and that
may coincide, the answers are those of finite maps.  The machine has their slots and entries afterwards
and has written nothing else. -/
theorem maps_served {w : World (Host η)} (hsteps : Steps s.start w) :
    (∀ a, (w.machine a).heap.KeysApart) ∧
      (w.faults = [] → ∀ {vm a}, w.LiveAt vm a → ∀ requests : List MapRequest, ∃ m t,
        (w.putMachine a m).Intact t ∧
          requestAll (MapRequest.run vm) requests w =
            (.value (answers Mappings.perform (Mappings.of (w.machine a)) requests).1, t) ∧
          Mappings.of m = (answers Mappings.perform (Mappings.of (w.machine a)) requests).2 ∧
          (w.machine a).WritesMaps m) := by
  refine ⟨hsteps.keysApart, fun hfaults vm a hl requests => ?_⟩
  have hserving : Attending maps vm a w :=
    ⟨hl, (hsteps.sound s.steady_start.sound).roster.mem_natives hl, hfaults,
      ((tracking_of_steps hsteps).tidy a).numbered, hsteps.keysApart a⟩
  have hserves : ∀ {w : World (Host η)}, Attending maps vm a w → ∀ r : MapRequest,
      Serves maps (r.run vm) w a (Mappings.perform (maps.view (w.machine a)) r) :=
    serves_mapRequest
  obtain ⟨m, t, ht, hwrites, hrun, hview⟩ := serves_requests hserves requests hserving
  exact ⟨m, t, ht, hrun, hview, hwrites⟩

/-- A map is the value of null in itself.  It is there once, and gone when it was removed.  Its slot
held the key, so that the map is asked for itself in the end, which is no key. -/
theorem maps_served_listed :
    ∃ m t, (listed.putMachine 2 m).Intact t ∧
      requestAll (MapRequest.run 1) [.make 0, .write 0 1 0, .write 0 1 0, .has 0 1, .count 0,
        .remove 0 1 1, .count 1, .has 0 1] listed =
        (.value [.ok .done, .ok .done, .ok .done, .ok (.has true), .ok (.count 1), .ok .done,
          .ok (.count 0), .error (.unhashableKey 1 .map)], t) ∧
      m.slots = [.object 4, .object 4] ∧ m.heap.KeysApart := by
  have hsteps : Steps silent.start listed := silent.steps_run .listing
  have hfaults : listed.faults = [] := congrArg (·.1) listed_eq
  have hlive : listed.LiveAt 1 2 := by
    refine ⟨?_, congrArg (·.2.1) listed_eq⟩
    cbv
  obtain ⟨m, t, ht, hrun, hview, hwrites⟩ := (silent.maps_served hsteps).2 hfaults hlive
    [.make 0, .write 0 1 0, .write 0 1 0, .has 0 1, .count 0, .remove 0 1 1, .count 1, .has 0 1]
  refine ⟨m, t, ht, hrun.trans ?_, (congrArg Mappings.slots hview).trans ?_, hwrites.keys⟩ <;> cbv

end Setting

end ScriptHost.Bridge
