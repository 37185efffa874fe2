import ScriptHost.Proofs.Alarms
import ScriptHost.Proofs.Fates
import ScriptHost.Proofs.Handles
import ScriptHost.Proofs.Tending

/-!
# The foreign objects of a machine, from first to last

A foreign object is made by an entry point, leaves the heap in a collection or at the end of its
machine, waits for its finalizer, and is counted when the finalizer has ended.  A `Ledger` follows all
of them by their numbers, through any `Turns` of the machine, and `Ledger.Fits` says that it is exact:
every number that was ever given to a foreign object stands in exactly one place.  So as many objects
have been made as are on the heap, are waiting, or have been finalized, and all of them have been
finalized when a machine is gone.

The numbers of a heap go up, and none is given out again (`Heap.Later`).  So no object is ever taken
for another one.
-/

namespace ScriptHost.Machine

/-! ## The foreign objects of a heap -/

namespace Heap

variable {h h' : Heap} {ids : List ObjectId} {id : ObjectId}

/-- The numbers of the foreign objects. -/
def foreignIds (h : Heap) : List ObjectId := h.objects.keys.filter fun id => (h.foreign? id).isSome

theorem isSome_foreign?_iff : (h.foreign? id).isSome ↔ ∃ o, h.get? id = some o ∧ isForeign o := by
  unfold foreign?
  cases hid : h.get? id with
  | none => simp
  | some o => cases o <;> simp [isForeign]

theorem mem_foreignIds : id ∈ h.foreignIds ↔ (h.foreign? id).isSome := by
  refine List.mem_filter.trans ⟨And.right, fun hid => ⟨?_, hid⟩⟩
  obtain ⟨o, ho, -⟩ := isSome_foreign?_iff.1 hid
  exact Table.mem_keys_of_find? ho

theorem nodup_foreignIds (h : Heap) : h.foreignIds.Nodup := h.objects.nodup_keys.filter _

/-- Heaps with the same foreign objects have the same numbers of them. -/
theorem foreignIds_perm (hsame : ∀ id, (h'.foreign? id).isSome = (h.foreign? id).isSome) :
    h'.foreignIds.Perm h.foreignIds := by
  refine (List.perm_ext_iff_of_nodup h'.nodup_foreignIds h.nodup_foreignIds).2 fun id => ?_
  rw [mem_foreignIds, mem_foreignIds, hsame]

theorem length_foreignIds (h : Heap) : h.foreignIds.length = h.foreignCount := by
  have hentry : ∀ e ∈ h.objects.entries, (h.foreign? e.1).isSome = isForeign e.2 := by
    intro e he
    have hid : h.get? e.1 = some e.2 := Table.find?_of_mem_entries he
    refine Bool.eq_iff_iff.2 (isSome_foreign?_iff.trans ⟨?_, fun ho => ⟨e.2, hid, ho⟩⟩)
    rintro ⟨o, ho, hforeign⟩
    cases ho.symm.trans hid
    exact hforeign
  rw [foreignIds, ← List.countP_eq_length_filter, foreignCount, Table.countValues, Table.values,
    Table.keys, List.countP_map, List.countP_map]
  exact List.countP_congr fun e he => Bool.eq_iff_iff.1 (hentry e he)

/-- A new foreign object has the next number. -/
theorem foreignIds_alloc (hn : h.Numbered) (owner : ObjectId) (block : Block) :
    (h.alloc (.foreign owner block)).2.foreignIds.Perm ((h.lastId + 1) :: h.foreignIds) := by
  have hfresh : h.lastId + 1 ∉ h.foreignIds := by
    rw [mem_foreignIds, foreign?, get?_eq_none_of_gt hn (Nat.lt_succ_self _)]
    simp
  refine (List.perm_ext_iff_of_nodup (nodup_foreignIds _)
    (List.nodup_cons.2 ⟨hfresh, h.nodup_foreignIds⟩)).2 fun id => ?_
  rw [List.mem_cons, mem_foreignIds, mem_foreignIds]
  by_cases hid : id = h.lastId + 1
  · subst hid
    have hself : (h.alloc (.foreign owner block)).2.get? (h.lastId + 1) = some (.foreign owner block) :=
      get?_alloc_self h _
    simp [foreign?, hself]
  · simp [foreign?, get?_alloc_of_ne h _ hid, hid]

/-! ### Objects that leave -/

/-- The foreign objects among those with the given numbers, in the order in which they are removed. -/
def leaving (h : Heap) (ids : List ObjectId) : List (ObjectId × Dead) :=
  ids.mergeSort.filterMap fun id => (h.remains? id).map fun d => (id, d)

theorem snd_leaving (h : Heap) (ids : List ObjectId) :
    (h.leaving ids).map Prod.snd = (h.release ids).1 := by
  rw [leaving, List.map_filterMap, release]
  refine List.filterMap_congr fun id _ => ?_
  cases h.remains? id <;> rfl

theorem fst_leaving (h : Heap) (ids : List ObjectId) :
    (h.leaving ids).map Prod.fst = ids.mergeSort.filter fun id => (h.foreign? id).isSome := by
  rw [leaving, List.map_filterMap, ← List.filterMap_eq_filter]
  refine List.filterMap_congr fun id _ => ?_
  have hsome : (h.remains? id).isSome = (h.foreign? id).isSome := isSome_remains?
  cases hd : h.remains? id with
  | none => simp_all [Option.guard]
  | some d => simp_all [Option.guard]

/-- **No foreign object is lost on the way**, and none is there twice. -/
theorem leaving_perm (hnodup : ids.Nodup) :
    ((h.leaving ids).map Prod.fst ++ (h.release ids).2.foreignIds).Perm h.foreignIds := by
  have hsorted : ids.mergeSort.Nodup := (List.mergeSort_perm ids _).nodup_iff.2 hnodup
  have hleft : ∀ id, ((h.release ids).2.foreign? id).isSome ↔
      id ∉ ids ∧ (h.foreign? id).isSome := by
    intro id
    rw [foreign?, get?_release]
    by_cases hid : id ∈ ids
    · simp [hid]
    · simp [hid, foreign?]
  rw [fst_leaving]
  refine (List.perm_ext_iff_of_nodup ?_ h.nodup_foreignIds).2 fun id => ?_
  · refine (hsorted.filter _).append (nodup_foreignIds _) fun id hgone hkept => ?_
    rw [List.mem_filter, List.mem_mergeSort] at hgone
    rw [mem_foreignIds, hleft] at hkept
    exact hkept.1 hgone.1
  · rw [List.mem_append, List.mem_filter, List.mem_mergeSort, mem_foreignIds, mem_foreignIds, hleft]
    by_cases hid : id ∈ ids
    · simp [hid]
    · simp [hid]

theorem Later.release (h : Heap) (ids : List ObjectId) : h.Later (h.release ids).2 := by
  refine ⟨fun hn => numbered_release hn ids, Nat.le_refl _, fun id _ hid => ?_⟩
  rw [get?_release, hid, ite_self]

end Heap

/-- The objects that a collection removes. -/
def State.garbage (s : State) : List ObjectId :=
  s.heap.objects.keys.filter fun id => !(s.heap.reachable s.roots).contains id

/-! ## Ledgers -/

/-- What has become of the foreign objects of a machine, by their numbers. -/
structure Ledger where
  /-- All that have been made, in this order. -/
  born : List ObjectId
  /-- Those that have left the heap and wait for their finalizers, the next one first. -/
  waiting : List (ObjectId × Dead)
  /-- Those whose finalizers are running, the last one first. -/
  begun : List (ObjectId × Block)
  /-- Those that have been finalized, the last one first. -/
  ended : List ObjectId

/-- Nothing has been made. -/
def Ledger.blank : Ledger := ⟨[], [], [], []⟩

/-- Work that neither makes a foreign object nor removes one, nor finalizes any. -/
structure Quiet (s t : State) : Prop extends Ages s t where
  swept : t.swept = s.swept
  finalizing : t.finalizing = s.finalizing
  foreign : s.heap.Numbered → ∀ id, (t.heap.foreign? id).isSome = (s.heap.foreign? id).isSome

namespace Quiet

variable {s t u : State}

theorem refl (s : State) : Quiet s s := ⟨.refl s, rfl, rfl, fun _ _ => rfl⟩

theorem trans (h : Quiet s t) (h' : Quiet t u) : Quiet s u :=
  ⟨h.toAges.trans h'.toAges, h'.swept.trans h.swept, h'.finalizing.trans h.finalizing,
    fun hn id => (h'.foreign (h.later.numbered hn) id).trans (h.foreign hn id)⟩

end Quiet

theorem Frame.quiet {s t : State} (h : Frame s t) (hages : Ages s t) : Quiet s t :=
  ⟨hages, h.swept, h.finalizing, fun hn id => congrArg Option.isSome ((h.heap hn).foreign id)⟩

/-- What a machine does, and what its ledger says of it. -/
inductive Turn : State × Ledger → State × Ledger → Prop where
  | quiet {s t : State} (h : Quiet s t) (l : Ledger) : Turn (s, l) (t, l)
  | bear {s : State} {index classIndex : Int} {owner : ObjectId} {x : Nat}
      (hc : s.foreignClass? classIndex = some owner) (hfresh : x ∉ s.heap.blockAddresses)
      (service : Nat) (l : Ledger) :
      Turn (s, l) ((s.newForeign index classIndex x).2.tagBlock x service,
        { l with born := l.born ++ [s.heap.lastId + 1] })
  | sweep (s : State) (l : Ledger) :
      Turn (s, l) (s.sweep.2, { l with waiting := s.heap.leaving s.garbage ++ l.waiting })
  | drain (s : State) (l : Ledger) :
      Turn (s, l)
        (s.drain.2, { l with waiting := s.heap.leaving s.heap.objects.keys ++ l.waiting })
  | beginFinalizer (s : State) (l : Ledger) {id : ObjectId} {d : Dead} {rest : List (ObjectId × Dead)}
      (h : l.waiting = (id, d) :: rest) :
      Turn (s, l) (s.beginFinalizer d, { l with waiting := rest, begun := (id, d.block) :: l.begun })
  | endFinalizer (s : State) (l : Ledger) {id : ObjectId} {block : Block}
      {rest : List (ObjectId × Block)} (h : l.begun = (id, block) :: rest) :
      Turn (s, l) (s.endFinalizer, { l with begun := rest, ended := id :: l.ended })

/-- Any number of turns. -/
abbrev Turns : State × Ledger → State × Ledger → Prop := Relation.ReflTransGen Turn

namespace Ledger

/-- A ledger is exact: each object that has been made stands in one place. -/
structure Fits (l : Ledger) (s : State) : Prop where
  numbered : s.heap.Numbered
  increasing : l.born.Pairwise (· < ·)
  given : ∀ id ∈ l.born, id ≤ s.heap.lastId
  places : (l.ended ++ l.begun.map Prod.fst ++ l.waiting.map Prod.fst ++ s.heap.foreignIds).Perm l.born
  swept : l.waiting.map Prod.snd = s.swept
  finalizing : l.begun.map Prod.snd = s.finalizing
  finalized : l.ended.length = s.finalized

variable {l l' : Ledger} {s t : State}

theorem fits_create (userData : Nat) : blank.Fits (.create userData) where
  numbered := by
    change ∀ id ∈ (State.create 0).heap.objects.keys, id ≤ (State.create 0).heap.lastId
    decide
  increasing := .nil
  given := fun _ hid => absurd hid List.not_mem_nil
  places := .refl _
  swept := rfl
  finalizing := rfl
  finalized := rfl

theorem Fits.nodup (h : l.Fits s) : l.born.Nodup := h.increasing.imp Nat.ne_of_lt

/-- **As many objects have been made as are on the heap, are waiting, or have been finalized.** -/
theorem Fits.length_born (h : l.Fits s) :
    l.born.length = s.heap.foreignCount + s.swept.length + s.finalizing.length + s.finalized := by
  have hlength := h.places.length_eq
  have hswept := congrArg List.length h.swept
  have hfinalizing := congrArg List.length h.finalizing
  have hfinalized := h.finalized
  simp only [List.length_append, List.length_map, Heap.length_foreignIds] at hlength hswept hfinalizing
  omega

theorem Fits.quiet (h : l.Fits s) (hq : Quiet s t) : l.Fits t where
  numbered := hq.later.numbered h.numbered
  increasing := h.increasing
  given id hid := Nat.le_trans (h.given id hid) hq.later.lastId
  places := (List.Perm.append_left _ (Heap.foreignIds_perm (hq.foreign h.numbered))).trans h.places
  swept := h.swept.trans hq.swept.symm
  finalizing := h.finalizing.trans hq.finalizing.symm
  finalized := h.finalized.trans hq.finalized.symm

/-- Objects leave the heap and wait. -/
theorem Fits.release (h : l.Fits s) {ids : List ObjectId} (hnodup : ids.Nodup)
    (hheap : t.heap = (s.heap.release ids).2) (hswept : t.swept = (s.heap.release ids).1 ++ s.swept)
    (hfinalizing : t.finalizing = s.finalizing) (hfinalized : t.finalized = s.finalized) :
    Fits { l with waiting := s.heap.leaving ids ++ l.waiting } t where
  numbered := by
    rw [hheap]
    exact Heap.numbered_release h.numbered ids
  increasing := h.increasing
  given := by
    rw [hheap]
    exact h.given
  places := by
    have hleave := Heap.leaving_perm (h := s.heap) hnodup
    rw [hheap]
    refine List.perm_iff_count.2 fun id => ?_
    have hold := h.places.count_eq id
    have hmoved := hleave.count_eq id
    simp only [List.map_append, List.count_append] at hold hmoved ⊢
    omega
  swept := by rw [List.map_append, Heap.snd_leaving, h.swept, hswept]
  finalizing := h.finalizing.trans hfinalizing.symm
  finalized := h.finalized.trans hfinalized.symm

/-- **A ledger stays exact.** -/
theorem Fits.turn {p q : State × Ledger} (h : p.2.Fits p.1) (hturn : Turn p q) : q.2.Fits q.1 := by
  cases hturn with
  | quiet hq l => exact h.quiet hq
  | @bear s index _ owner x hc hfresh service l =>
    obtain ⟨-, hswept, hfinalizing, hfinalized, hheap⟩ :=
      State.newForeign_tagged hc hfresh index service
    have hnew := Heap.foreignIds_alloc h.numbered owner ⟨x, some service⟩
    refine ⟨?_, ?_, ?_, ?_, h.swept.trans hswept.symm, h.finalizing.trans hfinalizing.symm,
      h.finalized.trans hfinalized.symm⟩
    · rw [hheap]
      exact h.numbered.alloc _
    · refine List.pairwise_append.2
        ⟨h.increasing, List.pairwise_singleton _ _, fun id hid id' hid' => ?_⟩
      rw [List.mem_singleton.1 hid']
      exact Nat.lt_succ_of_le (h.given id hid)
    · intro id hid
      rw [hheap]
      rcases List.mem_append.1 hid with hid | hid
      · exact Nat.le_succ_of_le (h.given id hid)
      · exact Nat.le_of_eq (List.mem_singleton.1 hid)
    · rw [hheap]
      refine List.perm_iff_count.2 fun id => ?_
      have hold := h.places.count_eq id
      have hborn := hnew.count_eq id
      simp only [List.count_append, List.count_cons, List.count_nil] at hold hborn ⊢
      omega
  | sweep s l => exact h.release (s.heap.objects.nodup_keys.filter _) rfl rfl rfl rfl
  | drain s l => exact h.release s.heap.objects.nodup_keys rfl rfl rfl rfl
  | beginFinalizer s l hwaiting =>
    have hswept := h.swept
    have hplaces := h.places
    rw [hwaiting, List.map_cons] at hswept hplaces
    refine ⟨h.numbered, h.increasing, h.given, ?_, congrArg List.tail hswept, ?_, h.finalized⟩
    · refine .trans (List.perm_iff_count.2 fun id => ?_) hplaces
      simp only [State.beginFinalizer, List.map_cons, List.count_append, List.count_cons]
      omega
    · exact congrArg (_ :: ·) h.finalizing
  | endFinalizer s l hbegun =>
    have hfinalizing := h.finalizing
    have hplaces := h.places
    rw [hbegun, List.map_cons] at hfinalizing hplaces
    refine ⟨h.numbered, h.increasing, h.given, ?_, h.swept, congrArg List.tail hfinalizing, ?_⟩
    · refine .trans (List.perm_iff_count.2 fun id => ?_) hplaces
      simp only [State.endFinalizer, List.count_append, List.count_cons]
      omega
    · exact congrArg (· + 1) h.finalized

theorem Fits.turns {p q : State × Ledger} (h : p.2.Fits p.1) (hturns : Turns p q) : q.2.Fits q.1 := by
  induction hturns with
  | refl => exact h
  | tail _ hturn ih => exact ih.turn hturn

/-- The ledger of a machine from its beginning. -/
def Records (l : Ledger) (s : State) : Prop := Turns (.create 0, blank) (s, l)

theorem Records.fits (h : l.Records s) : l.Fits s := (fits_create 0).turns h

end Ledger

/-! ### Numbers are not used again -/

theorem Turn.later {p q : State × Ledger} (h : Turn p q) : p.1.heap.Later q.1.heap := by
  cases h with
  | quiet hq l => exact hq.later
  | @bear s index _ owner x hc hfresh service l =>
    obtain ⟨-, -, -, -, hheap⟩ := State.newForeign_tagged hc hfresh index service
    rw [hheap]
    exact .alloc s.heap _
  | sweep s l => exact .release s.heap s.garbage
  | drain s l => exact .release s.heap s.heap.objects.keys
  | beginFinalizer | endFinalizer => exact .refl _

theorem Turn.born {p q : State × Ledger} (h : Turn p q) : p.2.born <+: q.2.born := by
  cases h with
  | bear => exact List.prefix_append _ _
  | _ => exact List.prefix_refl _

/-- **What comes later adds to what has been made**, under numbers that were not in use before. -/
theorem Turns.later {p q : State × Ledger} (h : Turns p q) :
    p.1.heap.Later q.1.heap ∧ p.2.born <+: q.2.born := by
  induction h with
  | refl => exact ⟨.refl _, List.prefix_refl _⟩
  | tail _ hturn ih => exact ⟨ih.1.trans hturn.later, ih.2.trans hturn.born⟩

/-! ### The end of a machine -/

/-- Finalizes objects one after the other, if their finalizers do nothing to the machine. -/
def State.bury (s : State) (dead : List Dead) : State :=
  dead.foldl (fun s d => (s.beginFinalizer d).endFinalizer) s

/-- Only what waits is finalized. -/
theorem State.bury_eq (dead : List Dead) : ∀ s : State, (s.bury dead).heap = s.heap ∧
    (s.bury dead).finalizing = s.finalizing ∧ (s.bury dead).swept = s.swept.drop dead.length := by
  induction dead with
  | nil => exact fun s => ⟨rfl, rfl, rfl⟩
  | cons d rest ih =>
    intro s
    obtain ⟨hheap, hfinalizing, hswept⟩ := ih (s.beginFinalizer d).endFinalizer
    refine ⟨hheap, hfinalizing, hswept.trans ?_⟩
    rw [List.length_cons, ← List.drop_tail]
    rfl

namespace Ledger

variable {l l' : Ledger} {s t : State}

theorem Fits.bury : ∀ (dead : List Dead) {s : State} {l : Ledger}, l.Fits s → s.swept = dead →
    ∃ l', Turns (s, l) (s.bury dead, l') ∧ l'.born = l.born
  | [], s, l, _, _ => ⟨l, .refl, rfl⟩
  | d :: rest, s, l, h, hdead => by
    have hswept := h.swept.trans hdead
    obtain ⟨⟨id, d'⟩, waiting, hwaiting, heq, -⟩ := List.map_eq_cons_iff.1 hswept
    obtain rfl : d' = d := heq
    have hbegin : Turn (s, l) _ := .beginFinalizer s l hwaiting
    have hend : Turn _ ((s.beginFinalizer d').endFinalizer, _) :=
      .endFinalizer (s.beginFinalizer d') { l with waiting, begun := (id, d'.block) :: l.begun } rfl
    have hrest : (s.beginFinalizer d').endFinalizer.swept = rest := congrArg List.tail hdead
    obtain ⟨l', hturns, hborn⟩ := Fits.bury rest ((h.turn hbegin).turn hend) hrest
    exact ⟨l', .head hbegin (.head hend hturns), hborn⟩

/-- **When a machine is emptied, every object that it has ever made has been finalized once.** -/
theorem Fits.emptied (h : l.Fits s) (hswept : s.swept = []) (hfinalizing : s.finalizing = []) :
    ∃ l', Turns (s, l) (s.drain.2.bury s.drain.1, l') ∧ l'.born = l.born ∧
      l'.ended.Perm l.born ∧ (s.drain.2.bury s.drain.1).finalized = l.born.length ∧
      (s.drain.2.bury s.drain.1).heap.objects = .empty := by
  have hdrain : Turn (s, l) _ := .drain s l
  have hwaits : s.drain.2.swept = s.drain.1 := by
    change s.drain.1 ++ s.swept = _
    rw [hswept, List.append_nil]
  obtain ⟨l', hturns, hborn⟩ := (h.turn hdrain).bury s.drain.1 hwaits
  obtain ⟨hheap, hfinalizing', hswept'⟩ := s.drain.2.bury_eq s.drain.1
  have hend : l'.Fits (s.drain.2.bury s.drain.1) := (h.turn hdrain).turns hturns
  have hobjects : (s.drain.2.bury s.drain.1).heap.objects = .empty := by
    rw [hheap]
    exact Heap.objects_drain s.heap
  -- nothing is left on the heap or waiting
  have hnone : (s.drain.2.bury s.drain.1).heap.foreignIds = [] := by
    rw [Heap.foreignIds, hobjects]
    rfl
  have hwaiting : l'.waiting = [] := by
    rw [← List.map_eq_nil_iff, hend.swept, hswept', hwaits, List.drop_length]
  have hbegun : l'.begun = [] := by
    rw [← List.map_eq_nil_iff, hend.finalizing, hfinalizing']
    exact hfinalizing
  have hplaces := hend.places
  rw [hnone, hwaiting, hbegun, List.map_nil, List.map_nil, List.append_nil, List.append_nil,
    List.append_nil] at hplaces
  rw [hborn] at hplaces
  exact ⟨l', .head hdrain hturns, hborn, hplaces, hend.finalized.symm.trans hplaces.length_eq, hobjects⟩

end Ledger

/-! ## Ledgers that go on -/

/-- Every exact ledger goes on from one state to the other. -/
def Evolves (s t : State) : Prop := ∀ l : Ledger, l.Fits s → ∃ l', Turns (s, l) (t, l')

namespace Evolves

variable {s t u : State}

theorem of_quiet (h : Quiet s t) : Evolves s t := fun l _ => ⟨l, .single (.quiet h l)⟩

theorem refl (s : State) : Evolves s s := fun l _ => ⟨l, .refl⟩

theorem trans (h : Evolves s t) (h' : Evolves t u) : Evolves s u := by
  intro l hl
  obtain ⟨l', hturns⟩ := h l hl
  obtain ⟨l'', hturns'⟩ := h' l' (hl.turns hturns)
  exact ⟨l'', hturns.trans hturns'⟩

theorem inner (h : Inner s t) : Evolves s t := .of_quiet (h.toFrame.quiet h.toAges)

/-- A machine with a ledger has one later on. -/
theorem records (h : Evolves s t) (hs : ∃ l : Ledger, l.Records s) : ∃ l : Ledger, l.Records t := by
  obtain ⟨l, hl⟩ := hs
  obtain ⟨l', hturns⟩ := h l hl.fits
  exact ⟨l', hl.trans hturns⟩

end Evolves

theorem balanced_evolves : Balanced Evolves Evolves Evolves where
  refl := .refl
  trans _ _ _ := .trans
  own h := .inner h.inner
  call {s t frame} h := ((Evolves.inner (s.inner_enterFrame frame)).trans h).trans
    (.inner t.inner_leaveFrame)
  pinning h := h
  transPinning _ _ _ := .trans
  pin s values := .inner (s.inner_pin (values ++ s.pins))
  unpin {s t} h := h.trans (.inner (t.inner_pin (t.unpinTo s.pins.length).pins))

end ScriptHost.Machine

namespace ScriptHost.Bridge

open Machine (State Steered Evolves Ledger Turn Turns Quiet)
open Run (Within)

variable {η α : Type} {vm : VmId} {a : Address} {active : List Address} {w w' t : World (Host η)}

/-! ## Work of hosts -/

/-- What a host does without bindings and payloads makes no foreign object. -/
theorem Deed.quiet [Observer η] {P : VmId → Prop} (h : Deed P .none w w') (a : Address) :
    Quiet (w.machine a) (w'.machine a) := by
  have hput : ∀ {b : Address} {m : State}, Quiet (w.machine b) m →
      Quiet (w.machine a) ((w.putMachine b m).machine a) := by
    intro b m hm
    rcases w.machine_putMachine b a m with ⟨hself, rfl⟩ | hother
    · rwa [hself]
    · rw [hother]
      exact .refl _
  cases h with
  | edit _ _ h => exact hput (h.frame.quiet h.ages)
  | adopt | release => exact hput ⟨.of_heap rfl rfl, rfl, rfl, fun _ _ => rfl⟩
  | bear _ hS _ _ => exact hS.elim
  | _ => exact .refl _

theorem Deeds.quiet [Observer η] {P : VmId → Prop} (h : Deeds P .none w w') (hs : Sound w)
    (a : Address) : Quiet (w.machine a) (w'.machine a) := by
  have hdeeds := h hs
  clear h
  induction hdeeds with
  | refl => exact .refl _
  | tail _ hlast ih => exact ih.trans (hlast.quiet a)

/-- **Ledgers go on through all work of a host.** -/
theorem Touch.evolves {q : Machine.Rights} {m m' : State} (h : Touch q m m') : Evolves m m' := by
  cases h with
  | nothing => exact .refl m
  | edit h => exact .of_quiet (h.frame.quiet h.ages)
  | storeHandle | releaseHandle => exact .of_quiet ⟨.of_heap rfl rfl, rfl, rfl, fun _ _ => rfl⟩
  | bear _ hc hfresh service => exact fun l _ => ⟨_, .single (.bear hc hfresh service l)⟩
  | sweep => exact fun l _ => ⟨_, .single (.sweep m l)⟩
  | beginFinalizer h =>
    intro l hl
    obtain ⟨⟨id, d⟩, rest, hwaiting, rfl, -⟩ := List.map_eq_cons_iff.1 (hl.swept.trans h)
    exact ⟨_, .single (.beginFinalizer m l hwaiting)⟩
  | endFinalizer h =>
    intro l hl
    obtain ⟨⟨id, block⟩, rest, hbegun, -, -⟩ := List.map_eq_cons_iff.1 (hl.finalizing.trans h)
    exact ⟨_, .single (.endFinalizer m l hbegun)⟩

theorem tends_evolves : Tends (fun m => ∃ l : Ledger, l.Records m) Evolves where
  refl := .refl
  trans _ _ _ := .trans
  touch h := ⟨h.evolves.records, h.evolves⟩
  create := ⟨.blank, .refl⟩

/-- The machine `vm` at `a` has a ledger, which goes on as long as it is alive. -/
abbrev Regime.recording (vm : VmId) (a : Address) : Regime η :=
  .about .free vm a (fun m => ∃ l : Ledger, l.Records m) Evolves

theorem upheld_recording [Observer η] (vm : VmId) (a : Address) :
    (Regime.recording vm a : Regime η).Upheld :=
  upheld_about tends_evolves Machine.balanced_evolves (fun h => (Evolves.inner h).records)
    fun m v => .inner (m.inner_setSlot 0 v)

/-! ## Runs of a machine -/

section

variable [Observer η] {d : Delegates (Host η)}

/-- No object of the machine waits for its finalizer, or is being finalized. -/
def Idle (m : State) : Prop := m.swept = [] ∧ m.finalizing = []

/-- A machine has a ledger from its beginning, by which as many foreign objects have been made as are
alive or have been finalized. -/
def Conserves (m : State) : Prop :=
  ∃ l : Ledger, l.Records m ∧ l.born.length = m.heap.foreignCount + m.finalized

theorem length_born_of_idle {m : State} {l : Ledger} (hl : l.Records m) (hm : Idle m) :
    l.born.length = m.heap.foreignCount + m.finalized := by
  have hlength := hl.fits.length_born
  rw [hm.1, hm.2] at hlength
  simpa using hlength

/-- Outside of collections, a machine runs where its foreign objects are accounted for. -/
theorem steered_conserving (ha : a ∈ active)
    (h : (Regime.recording vm a).Behaved active d) :
    Steered (fun r => (Working vm a active r ∧ ∃ l : Ledger, l.Records r.machine) ∧ Idle r.machine)
      (Passes active a) (Leaves vm a active fun m => ∃ l : Ledger, l.Records m)
      Evolves Evolves Evolves (callbacks d a) := by
  have p := steered_about tends_evolves Machine.balanced_evolves (fun h => (Evolves.inner h).records)
    ha h
  -- a machine that runs finds its swept objects as they were
  have hidle : ∀ {r t : Machine.Running (World (Host η))},
      (Working vm a active r ∧ ∃ l : Ledger, l.Records r.machine) → Passes active a r t →
        (Working vm a active t ∧ ∃ l : Ledger, l.Records t.machine) → Idle r.machine →
          Idle t.machine := by
    intro r t hr hpasses ht hidle
    have hheld := (hpasses hr.1.steady).2.2 a ha
    have hswept := hheld.swept
    have hfinalizing := hheld.finalizing
    rw [hr.1.machine, ht.1.machine] at hswept hfinalizing
    exact ⟨hswept.trans hidle.1, hfinalizing.trans hidle.2⟩
  exact p.along (P := fun r => Idle r.machine) (fun hr _ hl ht => hidle hr hl ht)
    (fun hr hl ht _ => hidle hr hl ht) fun hr hl ht _ => hidle hr hl ht

end

/-! ## Machines that are freed -/

/-- Finalizers leave a machine alone that was given up, so that it is emptied by itself. -/
theorem machine_of_each {F : Machine.Dead → World (Host η) → World (Host η) → Prop}
    {dead : List Machine.Dead}
    (h : Each (fun d w w' => F d w w' ∧ (a ∉ w.registered.keys → Alone a d w w')) dead w t)
    (hreg : a ∉ w.registered.keys) : t.machine a = (w.machine a).bury dead := by
  induction h with
  | nil w => rfl
  | cons h _ ih =>
    obtain ⟨hreg', hmachine⟩ := h.2 hreg
    rw [ih hreg', hmachine]
    rfl

section

variable [Observer η] {engines : List Address → Engine (Host η)}

/-- **The report of a machine that is freed counts all foreign objects that it has ever made**, each
of which has been finalized once. -/
theorem freed_of_shutdown
    (h : Regime.free.Finalizers (a :: active) (engines (a :: active)).delegates)
    (hw : Steady active w) (ha : a ∉ active) (hl : w.LiveAt vm a) {l : Ledger}
    (hfits : l.Fits (w.machine a))
    (hrun : (Vm.shutdown (engines (a :: active)) vm : Act (Host η) Unit) w = (.value (), w')) :
    w'.freeReport? = some ⟨0, l.born.length⟩ ∧
      ∃ m l', Turns (w.machine a, l) (m, l') ∧ l'.born = l.born ∧ l'.ended.Perm l.born ∧
        m.heap.objects = .empty := by
  obtain ⟨w₁, hsettled, hdeeds, hout⟩ :=
    Setting.settled_of_shutdown (P := fun _ => True) (S := .none) hw.sound trivial hl hrun
  have hquiet := hdeeds.quiet hw.sound a
  have hsettling : Deeds (fun _ => True) .all w w₁ := hdeeds.mono (fun _ => id) (Powers.none_le _)
  have hlays := Regime.lawful_free.lays_alone (upheld_free.sweeps trivial) h List.mem_cons_self
  obtain ⟨-, hemptied, hgoes⟩ := shutdown_ends Regime.lawful_free hlays ha trivial hw trivial hl
    hsettled hsettling hout hrun
  obtain ⟨t, heach, -, -, htold⟩ := hemptied.value rfl
  obtain ⟨-, -, -, n, hreport⟩ := hgoes rfl
  -- the machine that is emptied is the one whose handles were settled
  obtain ⟨-, hw₁, -⟩ := hsettling.calm.moves active hw
  have hl₁ : w₁.LiveAt vm a := ((hsettling.calm hw.sound).2.live vm a).2 hl
  have hn : a ∈ (w₁.retired vm a).natives.keys := hw₁.sound.roster.mem_natives hl₁
  have hreg : a ∉ (w₁.retired vm a).registered.keys :=
    fun hin => (Table.mem_keys_erase.1 hin).1 rfl
  have hmachine := machine_of_each heach hreg
  rw [World.machine_putMachine_self hn] at hmachine
  obtain ⟨hswept, hfinalizing⟩ := hw₁.quiet a ha
  obtain ⟨l', hturns, hborn, hended, hfinalized, hobjects⟩ :=
    (hfits.quiet hquiet).emptied hswept hfinalizing
  have hcount : (t.machine a).finalized = l.born.length := by
    rw [hmachine]
    exact hfinalized
  have hreport' := hreport.symm.trans htold
  simp only [Option.some.injEq, FreeReport.mk.injEq] at hreport'
  rw [htold, ← hreport'.1, hcount]
  exact ⟨rfl, _, l', .head (.quiet hquiet l) hturns, hborn, hended, hobjects⟩

end

/-! ## Hosts -/

/-- A host that makes two foreign objects of a class without a binder, drops one of them, and collects
garbage. -/
def Program.outlive : Program Unit Vm :=
  .ask .newService fun service =>
  .ask (.create service ⟨none, none, none, none⟩) fun vm =>
  .ask (.interpret vm.id "main" "foreign class F \x7b\x7d") fun _ =>
  .ask (.access (.ensureSlots vm.id 3)) fun _ =>
  .ask (.access (.getVariable vm.id "main" "F" ⟨vm.id, 0⟩)) fun _ =>
  .ask (.setNewForeignStruct ⟨vm.id, 1⟩ ⟨vm.id, 0⟩ ⟨.word, (7 : UInt32)⟩) fun _ =>
  .ask (.setNewForeignStruct ⟨vm.id, 2⟩ ⟨vm.id, 0⟩ ⟨.word, (8 : UInt32)⟩) fun _ =>
  .ask (.access (.setNull ⟨vm.id, 1⟩)) fun _ =>
  .ask (.collectGarbage vm.id) fun _ => .done vm

namespace Setting

variable [Observer η] (s : Setting η)

/-- What is true of the foreign objects of a machine, in a world of rest in which it is alive. -/
structure ObjectsAccounted (depth : Nat) (active : List Address) (w : World (Host η)) (vm : VmId)
    (a : Address) (l : Ledger) : Prop where
  /-- A machine that does not run collects nothing. -/
  rest : a ∉ active → l.born.length = (w.machine a).heap.foreignCount + (w.machine a).finalized
  /-- Programs go on with the ledger. -/
  program : ∀ (α : Type) (p : Program η α) outcome w',
    p.run (s.code.engines s.importDepth depth) active w = (outcome, w') → outcome.isFinal = false →
      w'.LiveAt vm a → ∃ l', Turns (w.machine a, l) (w'.machine a, l')
  /-- Outside of collections, runs call their host only where all objects are accounted for. -/
  callbacks : a ∈ active → Idle (w.machine a) → ∀ cb',
    Machine.Agree (fun r => Working vm a active r ∧ Conserves r.machine) cb'
      (callbacks (s.code.engines s.importDepth depth active).delegates a) →
    let cb := callbacks (s.code.engines s.importDepth depth active).delegates a
    let r : Machine.Running (World (Host η)) := ⟨w.machine a, w⟩
    (∀ nesting module source,
      Machine.interpret cb' nesting module source r = Machine.interpret cb nesting module source r) ∧
    ∀ handle, Machine.callHandle cb' handle r = Machine.callHandle cb handle r
  /-- A machine is freed when its owner disposes of it, or drops it. -/
  freed : a ∉ active → ∀ op : Operation η Unit,
    op = .dispose ⟨vm, true⟩ ∨ op = .drop ⟨vm, true⟩ →
      ∀ w', op.run (s.code.engines s.importDepth depth) active w = (.value (), w') →
        w'.freeReport? = some ⟨0, l.born.length⟩ ∧
          ∃ m l', Turns (w.machine a, l) (m, l') ∧ l'.born = l.born ∧ l'.ended.Perm l.born ∧
            m.heap.objects = .empty

variable {s}

theorem objectsAccounted_of_records {depth : Nat} (hw : Steady active w) (hl : w.LiveAt vm a)
    {l : Ledger} (hrecords : l.Records (w.machine a)) : s.ObjectsAccounted depth active w vm a l := by
  have k : (Regime.recording vm a : Regime η).Upheld := upheld_recording vm a
  have hserves := serves_engines k s.code.obeys_free s.importDepth depth
  have hlive : (world a ⟨w.machine a, w⟩) = w := world_machine a w
  refine ⟨fun ha => length_born_of_idle hrecords (hw.quiet a ha), ?_, ?_, ?_⟩
  · intro α p outcome w' hrun hend hl'
    have hwithin : Within ((Regime.recording vm a).Moves active) ((Regime.recording vm a).Reaches active)
        (p.run (s.code.engines s.importDepth depth) active) w :=
      within_program k.toSustained hserves p p.obeys_free w
    rw [Within, hrun] at hwithin
    obtain ⟨-, -, -, hrel⟩ := hwithin.2 hend hw fun _ => ⟨l, hrecords⟩
    exact (hrel (hw.sound.roster.known vm (World.mem_vms_of_isAlive hl.1)) hl').2 l hrecords.fits
  · intro ha hidle cb' hagree cb r
    have p := steered_conserving ha (hserves.behaved active)
    have hok : (Working vm a active r ∧ ∃ l : Ledger, l.Records r.machine) ∧ Idle r.machine := by
      refine ⟨⟨⟨?_, ?_⟩, l, hrecords⟩, hidle⟩
      · rwa [hlive]
      · rwa [hlive]
    have hconserves : ∀ r : Machine.Running (World (Host η)),
        (Working vm a active r ∧ ∃ l : Ledger, l.Records r.machine) ∧ Idle r.machine →
          Working vm a active r ∧ Conserves r.machine := by
      rintro r ⟨⟨hworking, l, hrecords⟩, hidle⟩
      exact ⟨hworking, l, hrecords, length_born_of_idle hrecords hidle⟩
    have hagree' := hagree.mono hconserves
    exact ⟨Machine.interpret_of_agree p hagree' hok, Machine.callHandle_of_agree p hagree' hok⟩
  · intro ha op hop w' hrun
    rw [run_disposal _ hop hl] at hrun
    exact freed_of_shutdown (s.finalizers_free depth (a :: active)) hw ha hl hrecords.fits hrun

variable (s)

/-- **Foreign objects are conserved.**  Wherever a host stops, and it may stop in a callback or a
finalizer as well, each of its machines has a ledger that is exact.  It counts all the objects that
were made, by different numbers, and a machine that goes on keeps them.  Between operations none of
them is waiting, and the report of a machine that is freed counts all of them, once each. -/
theorem objects_conserved :
    (∀ (α : Type) (p : Program η α) vm a, (s.run p).2.LiveAt vm a →
      ∃ l : Ledger, l.Records ((s.run p).2.machine a)) ∧
    (∀ (α : Type) (p : Program η α), (s.run p).1.isFinal = false → Steady [] (s.run p).2) ∧
    (∀ (m : State) (l : Ledger), l.Records m →
      l.born.Nodup ∧
      l.born.length = m.heap.foreignCount + m.swept.length + m.finalizing.length + m.finalized ∧
      ∀ m' l', Turns (m, l) (m', l') → l.born <+: l'.born ∧ m.heap.Later m'.heap) ∧
    ∀ depth active w vm a l, Steady active w → w.LiveAt vm a → l.Records (w.machine a) →
      s.ObjectsAccounted depth active w vm a l := by
  refine ⟨fun α p vm a hl => ?_, fun α p hend => s.steady_run p hend, fun m l hrecords => ?_,
    fun depth active w vm a l hw hl hrecords => objectsAccounted_of_records hw hl hrecords⟩
  · have k : (Regime.recording vm a : Regime η).Upheld := upheld_recording vm a
    have hserves := serves_engines k s.code.obeys_free s.importDepth s.depth
    obtain ⟨-, hends⟩ := (within_program k.toSustained hserves p p.obeys_free s.start).1
      s.steady_start fun hlive => absurd hlive.1 Bool.false_ne_true
    exact hends hl
  · exact ⟨hrecords.fits.nodup, hrecords.fits.length_born, fun m' l' h => ⟨h.later.2, h.later.1⟩⟩

/-- The world of the object that is left. -/
def outlived : World (Host Unit) := (silent.run .outlive).2

theorem outlived_eq :
    ((silent.run .outlive).1.isFinal, (outlived.vm 1).isAlive, (outlived.vm 1).address,
      (outlived.machine 2).heap.foreignCount, (outlived.machine 2).finalized, outlived.host.handles) =
        (false, true, 2, 1, 1, []) := by
  cbv

theorem dispose_outlived :
    ((.ask (.dispose ⟨1, true⟩) fun _ => .done () : Program Unit Unit).run silent.engines []
      outlived).1.isFinal = false := by
  cbv

/-- Two objects have been made, one of which is left.  The report counts both. -/
theorem objects_conserved_outlived :
    outlived.LiveAt 1 2 ∧ Steady [] outlived ∧ ∃ l : Ledger, l.Records (outlived.machine 2) ∧
      l.born.length = 2 ∧ (outlived.machine 2).heap.foreignCount = 1 ∧
      (outlived.machine 2).finalized = 1 ∧
      ((Operation.dispose ⟨1, true⟩).run silent.engines [] outlived).2.freeReport? = some ⟨0, 2⟩ := by
  have hend : (silent.run .outlive).1.isFinal = false := congrArg (·.1) outlived_eq
  have hlive : outlived.LiveAt 1 2 := ⟨congrArg (·.2.1) outlived_eq, congrArg (·.2.2.1) outlived_eq⟩
  have hcount : (outlived.machine 2).heap.foreignCount = 1 := congrArg (·.2.2.2.1) outlived_eq
  have hfinalized : (outlived.machine 2).finalized = 1 := congrArg (·.2.2.2.2.1) outlived_eq
  obtain ⟨hreached, hsettles, -, haccounted⟩ := silent.objects_conserved
  have hsteady : Steady [] outlived := hsettles Vm .outlive hend
  obtain ⟨l, hl⟩ := hreached Vm .outlive 1 2 hlive
  have h := haccounted silent.depth [] outlived 1 2 l hsteady hlive hl
  have hborn : l.born.length = 2 := by rw [h.rest List.not_mem_nil, hcount, hfinalized]
  obtain ⟨⟨⟩, w', hrun⟩ := Program.value_of_ask dispose_outlived
  rw [World.watch_eq_self (congrArg (·.2.2.2.2.2) outlived_eq)] at hrun
  obtain ⟨hreport, -⟩ := h.freed List.not_mem_nil _ (Or.inl rfl) w' hrun
  rw [hborn] at hreport
  rw [hrun]
  exact ⟨hlive, hsteady, l, hl, hborn, hcount, hfinalized, hreport⟩

end Setting

end ScriptHost.Bridge
