import Mathlib.Data.List.Nodup
import ScriptHost.Proofs.Sweep

/-!
# The data blocks of a machine

The data block of a foreign object is on the heap with the object, or the object was swept and the
block waits for its finalizer.  `Carries` makes no difference between the two, so that a collection
and the end of a machine carry on what was there, and only `beginFinalizer` lets go of a block.

`Tidy` says that nothing is there twice.  Then letting go of the next swept object takes its address
away, and nothing else.
-/

namespace ScriptHost.Machine

namespace Heap

variable {h h' : Heap}

/-- What remains of an object is its data block with the finalizer of its class. -/
theorem remains?_eq (h : Heap) (id : ObjectId) :
    h.remains? id = (h.foreign? id).map fun x => ⟨x.2, h.finalizer? x.1⟩ := by
  unfold remains? foreign?
  cases h.get? id with
  | none => rfl
  | some o =>
    cases o with
    | foreign owner block => rfl
    | _ => rfl

/-- A heap on which every foreign object has a class. -/
def Owned (h : Heap) : Prop :=
  ∀ id owner block, h.foreign? id = some (owner, block) → (h.class? owner).isSome = true

/-- The finalizer stays with the class. -/
theorem finalizer?_of_class {owner : ObjectId} (ho : (h.class? owner).isSome = true)
    (hc : ∀ c, h.class? owner = some c → h'.class? owner = some c) :
    h'.finalizer? owner = h.finalizer? owner := by
  obtain ⟨c, hclass⟩ := Option.isSome_iff_exists.1 ho
  rw [finalizer?, finalizer?, hclass, hc c hclass]

theorem isSome_class?_of {owner : ObjectId} (ho : (h.class? owner).isSome = true)
    (hc : ∀ c, h.class? owner = some c → h'.class? owner = some c) :
    (h'.class? owner).isSome = true := by
  obtain ⟨c, hclass⟩ := Option.isSome_iff_exists.1 ho
  rw [hc c hclass]
  rfl

theorem Extends.remains? (he : h.Extends h') (ho : h.Owned) (id : ObjectId) :
    h'.remains? id = h.remains? id := by
  rw [remains?_eq, remains?_eq, he.foreign]
  cases hf : h.foreign? id with
  | none => rfl
  | some x =>
    have hclass := ho id x.1 x.2 hf
    simp [finalizer?_of_class hclass (he.classes x.1)]

theorem Extends.owned (he : h.Extends h') (ho : h.Owned) : h'.Owned := by
  intro id owner block hf
  rw [he.foreign] at hf
  exact isSome_class?_of (ho id owner block hf) (he.classes owner)

/-- What is left after a loss was there before. -/
theorem Loses.remains? {dead : List Dead} (hl : h.Loses h' dead) (ho : h.Owned) {id : ObjectId}
    {d : Dead} (hd : h'.remains? id = some d) : h.remains? id = some d := by
  rw [remains?_eq, Option.map_eq_some_iff] at hd
  obtain ⟨⟨owner, block⟩, hf, rfl⟩ := hd
  have hclass := ho id owner block (hl.kept id _ hf)
  rw [remains?_eq, hl.kept id _ hf, Option.map_some,
    finalizer?_of_class hclass fun c => hl.classes id owner block c hf]

theorem Loses.owned {dead : List Dead} (hl : h.Loses h' dead) (ho : h.Owned) : h'.Owned := by
  intro id owner block hf
  have hclass := ho id owner block (hl.kept id _ hf)
  exact isSome_class?_of hclass fun c => hl.classes id owner block c hf

end Heap

namespace State

/-- A data block is on the heap, or waits for its finalizer. -/
def Carries (m : State) (d : Dead) : Prop := (∃ id, m.heap.remains? id = some d) ∨ d ∈ m.swept

/-- No data block is there twice, and every one has its class. -/
structure Tidy (m : State) : Prop where
  numbered : m.heap.Numbered
  owned : m.heap.Owned
  distinct : m.heap.Distinct
  waiting : ∀ id d, m.heap.remains? id = some d → ∀ d' ∈ m.swept,
    d.block.address ≠ d'.block.address
  swept : m.swept.Pairwise fun d d' => d.block.address ≠ d'.block.address

variable {m m' : State}

/-- What is on the heap is carried. -/
theorem carries_of_foreign? {id owner : ObjectId} {block : Block}
    (h : m.heap.foreign? id = some (owner, block)) :
    m.Carries ⟨block, m.heap.finalizer? owner⟩ :=
  Or.inl ⟨id, Heap.remains?_eq_some.2 ⟨owner, h, rfl⟩⟩

/-- A data block that is carried is in memory. -/
theorem Carries.mem_blockAddresses {d : Dead} (h : m.Carries d) :
    d.block.address ∈ m.blockAddresses := by
  refine List.mem_append_left _ ?_
  rcases h with ⟨id, hid⟩ | hswept
  · refine List.mem_append_left _ (List.mem_filterMap.2 ?_)
    rw [Heap.remains?_eq_some] at hid
    obtain ⟨owner, hf, -⟩ := hid
    unfold Heap.foreign? at hf
    split at hf
    · next owner' block hget =>
      cases hf
      exact ⟨_, Table.mem_values_of_find? hget, rfl⟩
    · exact absurd hf (by simp)
  · exact List.mem_append_right _ (List.mem_map.2 ⟨d, hswept, rfl⟩)

/-- At one address there is one data block. -/
theorem Tidy.eq_of_address (t : m.Tidy) {d d' : Dead} (hd : m.Carries d) (hd' : m.Carries d')
    (h : d.block.address = d'.block.address) : d = d' := by
  rcases hd with ⟨id, hid⟩ | hswept
  · rcases hd' with ⟨id', hid'⟩ | hswept'
    · obtain rfl := t.distinct id id' d d' hid hid' h
      exact Option.some.inj (hid.symm.trans hid')
    · exact absurd h (t.waiting id d hid d' hswept')
  · rcases hd' with ⟨id', hid'⟩ | hswept'
    · exact absurd h.symm (t.waiting id' d' hid' d hswept)
    · have hnodup : (m.swept.map fun d => d.block.address).Nodup := List.pairwise_map.2 t.swept
      exact List.inj_on_of_nodup_map hnodup hswept hswept' h

/-! ## Blank machines -/

theorem foreign?_create (n : Nat) (id : ObjectId) : (create n).heap.foreign? id = none := by
  have hn : Heap.empty.Numbered := by
    intro id hid
    exact absurd hid (by simp [Heap.empty, Table.keys, Table.empty])
  have hfirst := Heap.Extends.alloc hn (o := .classDef (coreClass systemName)) rfl
  have hsecond := Heap.Extends.alloc hfirst.numbered (o := .classDef (coreClass fiberName)) rfl
  exact (hsecond.foreign id).trans ((hfirst.foreign id).trans rfl)

theorem numbered_create (n : Nat) : (create n).heap.Numbered := by
  have hn : Heap.empty.Numbered := by
    intro id hid
    exact absurd hid (by simp [Heap.empty, Table.keys, Table.empty])
  exact (hn.alloc (.classDef (coreClass systemName))).alloc (.classDef (coreClass fiberName))

theorem not_carries_create (n : Nat) (d : Dead) : ¬ (create n).Carries d := by
  rintro (⟨id, hid⟩ | hswept)
  · rw [Heap.remains?_eq, foreign?_create] at hid
    exact absurd hid (by simp)
  · exact absurd hswept List.not_mem_nil

theorem tidy_create (n : Nat) : (create n).Tidy := by
  refine ⟨numbered_create n, ?_, ?_, ?_, List.Pairwise.nil⟩
  · intro id owner block hf
    rw [foreign?_create] at hf
    exact absurd hf (by simp)
  · intro id id' d d' hd
    exact absurd (Or.inl ⟨id, hd⟩) (not_carries_create n d)
  · intro id d hd
    exact absurd (Or.inl ⟨id, hd⟩) (not_carries_create n d)

/-- A machine without objects carries nothing. -/
theorem not_carries_of_empty (hheap : m.heap.objects = .empty) (hswept : m.swept = [])
    (d : Dead) : ¬ m.Carries d := by
  rintro (⟨id, hid⟩ | hd)
  · have hnone : m.heap.get? id = none := by
      rw [Heap.get?, hheap]
      rfl
    simp [Heap.remains?, hnone] at hid
  · rw [hswept] at hd
    exact absurd hd List.not_mem_nil

/-! ## Work -/

theorem Tidy.congr (t : m.Tidy) (hheap : m'.heap = m.heap) (hswept : m'.swept = m.swept) :
    m'.Tidy := by
  refine ⟨?_, ?_, ?_, ?_, ?_⟩
  · rw [hheap]
    exact t.numbered
  · rw [hheap]
    exact t.owned
  · rw [hheap]
    exact t.distinct
  · rw [hheap, hswept]
    exact t.waiting
  · rw [hswept]
    exact t.swept

theorem carries_congr (hheap : m'.heap = m.heap) (hswept : m'.swept = m.swept) (d : Dead) :
    m'.Carries d ↔ m.Carries d := by
  rw [Carries, Carries, hheap, hswept]

theorem Tidy.frame (t : m.Tidy) (hf : Frame m m') : m'.Tidy := by
  have he := hf.heap t.numbered
  have hremains := he.remains? t.owned
  refine ⟨he.numbered, he.owned t.owned, ?_, ?_, ?_⟩
  · intro id id' d d'
    rw [hremains, hremains]
    exact t.distinct id id' d d'
  · intro id d
    rw [hremains, hf.swept]
    exact t.waiting id d
  · rw [hf.swept]
    exact t.swept

/-- A machine that works carries what it did. -/
theorem Tidy.carries_frame (t : m.Tidy) (hf : Frame m m') (d : Dead) :
    m'.Carries d ↔ m.Carries d := by
  have hremains := (hf.heap t.numbered).remains? t.owned
  simp only [Carries, hremains, hf.swept]

/-! ## Births -/

section

variable {owner : ObjectId} {block : Block}

/-- The objects after a birth: the new one, and those that were there. -/
theorem Tidy.remains?_birth (t : m.Tidy) (hb : Birth m m' owner block)
    (hc : (m.heap.class? owner).isSome = true) : ∃ new, m.heap.remains? new = none ∧
      m'.heap.remains? new = some ⟨block, m.heap.finalizer? owner⟩ ∧
      ∀ id, id ≠ new → m'.heap.remains? id = m.heap.remains? id := by
  obtain ⟨-, ⟨new, hnone, hnew, hold⟩, hclasses⟩ := hb.heap t.numbered
  refine ⟨new, ?_, ?_, ?_⟩
  · rw [Heap.remains?_eq, Heap.foreign?_of_none hnone]
    rfl
  · rw [Heap.remains?_eq, hnew, Option.map_some, Heap.finalizer?_of_class hc (hclasses owner)]
  · intro id hid
    rw [Heap.remains?_eq, Heap.remains?_eq, hold id hid]
    cases hf : m.heap.foreign? id with
    | none => rfl
    | some x =>
      have hclass := t.owned id x.1 x.2 hf
      simp [Heap.finalizer?_of_class hclass (hclasses x.1)]

/-- A new data block is carried beside those that were there. -/
theorem Tidy.carries_birth (t : m.Tidy) (hb : Birth m m' owner block)
    (hc : (m.heap.class? owner).isSome = true) (d : Dead) :
    m'.Carries d ↔ d = ⟨block, m.heap.finalizer? owner⟩ ∨ m.Carries d := by
  obtain ⟨new, hnone, hnew, hold⟩ := t.remains?_birth hb hc
  rw [Carries, Carries, hb.swept]
  constructor
  · rintro (⟨id, hid⟩ | hswept)
    · by_cases h : id = new
      · rw [h, hnew] at hid
        exact Or.inl (Option.some.inj hid).symm
      · rw [hold id h] at hid
        exact Or.inr (Or.inl ⟨id, hid⟩)
    · exact Or.inr (Or.inr hswept)
  · rintro (rfl | ⟨id, hid⟩ | hswept)
    · exact Or.inl ⟨new, hnew⟩
    · have h : id ≠ new := by
        rintro rfl
        exact absurd (hnone.symm.trans hid) (by simp)
      exact Or.inl ⟨id, (hold id h).trans hid⟩
    · exact Or.inr hswept

theorem Tidy.birth (t : m.Tidy) (hb : Birth m m' owner block)
    (hc : (m.heap.class? owner).isSome = true)
    (hfresh : ∀ d, m.Carries d → d.block.address ≠ block.address) : m'.Tidy := by
  obtain ⟨new, -, hnew, hold⟩ := t.remains?_birth hb hc
  obtain ⟨hnumbered, ⟨id₀, hnone, hborn, hothers⟩, hclasses⟩ := hb.heap t.numbered
  refine ⟨hnumbered, ?_, ?_, ?_, ?_⟩
  · intro id owner' block' hf
    by_cases h : id = id₀
    · rw [h, hborn] at hf
      obtain ⟨rfl, rfl⟩ := Prod.mk.inj (Option.some.inj hf)
      exact Heap.isSome_class?_of hc (hclasses _)
    · rw [hothers id h] at hf
      exact Heap.isSome_class?_of (t.owned id owner' block' hf) (hclasses owner')
  · intro id id' d d' hid hid' haddress
    by_cases h : id = new
    · by_cases h' : id' = new
      · rw [h, h']
      · rw [h, hnew] at hid
        rw [hold id' h'] at hid'
        cases hid
        exact absurd haddress.symm (hfresh d' (Or.inl ⟨id', hid'⟩))
    · rw [hold id h] at hid
      by_cases h' : id' = new
      · rw [h', hnew] at hid'
        cases hid'
        exact absurd haddress (hfresh d (Or.inl ⟨id, hid⟩))
      · rw [hold id' h'] at hid'
        exact t.distinct id id' d d' hid hid' haddress
  · intro id d hid d' hd'
    rw [hb.swept] at hd'
    by_cases h : id = new
    · rw [h, hnew] at hid
      cases hid
      exact fun haddress => hfresh d' (Or.inr hd') haddress.symm
    · rw [hold id h] at hid
      exact t.waiting id d hid d' hd'
  · rw [hb.swept]
    exact t.swept

end

/-! ## Collections -/

section

variable {dead : List Dead}

theorem Tidy.loses (t : m.Tidy) (hl : m.heap.Loses m'.heap dead)
    (hswept : m'.swept = dead ++ m.swept) : m'.Tidy := by
  have hon : ∀ d ∈ dead, ∃ id, m.heap.remains? id = some d ∧ m'.heap.foreign? id = none := by
    intro d hd
    obtain ⟨id, owner, hf, hnone, hfinalizer⟩ := hl.dead d hd
    exact ⟨id, Heap.remains?_eq_some.2 ⟨owner, hf, hfinalizer⟩, hnone⟩
  refine ⟨hl.numbered t.numbered, hl.owned t.owned, ?_, ?_, ?_⟩
  · intro id id' d d' hid hid'
    exact t.distinct id id' d d' (hl.remains? t.owned hid) (hl.remains? t.owned hid')
  · intro id d hid d' hd' haddress
    have hbefore := hl.remains? t.owned hid
    rw [hswept] at hd'
    rcases List.mem_append.1 hd' with hd' | hd'
    · obtain ⟨id', hid', hnone⟩ := hon d' hd'
      have heq : id = id' := t.distinct id id' d d' hbefore hid' haddress
      rw [heq, Heap.remains?_eq, hnone] at hid
      exact absurd hid (by simp)
    · exact t.waiting id d hbefore d' hd' haddress
  · rw [hswept]
    refine List.pairwise_append.2 ⟨hl.distinct t.distinct, t.swept, ?_⟩
    intro d hd d' hd'
    obtain ⟨id, hid, -⟩ := hon d hd
    exact t.waiting id d hid d' hd'

/-- What leaves the heap is still carried. -/
theorem Tidy.carries_loses (t : m.Tidy) (hl : m.heap.Loses m'.heap dead)
    (hswept : m'.swept = dead ++ m.swept) (d : Dead) : m'.Carries d ↔ m.Carries d := by
  rw [Carries, Carries, hswept]
  constructor
  · rintro (⟨id, hid⟩ | hd)
    · exact Or.inl ⟨id, hl.remains? t.owned hid⟩
    · rcases List.mem_append.1 hd with hd | hd
      · obtain ⟨id, owner, hf, -, hfinalizer⟩ := hl.dead d hd
        exact Or.inl ⟨id, Heap.remains?_eq_some.2 ⟨owner, hf, hfinalizer⟩⟩
      · exact Or.inr hd
  · rintro (⟨id, hid⟩ | hd)
    · rw [Heap.remains?_eq, Option.map_eq_some_iff] at hid
      obtain ⟨⟨owner, block⟩, hf, rfl⟩ := hid
      rcases hl.lost id owner block hf with hkept | hdead
      · have hclass := t.owned id owner block hf
        refine Or.inl ⟨id, ?_⟩
        rw [Heap.remains?_eq, hkept, Option.map_some,
          Heap.finalizer?_of_class hclass fun c => hl.classes id owner block c hkept]
      · exact Or.inr (List.mem_append_left _ hdead)
    · exact Or.inr (List.mem_append_right _ hd)

end

/-! ## Finalizers -/

section

variable {d : Dead} {rest : List Dead}

theorem Tidy.beginFinalizer (t : m.Tidy) (h : m.swept = d :: rest) :
    (m.beginFinalizer d).Tidy := by
  have htail : (m.beginFinalizer d).swept = rest := by simp [State.beginFinalizer, h]
  refine ⟨t.numbered, t.owned, t.distinct, ?_, ?_⟩
  · intro id d' hid d'' hd''
    rw [htail] at hd''
    refine t.waiting id d' hid d'' ?_
    rw [h]
    exact List.mem_cons_of_mem d hd''
  · have hall := t.swept
    rw [h, List.pairwise_cons] at hall
    rw [htail]
    exact hall.2

/-- A machine lets go of the block that is finalized, and of no other. -/
theorem Tidy.carries_beginFinalizer (t : m.Tidy) (h : m.swept = d :: rest) (d' : Dead) :
    (m.beginFinalizer d).Carries d' ↔
      m.Carries d' ∧ d'.block.address ≠ d.block.address := by
  have htail : (m.beginFinalizer d).swept = rest := by simp [State.beginFinalizer, h]
  have hhead : d ∈ m.swept := by
    rw [h]
    exact List.mem_cons_self
  have hall := t.swept
  rw [h, List.pairwise_cons] at hall
  rw [Carries, Carries, htail, h]
  constructor
  · rintro (⟨id, hid⟩ | hd')
    · exact ⟨Or.inl ⟨id, hid⟩, t.waiting id d' hid d hhead⟩
    · exact ⟨Or.inr (List.mem_cons_of_mem d hd'), (hall.1 d' hd').symm⟩
  · rintro ⟨⟨id, hid⟩ | hd', hne⟩
    · exact Or.inl ⟨id, hid⟩
    · rcases List.mem_cons.1 hd' with rfl | hd'
      · exact absurd rfl hne
      · exact Or.inr hd'

end

end State

end ScriptHost.Machine
