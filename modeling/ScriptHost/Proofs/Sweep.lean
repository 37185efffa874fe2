import Mathlib.Data.List.Forall2
import ScriptHost.Proofs.Frame
import ScriptHost.Proofs.Marking

/-!
# What a collection removes

What is marked is closed under references, so that an object that stays on the heap keeps its class.
A collection leaves what can be reached as it was and hands the other foreign objects back in the order
of their numbers (`collect_exact`).

What a collection and the end of a machine have in common is said by `Loses`: some foreign objects
leave the heap, each once and with the finalizer that its class had.
-/

namespace ScriptHost.Machine

namespace Heap

variable {h h' : Heap} {ids roots : List ObjectId} {id : ObjectId}

/-! ## Removing objects -/

theorem find?_foldl_erase (id : ObjectId) :
    ∀ (l : List ObjectId) (t : Table ObjectId Object),
      (l.foldl (fun t id => t.erase id) t).find? id = if id ∈ l then none else t.find? id := by
  intro l
  induction l with
  | nil => simp
  | cons first rest ih =>
    intro t
    rw [List.foldl_cons, ih]
    by_cases hrest : id ∈ rest
    · simp [hrest]
    · by_cases hfirst : id = first
      · simp [hfirst]
      · simp [hrest, hfirst, Table.find?_erase_ne]

theorem get?_release (h : Heap) (ids : List ObjectId) (id : ObjectId) :
    (h.release ids).2.get? id = if id ∈ ids then none else h.get? id := by
  have hfind := find?_foldl_erase id ids.mergeSort h.objects
  simp only [List.mem_mergeSort] at hfind
  exact hfind

theorem mem_release {d : Dead} :
    d ∈ (h.release ids).1 ↔ ∃ id ∈ ids, h.remains? id = some d := by
  simp [release, List.mem_filterMap, List.mem_mergeSort]

/-- The end of a machine leaves no object. -/
theorem objects_drain (h : Heap) : h.drain.2.objects = .empty := by
  have hnone : ∀ id, h.drain.2.objects.find? id = none := by
    intro id
    refine (get?_release h h.objects.keys id).trans ?_
    split
    · rfl
    · next hid => exact Table.find?_eq_none_iff.2 hid
  have hkeys : h.drain.2.objects.keys = [] := by
    refine List.eq_nil_iff_forall_not_mem.2 fun id => ?_
    exact Table.find?_eq_none_iff.1 (hnone id)
  exact Table.ext (List.map_eq_nil_iff.1 hkeys)

/-! ## What is left -/

theorem get?_collect (h : Heap) (roots : List ObjectId) (id : ObjectId) :
    (h.collect roots).2.get? id = if id ∈ h.reachable roots then h.get? id else none := by
  refine (get?_release h _ id).trans ?_
  by_cases hid : id ∈ h.reachable roots
  · simp [hid]
  · by_cases hk : id ∈ h.objects.keys
    · simp [hid, hk]
    · have hnone : h.get? id = none := Table.find?_eq_none_iff.2 hk
      simp [hid, hnone]

/-! ## Lost objects -/

/-- No two foreign objects have a data block at the same address. -/
def Distinct (h : Heap) : Prop := ∀ id id' d d', h.remains? id = some d → h.remains? id' = some d' →
  d.block.address = d'.block.address → id = id'

/-- Some foreign objects have left a heap, and each of the others has kept its class. -/
structure Loses (h h' : Heap) (dead : List Dead) : Prop where
  numbered : h.Numbered → h'.Numbered
  distinct : h.Distinct → dead.Pairwise fun d d' => d.block.address ≠ d'.block.address
  kept : ∀ id x, h'.foreign? id = some x → h.foreign? id = some x
  lost : ∀ id owner block, h.foreign? id = some (owner, block) →
    h'.foreign? id = some (owner, block) ∨ ⟨block, h.finalizer? owner⟩ ∈ dead
  dead : ∀ d ∈ dead, ∃ id owner, h.foreign? id = some (owner, d.block) ∧ h'.foreign? id = none ∧
    d.finalize? = h.finalizer? owner
  classes : ∀ id owner block c, h'.foreign? id = some (owner, block) → h.class? owner = some c →
    h'.class? owner = some c

theorem remains?_eq_some {d : Dead} : h.remains? id = some d ↔
    ∃ owner, h.foreign? id = some (owner, d.block) ∧ d.finalize? = h.finalizer? owner := by
  unfold remains? foreign?
  cases hid : h.get? id with
  | none => simp
  | some o =>
    cases o with
    | foreign owner block =>
      constructor
      · intro hd
        cases hd
        exact ⟨owner, rfl, rfl⟩
      · rintro ⟨owner', ho, hf⟩
        cases ho
        exact congrArg (fun key? => some (Dead.mk d.block key?)) hf.symm
    | _ => simp

theorem foreign?_of_get?_eq (hid : h'.get? id = h.get? id) : h'.foreign? id = h.foreign? id := by
  rw [foreign?, foreign?, hid]

theorem foreign?_of_none (hid : h.get? id = none) : h.foreign? id = none := by
  rw [foreign?, hid]

theorem references_of_foreign? {owner : ObjectId} {block : Block}
    (hid : h.foreign? id = some (owner, block)) : h.references id = [owner] := by
  unfold foreign? at hid
  split at hid
  · next owner' block' hget =>
    cases hid
    rw [references, hget]
    rfl
  · exact absurd hid (by simp)

theorem numbered_release (hn : h.Numbered) (ids : List ObjectId) : (h.release ids).2.Numbered := by
  intro id hid
  refine hn id ?_
  obtain ⟨o, ho⟩ := Table.exists_find?_of_mem hid
  have hget := get?_release h ids id
  rw [get?, ho] at hget
  split at hget
  · exact absurd hget (by simp)
  · exact Table.mem_keys_of_find? hget.symm

theorem pairwise_release (hd : h.Distinct) (hnodup : ids.Nodup) :
    (h.release ids).1.Pairwise fun d d' => d.block.address ≠ d'.block.address := by
  have hsorted : ids.mergeSort.Nodup := (List.mergeSort_perm ids _).nodup_iff.2 hnodup
  refine List.Pairwise.filterMap h.remains? ?_ hsorted
  intro id id' hne d hid d' hid' haddress
  exact hne (hd id id' d d' hid hid' haddress)

/-- Objects are removed together with all that refer to them. -/
theorem loses_release (hnodup : ids.Nodup)
    (hclosed : ∀ id, id ∉ ids → ∀ r ∈ h.references id, r ∉ ids) :
    h.Loses (h.release ids).2 (h.release ids).1 := by
  have hin : ∀ id, id ∈ ids → (h.release ids).2.foreign? id = none := by
    intro id hid
    exact foreign?_of_none (by rw [get?_release, if_pos hid])
  have hout : ∀ id, id ∉ ids → (h.release ids).2.foreign? id = h.foreign? id := by
    intro id hid
    exact foreign?_of_get?_eq (by rw [get?_release, if_neg hid])
  refine ⟨fun hn => numbered_release hn ids, fun hd => pairwise_release hd hnodup, ?_, ?_, ?_, ?_⟩
  · intro id x hx
    by_cases hid : id ∈ ids
    · rw [hin id hid] at hx
      exact absurd hx (by simp)
    · rwa [hout id hid] at hx
  · intro id owner block hx
    by_cases hid : id ∈ ids
    · exact Or.inr (mem_release.2 ⟨id, hid, remains?_eq_some.2 ⟨owner, hx, rfl⟩⟩)
    · exact Or.inl ((hout id hid).trans hx)
  · intro d hd
    obtain ⟨id, hid, hremains⟩ := mem_release.1 hd
    obtain ⟨owner, hx, hf⟩ := remains?_eq_some.1 hremains
    exact ⟨id, owner, hx, hin id hid, hf⟩
  · intro id owner block c hx hc
    by_cases hid : id ∈ ids
    · rw [hin id hid] at hx
      exact absurd hx (by simp)
    · rw [hout id hid] at hx
      have howner : owner ∉ ids := by
        refine hclosed id hid owner ?_
        rw [references_of_foreign? hx]
        exact List.mem_singleton_self owner
      rwa [class?, get?_release, if_neg howner]

/-- **A collection loses objects with the finalizers of their classes.** -/
theorem loses_collect (h : Heap) (roots : List ObjectId) :
    h.Loses (h.collect roots).2 (h.collect roots).1 := by
  refine loses_release (h.objects.nodup_keys.filter _) fun id hid r hr hin => ?_
  obtain ⟨-, hmarked⟩ := List.mem_filter.1 hin
  by_cases hk : id ∈ h.objects.keys
  · refine hid (List.mem_filter.2 ⟨hk, ?_⟩)
    by_cases hreach : id ∈ h.reachable roots
    · have hr' := closed_reachable hreach hr
      simp [hr'] at hmarked
    · simpa using hreach
  · have hnone : h.get? id = none := Table.find?_eq_none_iff.2 hk
    rw [references, hnone] at hr
    exact absurd hr List.not_mem_nil

theorem loses_drain (h : Heap) : h.Loses h.drain.2 h.drain.1 := by
  refine loses_release h.objects.nodup_keys fun id hid r hr => ?_
  have hnone : h.get? id = none := Table.find?_eq_none_iff.2 hid
  rw [references, hnone] at hr
  exact absurd hr List.not_mem_nil

/-! ## Collections -/

/-- What a collection has to make of a heap. -/
structure Collects (h : Heap) (roots : List ObjectId) (dead : List Dead) (h' : Heap) : Prop where
  /-- What can be reached stays as it was. -/
  kept : ∀ id, h.ReachedFrom roots id → h'.get? id = h.get? id
  /-- Everything else is removed. -/
  removed : ∀ id, ¬ h.ReachedFrom roots id → h'.get? id = none
  /-- Numbers are not used again. -/
  numbering : h'.lastId = h.lastId
  /-- The removed foreign objects come back once each, in the order of their numbers, with their data
  and the finalizers that their classes had on the heap as it was before. -/
  handed : ∃ ids : List ObjectId, ids.Pairwise (· < ·) ∧
    (∀ id, id ∈ ids ↔ (h.foreign? id).isSome ∧ ¬ h.ReachedFrom roots id) ∧
    List.Forall₂ (fun id d => ∃ owner, h.get? id = some (.foreign owner d.block) ∧
      d.finalize? = (h.class? owner).bind Class.finalize?) ids dead

theorem forall₂_filterMap {α β : Type} (f : α → Option β) : ∀ l : List α,
    List.Forall₂ (fun a b => f a = some b) (l.filter fun a => (f a).isSome) (l.filterMap f) := by
  intro l
  induction l with
  | nil => exact .nil
  | cons a l ih =>
    cases hf : f a with
    | none => simpa [hf] using ih
    | some b => simpa [hf] using ih

theorem get?_of_foreign? {owner : ObjectId} {block : Block}
    (hid : h.foreign? id = some (owner, block)) : h.get? id = some (.foreign owner block) := by
  unfold foreign? at hid
  split at hid
  · next hget =>
    cases hid
    exact hget
  · exact absurd hid (by simp)

theorem isSome_remains? : (h.remains? id).isSome = (h.foreign? id).isSome := by
  unfold remains? foreign?
  cases h.get? id with
  | none => rfl
  | some o => cases o <;> rfl

/-- Numbers without repetition are sorted strictly. -/
theorem pairwise_mergeSort_lt (hnodup : ids.Nodup) : ids.mergeSort.Pairwise (· < ·) := by
  have hle : ids.mergeSort.Pairwise fun a b => decide (a ≤ b) = true :=
    List.pairwise_mergeSort (by simpa using fun _ _ _ => Nat.le_trans)
      (by simpa using Nat.le_total) ids
  have hne : ids.mergeSort.Nodup := (List.mergeSort_perm ids _).nodup_iff.2 hnodup
  exact (hle.and hne).imp fun hab => Nat.lt_of_le_of_ne (of_decide_eq_true hab.1) hab.2

/-- What is removed comes back in the order of the numbers. -/
theorem forall₂_release (h : Heap) (ids : List ObjectId) :
    List.Forall₂ (fun id d => h.remains? id = some d)
      (ids.mergeSort.filter fun id => (h.remains? id).isSome) (h.release ids).1 :=
  forall₂_filterMap h.remains? _

theorem collects_collect (h : Heap) (roots : List ObjectId) :
    h.Collects roots (h.collect roots).1 (h.collect roots).2 where
  kept id hid := by rw [get?_collect, if_pos (mem_reachable.2 hid)]
  removed id hid := by rw [get?_collect, if_neg (mt mem_reachable.1 hid)]
  numbering := rfl
  handed := by
    have hnodup : (h.objects.keys.filter fun id => !(h.reachable roots).contains id).Nodup :=
      h.objects.nodup_keys.filter _
    refine ⟨_, (pairwise_mergeSort_lt hnodup).filter _, fun id => ?_,
      (forall₂_release h _).imp fun id d hid => ?_⟩
    · rw [List.mem_filter, List.mem_mergeSort, isSome_remains?, List.mem_filter]
      constructor
      · rintro ⟨⟨-, hmarked⟩, hforeign⟩
        refine ⟨hforeign, fun hreached => ?_⟩
        rw [List.contains_iff_mem.2 (mem_reachable.2 hreached)] at hmarked
        exact absurd hmarked (by simp)
      · rintro ⟨hforeign, hreached⟩
        obtain ⟨⟨owner, block⟩, hx⟩ := Option.isSome_iff_exists.1 hforeign
        refine ⟨⟨Table.mem_keys_of_find? (get?_of_foreign? hx), ?_⟩, hforeign⟩
        simpa using mt mem_reachable.1 hreached
    · obtain ⟨owner, hx, hf⟩ := remains?_eq_some.1 hid
      exact ⟨owner, get?_of_foreign? hx, hf⟩

/-- **A collection terminates and is exact.**  No marking goes on forever and none stops while a number
is pending, each marking that is complete has marked what can be reached, the marking of the library is
such a one, and the sweep behind it leaves what is marked and hands back the foreign objects that are
not. -/
theorem collect_exact (h : Heap) (roots : List ObjectId) :
    (WellFounded fun s' s => h.MarkStep s s') ∧
      (∀ s, h.Marks roots s → (s.pending = [] ∨ ∃ s', h.MarkStep s s')) ∧
      (∀ s, h.Marks roots s → s.pending = [] → ∀ id, id ∈ s.marked ↔ h.ReachedFrom roots id) ∧
      h.Marks roots ⟨h.reachable roots, []⟩ ∧
      h.Collects roots (h.collect roots).1 (h.collect roots).2 := by
  refine ⟨markStep_wellFounded h, fun s _ => ?_, fun s hs hend id => hs.mem_iff hend,
    marks_reachable h roots, collects_collect h roots⟩
  by_cases hs : s.pending = []
  · exact .inl hs
  · exact .inr (exists_markStep h hs)

/-- Two lists that contain each other, and a foreign object with its class. -/
def tangled : Heap :=
  ⟨(((Table.empty.insert 1 (.list [.object 2])).insert 2 (.list [.object 1, .object 1])).insert 3
    (.classDef ⟨"C", "main", true, [], .empty, .empty, none, some 7⟩)).insert 4
      (.foreign 3 ⟨16, none⟩), 4⟩

-- the lists stay for each other's sake, the class goes together with its instance, and there is no
-- object with the number of the second root
example : (tangled.collect [2, 9]).1 = [⟨⟨16, none⟩, some 7⟩] ∧
    (tangled.collect [2, 9]).2.objects.keys = [1, 2] := by
  cbv

end Heap

end ScriptHost.Machine
