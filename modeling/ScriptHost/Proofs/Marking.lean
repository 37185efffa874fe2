import ScriptHost.Machine.Sweep
import Mathlib.Logic.Relation

/-!
# Marking

Marking settles one pending number at a time, in no particular order: a number that is marked is
dropped, and any other is marked while its references become pending (`MarkStep`).  It does not matter
whether there is an object with that number, and an object may refer to itself.

A step always lowers `Marking.cost` by one, the pending numbers together with the references of the
objects that are not marked (`MarkStep.cost`).  So every marking ends, after a number of steps that is
known in advance, and the steps that `markFrom` is allowed suffice for its own order
(`marks_markFrom`).  In whatever order, what is marked at the end is what can be reached
(`Marks.mem_iff`).
-/

namespace ScriptHost.Machine

namespace Heap

open Relation (ReflTransGen)

variable {h : Heap} {roots : List ObjectId} {id : ObjectId}

/-- An object refers to a number. -/
def Refers (h : Heap) (x y : ObjectId) : Prop := y ∈ h.references x

/-- A number can be reached from one of the roots through references. -/
def ReachedFrom (h : Heap) (roots : List ObjectId) (id : ObjectId) : Prop :=
  ∃ root ∈ roots, ReflTransGen h.Refers root id

theorem ReachedFrom.root (hid : id ∈ roots) : h.ReachedFrom roots id := ⟨id, hid, .refl⟩

theorem ReachedFrom.step {r : ObjectId} (hid : h.ReachedFrom roots id) (hr : r ∈ h.references id) :
    h.ReachedFrom roots r := by
  obtain ⟨root, hroot, hpath⟩ := hid
  exact ⟨root, hroot, hpath.tail hr⟩

/-! ## The number of references that can still come -/

/-- The number of references of those objects of a list that are not marked. -/
def weightIn (marked : List ObjectId) : List (ObjectId × Object) → Nat
  | [] => 0
  | e :: rest => (if e.1 ∈ marked then 0 else e.2.references.length) + weightIn marked rest

/-- The number of references of the objects that are not marked. -/
def weight (h : Heap) (marked : List ObjectId) : Nat := weightIn marked h.objects.entries

theorem foldl_references (l : List (ObjectId × Object)) (n : Nat) :
    (l.map Prod.snd).foldl (fun n o => n + o.references.length) n = n + weightIn [] l := by
  induction l generalizing n with
  | nil => rfl
  | cons e rest ih =>
    simp only [List.map_cons, List.foldl_cons, ih, weightIn, List.not_mem_nil, if_false]
    omega

/-- Before anything is marked, all references count. -/
theorem weight_nil (h : Heap) : h.weight [] = h.referenceCount := by
  rw [referenceCount, Table.values, foldl_references, weight, Nat.zero_add]

theorem weightIn_cons {marked : List ObjectId} (hid : id ∉ marked) :
    ∀ {l : List (ObjectId × Object)}, (l.map Prod.fst).Nodup →
      weightIn (id :: marked) l +
          ((Table.findIn id l).elim 0 fun o => o.references.length) = weightIn marked l := by
  intro l
  induction l with
  | nil =>
    intro _
    rfl
  | cons e rest ih =>
    intro hnodup
    rw [List.map_cons, List.nodup_cons] at hnodup
    have hrest := ih hnodup.2
    rw [weightIn, weightIn, Table.findIn]
    by_cases he : e.1 = id
    · -- the object is counted here, and not among the rest
      have hnone : Table.findIn id rest = none := by
        rw [Table.findIn_eq_none_iff, ← he]
        exact hnodup.1
      rw [hnone] at hrest
      simp only [Option.elim] at hrest ⊢
      simp only [he, List.mem_cons_self, if_true, if_neg hid]
      omega
    · simp only [List.mem_cons, he, false_or, if_false]
      omega

/-- Marking an object takes its references out of the count. -/
theorem weight_cons {marked : List ObjectId} (hid : id ∉ marked) :
    h.weight (id :: marked) + (h.references id).length = h.weight marked := by
  have hsum := weightIn_cons hid h.objects.nodup_keys
  have hrefs : (h.references id).length =
      (Table.findIn id h.objects.entries).elim 0 fun o => o.references.length := by
    rw [references, get?, Table.find?]
    cases Table.findIn id h.objects.entries with
    | none => rfl
    | some o => rfl
  rw [hrefs]
  exact hsum

/-! ## The steps of a marking -/

/-- How far a marking is. -/
structure Marking where
  marked : List ObjectId
  pending : List ObjectId

/-- Before the first step the roots are pending. -/
def Marking.start (roots : List ObjectId) : Marking := ⟨[], roots⟩

/-- One step of a marking.  Any of the pending numbers may be the one that is settled. -/
inductive MarkStep (h : Heap) (s : Marking) : Marking → Prop
  /-- The number is marked already. -/
  | skip {pending : List ObjectId} (id : ObjectId) (hpending : s.pending.Perm (id :: pending))
      (hmarked : id ∈ s.marked) : MarkStep h s ⟨s.marked, pending⟩
  /-- The number is marked, and what its object refers to becomes pending. -/
  | mark {pending pending' : List ObjectId} (id : ObjectId)
      (hpending : s.pending.Perm (id :: pending)) (hmarked : id ∉ s.marked)
      (hpending' : pending'.Perm (h.references id ++ pending)) :
      MarkStep h s ⟨id :: s.marked, pending'⟩

/-- A marking from the roots, as far as it has come. -/
def Marks (h : Heap) (roots : List ObjectId) (s : Marking) : Prop :=
  ReflTransGen h.MarkStep (.start roots) s

/-- The number of steps that a marking can still take. -/
def Marking.cost (s : Marking) (h : Heap) : Nat := s.pending.length + h.weight s.marked

variable {s s' : Marking}

/-- **Each step takes one from the cost.** -/
theorem MarkStep.cost (hstep : h.MarkStep s s') : s'.cost h + 1 = s.cost h := by
  cases hstep with
  | skip id hpending _ =>
    have hlength := hpending.length_eq
    rw [List.length_cons] at hlength
    simp only [Marking.cost]
    omega
  | mark id hpending hmarked hpending' =>
    have hlength := hpending.length_eq
    have hlength' := hpending'.length_eq
    have hweight := weight_cons (h := h) hmarked
    rw [List.length_cons] at hlength
    rw [List.length_append] at hlength'
    simp only [Marking.cost]
    omega

/-- No marking goes on forever. -/
theorem markStep_wellFounded (h : Heap) : WellFounded fun s' s => h.MarkStep s s' := by
  refine Subrelation.wf (r := InvImage (· < ·) fun s => Marking.cost s h) ?_
    (InvImage.wf _ Nat.lt_wfRel.wf)
  intro s' s hstep
  exact Nat.lt_of_succ_le (Nat.le_of_eq hstep.cost)

/-- A marking ends only when nothing is pending. -/
theorem exists_markStep (h : Heap) (hs : s.pending ≠ []) : ∃ s', h.MarkStep s s' := by
  obtain ⟨marked, pending⟩ := s
  cases pending with
  | nil => exact absurd rfl hs
  | cons id pending =>
    by_cases hid : id ∈ marked
    · exact ⟨_, .skip id (.refl _) hid⟩
    · exact ⟨_, .mark id (.refl _) hid (.refl _)⟩

/-! ## What is marked -/

/-- What holds of a marking at every time. -/
structure Settles (h : Heap) (roots : List ObjectId) (s : Marking) : Prop where
  marked : ∀ id ∈ s.marked, h.ReachedFrom roots id
  pending : ∀ id ∈ s.pending, h.ReachedFrom roots id
  roots : ∀ id ∈ roots, id ∈ s.marked ∨ id ∈ s.pending
  closed : ∀ id ∈ s.marked, ∀ r ∈ h.references id, r ∈ s.marked ∨ r ∈ s.pending

theorem Settles.start (h : Heap) (roots : List ObjectId) : h.Settles roots (.start roots) where
  marked _ hid := absurd hid List.not_mem_nil
  pending _ hid := .root hid
  roots _ hid := .inr hid
  closed _ hid := absurd hid List.not_mem_nil

/-- Every step keeps what holds of a marking. -/
theorem Settles.step (hs : h.Settles roots s) (hstep : h.MarkStep s s') : h.Settles roots s' := by
  cases hstep with
  | @skip pending id hpending hmarked =>
    -- what was pending is marked, or still pending
    have hstill : ∀ x, x ∈ s.marked ∨ x ∈ s.pending → x ∈ s.marked ∨ x ∈ pending := by
      rintro x (hx | hx)
      · exact .inl hx
      · rcases List.mem_cons.1 (hpending.mem_iff.1 hx) with rfl | hx
        · exact .inl hmarked
        · exact .inr hx
    exact ⟨hs.marked, fun x hx => hs.pending x (hpending.mem_iff.2 (List.mem_cons_of_mem _ hx)),
      fun x hx => hstill x (hs.roots x hx), fun x hx r hr => hstill r (hs.closed x hx r hr)⟩
  | @mark pending pending' id hpending hmarked hpending' =>
    have hreached : h.ReachedFrom roots id := hs.pending id (hpending.mem_iff.2 List.mem_cons_self)
    have hstill : ∀ x, x ∈ s.marked ∨ x ∈ s.pending → x ∈ id :: s.marked ∨ x ∈ pending' := by
      rintro x (hx | hx)
      · exact .inl (List.mem_cons_of_mem _ hx)
      · rcases List.mem_cons.1 (hpending.mem_iff.1 hx) with rfl | hx
        · exact .inl List.mem_cons_self
        · exact .inr (hpending'.mem_iff.2 (List.mem_append_right _ hx))
    refine ⟨fun x hx => ?_, fun x hx => ?_, fun x hx => hstill x (hs.roots x hx),
      fun x hx r hr => ?_⟩
    · rcases List.mem_cons.1 hx with rfl | hx
      · exact hreached
      · exact hs.marked x hx
    · rcases List.mem_append.1 (hpending'.mem_iff.1 hx) with hx | hx
      · exact hreached.step hx
      · exact hs.pending x (hpending.mem_iff.2 (List.mem_cons_of_mem _ hx))
    · rcases List.mem_cons.1 hx with rfl | hx
      · exact .inr (hpending'.mem_iff.2 (List.mem_append_left _ hr))
      · exact hstill r (hs.closed x hx r hr)

theorem Marks.settles (hs : h.Marks roots s) : h.Settles roots s := by
  induction hs with
  | refl => exact .start h roots
  | tail _ hstep ih => exact ih.step hstep

/-- **What is marked when nothing is pending is what can be reached**, whatever the order was. -/
theorem Marks.mem_iff (hs : h.Marks roots s) (hend : s.pending = []) :
    id ∈ s.marked ↔ h.ReachedFrom roots id := by
  have hsettles := hs.settles
  have hmarked : ∀ x, x ∈ s.marked ∨ x ∈ s.pending → x ∈ s.marked := by
    rintro x (hx | hx)
    · exact hx
    · rw [hend] at hx
      exact absurd hx List.not_mem_nil
  constructor
  · exact hsettles.marked id
  · rintro ⟨root, hroot, hpath⟩
    induction hpath with
    | refl => exact hmarked root (hsettles.roots root hroot)
    | tail _ hlast ih => exact hmarked _ (hsettles.closed _ ih _ hlast)

/-! ## The order of the library -/

/-- Marking with enough steps allowed leaves nothing pending. -/
theorem steps_markFrom (h : Heap) : ∀ (fuel : Nat) (marked pending : List ObjectId),
    Marking.cost ⟨marked, pending⟩ h ≤ fuel →
      ReflTransGen h.MarkStep ⟨marked, pending⟩ ⟨h.markFrom fuel marked pending, []⟩ := by
  intro fuel
  induction fuel with
  | zero =>
    intro marked pending hcost
    have hnil : pending = [] := List.length_eq_zero_iff.1 (by simp only [Marking.cost] at hcost; omega)
    subst hnil
    rw [markFrom]
  | succ fuel ih =>
    intro marked pending hcost
    cases pending with
    | nil => rw [markFrom]
    | cons id pending =>
      by_cases hid : id ∈ marked
      · have hstep : h.MarkStep ⟨marked, id :: pending⟩ ⟨marked, pending⟩ :=
          .skip id (.refl _) hid
        have hless := hstep.cost
        rw [markFrom, if_pos (List.contains_iff_mem.2 hid)]
        exact .head hstep (ih marked pending (by omega))
      · have hstep : h.MarkStep ⟨marked, id :: pending⟩
            ⟨id :: marked, h.references id ++ pending⟩ := .mark id (.refl _) hid (.refl _)
        have hless := hstep.cost
        rw [markFrom, if_neg (by simpa using hid)]
        exact .head hstep (ih (id :: marked) (h.references id ++ pending) (by omega))

/-- The roots and the references bound the number of steps. -/
theorem cost_start (h : Heap) (roots : List ObjectId) :
    (Marking.start roots).cost h = roots.length + h.referenceCount :=
  congrArg _ (weight_nil h)

/-- What the library marks is the end of a marking. -/
theorem marks_reachable (h : Heap) (roots : List ObjectId) :
    h.Marks roots ⟨h.reachable roots, []⟩ :=
  steps_markFrom h _ [] roots (Nat.le_of_eq (cost_start h roots))

/-- **The library marks what can be reached.** -/
theorem mem_reachable : id ∈ h.reachable roots ↔ h.ReachedFrom roots id :=
  (marks_reachable h roots).mem_iff rfl

theorem mem_reachable_of_root (hid : id ∈ roots) : id ∈ h.reachable roots :=
  mem_reachable.2 (.root hid)

/-- What a reachable object refers to is reachable. -/
theorem closed_reachable (hid : id ∈ h.reachable roots) {r : ObjectId}
    (hr : r ∈ h.references id) : r ∈ h.reachable roots :=
  mem_reachable.2 ((mem_reachable.1 hid).step hr)

end Heap

end ScriptHost.Machine
