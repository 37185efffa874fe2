import ScriptHost.Proofs.Registry
import Mathlib.Data.Finset.Card
import Mathlib.Data.List.Dedup

/-!
# Registrations at once

Any number of registrations may be under way at one registry, and their steps may meet in any order.
Each step is one of few changes of what the registry answers (`Passage`).  The state of all calls
together is kept `Orderly`: a key in the hands of a call is in no other hands, what is bound under it
is the binding of that call, and a binding is either the known one of its host function or in the
hands of the call that stored it.  So a call that finds another key known removes only what nobody
else has ever been told about (`Traffic.agrees_play`).
-/

namespace ScriptHost.Bridge

open Machine (Key)

/-- A call that registers a binding. -/
structure Registration where
  item : Item
  stage : Stage
  deriving DecidableEq, Repr

/-- A registry with all calls that have been made to it. -/
structure Traffic where
  registry : Bindings
  calls : List Registration

namespace Traffic

/-- No call to an empty registry. -/
def empty : Traffic := ⟨.empty, []⟩

/-- What may happen next. -/
inductive Move where
  /-- Somebody calls. -/
  | call (item : Item)
  /-- A call makes its next step. -/
  | step (i : Nat)
  deriving DecidableEq, Repr

/-- The state behind a move. -/
def move (t : Traffic) : Move → Traffic
  | .call item => { t with calls := t.calls ++ [⟨item, .search⟩] }
  | .step i =>
    match t.calls[i]? with
    | some c =>
      let (stage, registry) := c.item.step t.registry c.stage
      ⟨registry, t.calls.set i ⟨c.item, stage⟩⟩
    | none => t

/-- The state behind any number of moves. -/
def play (moves : List Move) (t : Traffic) : Traffic := moves.foldl move t

/-- The host functions of a kind that somebody has called to register. -/
def delegates (t : Traffic) (kind : Kind) : List Delegate :=
  (t.calls.filter fun c => c.item.kind = kind).map fun c => c.item.delegate

end Traffic

/-! ## The steps of a call -/

/-- The step of a registration, by the answers before and behind it. -/
inductive Passage (item : Item) (v : Directory) : Stage → Stage → Directory → Prop
  | found {k} : v.key? item.name = some k → Passage item v .search (.done k false) v
  | missed : v.key? item.name = none → Passage item v .search .mint v
  | minted : Passage item v .mint (.store v.nextKey) { v with nextKey := v.nextKey + 1 }
  | stored {k} : v.item? (item.kind, k) = none →
      Passage item v (.store k) (.publish k) (v.store item k)
  | published {k} : v.key? item.name = none →
      Passage item v (.publish k) (.done k true) (v.publish item k)
  | beaten {k l} : v.key? item.name = some l → Passage item v (.publish k) (.withdraw k) v
  | withdrawn {k} : Passage item v (.withdraw k) (.yieldTo k) (v.withdraw item.kind k)
  | yielded {k l} : v.key? item.name = some l → Passage item v (.yieldTo k) (.done l false) v
  | ended {k isNew} : Passage item v (.done k isNew) (.done k isNew) v

/-- **Every step is a passage**, provided that a key to store under is free and that a call that
gives way gives way to something. -/
theorem Item.passage_step (item : Item) (r : Bindings) {stage : Stage}
    (hfree : ∀ k, stage = .store k → r.item? (item.kind, k) = none)
    (hknown : ∀ k, stage = .yieldTo k → r.directory.key? item.name ≠ none) :
    ∃ stage' r', item.step r stage = (stage', r') ∧
      Passage item r.directory stage stage' r'.directory := by
  cases stage with
  | search =>
    cases h : r.directory.key? item.name with
    | none => exact ⟨_, _, by rw [step_search, h], .missed h⟩
    | some k => exact ⟨_, _, by rw [step_search, h], .found h⟩
  | mint => cases item <;> exact ⟨_, _, rfl, .minted⟩
  | store k =>
    obtain ⟨r', hstep, hr'⟩ := item.step_store r (hfree k rfl)
    exact ⟨_, r', hstep, hr' ▸ .stored (hfree k rfl)⟩
  | publish k =>
    cases h : r.directory.key? item.name with
    | none =>
      obtain ⟨r', hstep, hr'⟩ := item.step_publish_free r h
      exact ⟨_, r', hstep, hr' ▸ .published h⟩
    | some l => exact ⟨_, r, item.step_publish_known r h, .beaten h⟩
  | withdraw k =>
    obtain ⟨r', hstep, hr'⟩ := item.step_withdraw r
    exact ⟨_, r', hstep, hr' ▸ .withdrawn⟩
  | yieldTo k =>
    obtain ⟨l, h⟩ := Option.ne_none_iff_exists'.1 (hknown k rfl)
    exact ⟨_, r, by rw [step_yieldTo, h]; rfl, .yielded h⟩
  | done k isNew => cases item <;> exact ⟨_, _, rfl, .ended⟩

/-! ### What a passage can do -/

/-- The key that a call has taken and neither handed out nor given up. -/
def Stage.held? : Stage → Option Key
  | .store k | .publish k | .withdraw k | .yieldTo k => some k
  | _ => none

namespace Passage

variable {item b : Item} {v v' : Directory} {stage stage' : Stage} {kind : Kind} {k : Key}
  {name : Kind × Delegate}

theorem nextKey_le (h : Passage item v stage stage' v') : v.nextKey ≤ v'.nextKey := by
  cases h with
  | minted => exact Nat.le_succ _
  | _ => exact Nat.le_refl _

/-- A call holds the key that it held before, or the next one. -/
theorem held (h : Passage item v stage stage' v') (hk : stage'.held? = some k) :
    stage.held? = some k ∨ (k = v.nextKey ∧ v'.nextKey = v.nextKey + 1) := by
  cases h with
  | minted => exact .inr ⟨(Option.some.inj hk).symm, rfl⟩
  | _ => first | exact .inl hk | cases hk

/-- A known key stays known. -/
theorem key?_keeps (h : Passage item v stage stage' v') (hk : v.key? name = some k) :
    v'.key? name = some k := by
  cases h with
  | published hnone =>
    refine (Function.update_of_ne ?_ _ _).trans hk
    rintro rfl
    exact absurd (hnone.symm.trans hk) (by simp)
  | _ => exact hk

/-- A key becomes known only as the one of the binding that is registered. -/
theorem key?_new (h : Passage item v stage stage' v') (hk : v'.key? name = some k) :
    v.key? name = some k ∨ (name = item.name ∧ stage = .publish k ∧ v'.item? = v.item?) := by
  cases h with
  | @published l hnone =>
    rcases eq_or_ne name item.name with rfl | hne
    · refine .inr ⟨rfl, ?_, rfl⟩
      rw [← Option.some.inj ((v.publish_self item l).symm.trans hk)]
    · exact .inl ((Function.update_of_ne hne _ _).symm.trans hk)
  | _ => exact .inl hk

/-- Nothing is bound anew but the binding that is registered. -/
theorem item?_new (h : Passage item v stage stage' v') (hb : v'.item? (kind, k) = some b) :
    v.item? (kind, k) = some b ∨
      (b = item ∧ kind = item.kind ∧ stage = .store k ∧ stage' = .publish k) := by
  cases h with
  | @stored l _ =>
    rcases eq_or_ne (kind, k) (item.kind, l) with heq | hne
    · obtain ⟨rfl, rfl⟩ := Prod.mk.inj heq
      exact .inr ⟨Option.some.inj (hb.symm.trans (v.store_self item k)), rfl, rfl, rfl⟩
    · exact .inl ((Function.update_of_ne hne _ _).symm.trans hb)
  | @withdrawn l =>
    rcases eq_or_ne (kind, k) (item.kind, l) with heq | hne
    · rw [heq] at hb
      exact absurd ((v.withdraw_self l item.kind).symm.trans hb) (by simp)
    · exact .inl ((Function.update_of_ne hne _ _).symm.trans hb)
  | _ => exact .inl hb

/-- Nothing is removed but by the call that gives way. -/
theorem item?_keeps (h : Passage item v stage stage' v') (hb : v.item? (kind, k) = some b) :
    v'.item? (kind, k) = some b ∨ (kind = item.kind ∧ stage = .withdraw k) := by
  cases h with
  | @stored l hnone =>
    refine .inl ((Function.update_of_ne ?_ _ _).trans hb)
    intro heq
    rw [heq] at hb
    exact absurd (hnone.symm.trans hb) (by simp)
  | @withdrawn l =>
    rcases eq_or_ne (kind, k) (item.kind, l) with heq | hne
    · obtain ⟨rfl, rfl⟩ := Prod.mk.inj heq
      exact .inr ⟨rfl, rfl⟩
    · exact .inl ((Function.update_of_ne hne _ _).trans hb)
  | _ => exact .inl hb

end Passage

/-! ## Order among the calls -/

/-- What a call relies on. -/
def Registration.Fits (v : Directory) (c : Registration) : Prop :=
  match c.stage with
  | .store k => ∀ kind, v.item? (kind, k) = none
  | .publish k => v.item? (c.item.kind, k) = some c.item ∧ ∀ name, v.key? name ≠ some k
  | .withdraw k => v.item? (c.item.kind, k) = some c.item ∧ (∀ name, v.key? name ≠ some k) ∧
      v.key? c.item.name ≠ none
  | .yieldTo _ => v.key? c.item.name ≠ none
  | .done k _ => v.key? c.item.name = some k
  | _ => True

/-- The answers of the registry and the calls agree. -/
structure Orderly (v : Directory) (calls : List Registration) : Prop where
  /-- Every call finds what it relies on. -/
  fits {i : Nat} {c : Registration} : calls[i]? = some c → c.Fits v
  /-- No key is in two hands. -/
  alone {i j : Nat} {c d : Registration} {k : Key} : calls[i]? = some c → calls[j]? = some d →
    c.stage.held? = some k → d.stage.held? = some k → i = j
  /-- Whatever key is in use has been taken. -/
  held_lt {i : Nat} {c : Registration} {k : Key} : calls[i]? = some c → c.stage.held? = some k →
    k < v.nextKey
  bound_lt {kind : Kind} {k : Key} {b : Item} : v.item? (kind, k) = some b → k < v.nextKey
  /-- Nothing is bound but what somebody registers, in its compartment. -/
  origin {kind : Kind} {k : Key} {b : Item} : v.item? (kind, k) = some b →
    b.kind = kind ∧ ∃ (i : Nat) (stage : Stage), calls[i]? = some ⟨b, stage⟩
  /-- No key is bound twice. -/
  apart {kind kind' : Kind} {k : Key} {b b' : Item} : v.item? (kind, k) = some b →
    v.item? (kind', k) = some b' → kind = kind'
  /-- A known key is bound to a binding of the host function. -/
  known {name : Kind × Delegate} {k : Key} : v.key? name = some k →
    ∃ b, v.item? (name.1, k) = some b ∧ b.name = name
  /-- A binding is the known one, or in the hands of a call. -/
  owned {kind : Kind} {k : Key} {b : Item} : v.item? (kind, k) = some b → v.key? b.name = some k ∨
    ∃ (i : Nat) (stage : Stage), calls[i]? = some ⟨b, stage⟩ ∧
      (stage = .publish k ∨ stage = .withdraw k)

/-- The calls behind a step of one of them. -/
theorem getElem?_set_cases {calls : List Registration} {i j : Nat} {c new : Registration}
    (h : (calls.set i new)[j]? = some c) : (j = i ∧ c = new) ∨ (j ≠ i ∧ calls[j]? = some c) := by
  rcases eq_or_ne j i with rfl | hne
  · rw [List.getElem?_set_self'] at h
    obtain ⟨_, _, rfl⟩ := Option.map_eq_some_iff.1 h
    exact .inl ⟨rfl, rfl⟩
  · rw [List.getElem?_set_ne hne.symm] at h
    exact .inr ⟨hne, h⟩

namespace Orderly

variable {v v' : Directory} {calls : List Registration} {i j : Nat} {item : Item} {k : Key}
  {c : Registration} {stage stage' : Stage}

theorem item?_nextKey (h : Orderly v calls) (kind : Kind) : v.item? (kind, v.nextKey) = none := by
  cases hb : v.item? (kind, v.nextKey) with
  | none => rfl
  | some b => exact absurd (h.bound_lt hb) (Nat.lt_irrefl _)

/-- A key under which nothing is bound is not known. -/
theorem key?_ne_of_unbound (h : Orderly v calls) (hnone : ∀ kind, v.item? (kind, k) = none)
    (name : Kind × Delegate) : v.key? name ≠ some k := by
  intro hk
  obtain ⟨b, hb, -⟩ := h.known hk
  exact absurd ((hnone _).symm.trans hb) (by simp)

section Passage

variable (h : Orderly v calls) (hi : calls[i]? = some ⟨item, stage⟩)
  (hp : Passage item v stage stage' v')

include h hi hp

/-- The call that makes a step finds behind it what it relies on. -/
theorem fits_own : Registration.Fits v' ⟨item, stage'⟩ := by
  have hfits := h.fits hi
  cases hp with
  | found hk => exact hk
  | missed _ => trivial
  | minted => exact h.item?_nextKey
  | stored _ => exact ⟨v.store_self item _, h.key?_ne_of_unbound hfits⟩
  | published _ => exact v.publish_self item _
  | beaten hk => exact ⟨hfits.1, hfits.2, by simp [hk]⟩
  | withdrawn => exact hfits.2.2
  | yielded hk => exact hk
  | ended => exact hfits

/-- A step takes nothing from another call: the keys that it changes anything about are in the hands
of the call that makes it. -/
theorem fits_other (hj : calls[j]? = some c) (hne : j ≠ i) : c.Fits v' := by
  have hfits := h.fits hj
  have hmine : ∀ {l}, stage.held? = some l → c.stage.held? ≠ some l :=
    fun hl hc => hne (h.alone hj hi hc hl)
  have hknown : ∀ {name}, v.key? name ≠ none → v'.key? name ≠ none := by
    intro name hname
    obtain ⟨k, hk⟩ := Option.ne_none_iff_exists'.1 hname
    simp [hp.key?_keeps hk]
  have hbound : ∀ {l kind b}, c.stage.held? = some l → v.item? (kind, l) = some b →
      v'.item? (kind, l) = some b := by
    intro l kind b hl hb
    rcases hp.item?_keeps hb with hb | ⟨-, rfl⟩
    · exact hb
    · exact absurd hl (hmine rfl)
  have hunknown : ∀ {l}, c.stage.held? = some l → (∀ name, v.key? name ≠ some l) →
      ∀ name, v'.key? name ≠ some l := by
    intro l hl hall name hname
    rcases hp.key?_new hname with hname | ⟨-, rfl, -⟩
    · exact hall name hname
    · exact absurd hl (hmine rfl)
  obtain ⟨_, reached⟩ := c
  cases reached with
  | search => trivial
  | mint => trivial
  | store l =>
    intro kind
    cases hb : v'.item? (kind, l) with
    | none => rfl
    | some b =>
      rcases hp.item?_new hb with hb | ⟨-, -, rfl, -⟩
      · exact absurd ((hfits kind).symm.trans hb) (by simp)
      · exact absurd rfl (hmine rfl)
  | publish l => exact ⟨hbound rfl hfits.1, hunknown rfl hfits.2⟩
  | withdraw l => exact ⟨hbound rfl hfits.1, hunknown rfl hfits.2.1, hknown hfits.2.2⟩
  | yieldTo l => exact hknown hfits
  | done l isNew => exact hp.key?_keeps hfits

/-- **A step of a call keeps the order.** -/
theorem passage : Orderly v' (calls.set i ⟨item, stage'⟩) := by
  have hself : (calls.set i ⟨item, stage'⟩)[i]? = some ⟨item, stage'⟩ := by
    rw [List.getElem?_set_self', hi]
    rfl
  have hother : ∀ {j c}, j ≠ i → calls[j]? = some c → (calls.set i ⟨item, stage'⟩)[j]? = some c :=
    fun hne hj => (List.getElem?_set_ne hne.symm).trans hj
  -- the keys that other calls hold are not the one that the call takes
  have hfresh : ∀ {j c k}, j ≠ i → calls[j]? = some c → c.stage.held? = some k →
      stage'.held? ≠ some k := by
    intro j c k hne hj hc hk
    rcases hp.held hk with hk | ⟨rfl, -⟩
    · exact hne (h.alone hj hi hc hk)
    · exact absurd (h.held_lt hj hc) (Nat.lt_irrefl _)
  constructor
  case fits =>
    intro j c hj
    rcases getElem?_set_cases hj with ⟨rfl, rfl⟩ | ⟨hne, hj⟩
    · exact h.fits_own hi hp
    · exact h.fits_other hi hp hj hne
  case alone =>
    intro j l c d k hj hl hc hd
    rcases getElem?_set_cases hj with ⟨rfl, rfl⟩ | ⟨hne, hjold⟩ <;>
      rcases getElem?_set_cases hl with ⟨rfl, rfl⟩ | ⟨hne', hlold⟩
    · rfl
    · exact absurd hc (hfresh hne' hlold hd)
    · exact absurd hd (hfresh hne hjold hc)
    · exact h.alone hjold hlold hc hd
  case held_lt =>
    intro j c k hj hc
    rcases getElem?_set_cases hj with ⟨rfl, rfl⟩ | ⟨hne, hj⟩
    · rcases hp.held hc with hk | ⟨rfl, hnext⟩
      · exact Nat.lt_of_lt_of_le (h.held_lt hi hk) hp.nextKey_le
      · exact hnext ▸ Nat.lt_succ_self _
    · exact Nat.lt_of_lt_of_le (h.held_lt hj hc) hp.nextKey_le
  case bound_lt =>
    intro kind k b hb
    refine Nat.lt_of_lt_of_le ?_ hp.nextKey_le
    rcases hp.item?_new hb with hb | ⟨-, -, rfl, -⟩
    · exact h.bound_lt hb
    · exact h.held_lt hi rfl
  case origin =>
    intro kind k b hb
    rcases hp.item?_new hb with hb | ⟨rfl, rfl, -, -⟩
    · obtain ⟨hkind, j, reached, hj⟩ := h.origin hb
      refine ⟨hkind, ?_⟩
      rcases eq_or_ne j i with rfl | hne
      · obtain ⟨rfl, -⟩ := Registration.mk.inj (Option.some.inj (hj.symm.trans hi))
        exact ⟨j, _, hself⟩
      · exact ⟨j, _, hother hne hj⟩
    · exact ⟨rfl, i, _, hself⟩
  case apart =>
    intro kind kind' k b b' hb hb'
    rcases hp.item?_new hb with hb | ⟨-, rfl, rfl, -⟩ <;>
      rcases hp.item?_new hb' with hb' | ⟨-, rfl, hstore, -⟩
    · exact h.apart hb hb'
    · subst hstore
      exact absurd ((h.fits hi kind).symm.trans hb) (by simp)
    · exact absurd ((h.fits hi kind').symm.trans hb') (by simp)
    · rfl
  case known =>
    intro name k hname
    rcases hp.key?_new hname with hname | ⟨rfl, rfl, hitems⟩
    · obtain ⟨b, hb, hbname⟩ := h.known hname
      rcases hp.item?_keeps hb with hb | ⟨-, rfl⟩
      · exact ⟨b, hb, hbname⟩
      · exact absurd hname ((h.fits hi).2.1 _)
    · exact ⟨item, hitems ▸ (h.fits hi).1, rfl⟩
  case owned =>
    intro kind k b hb
    rcases hp.item?_new hb with hold | ⟨rfl, rfl, -, rfl⟩
    · rcases h.owned hold with hname | ⟨j, reached, hj, hreached⟩
      · exact .inl (hp.key?_keeps hname)
      · rcases eq_or_ne j i with rfl | hne
        · obtain ⟨rfl, rfl⟩ := Registration.mk.inj (Option.some.inj (hj.symm.trans hi))
          obtain ⟨rfl, -⟩ := h.origin hold
          rcases hreached with rfl | rfl
          · cases hp with
            | published _ => exact .inl (v.publish_self b k)
            | beaten _ => exact .inr ⟨j, _, hself, .inr rfl⟩
          · cases hp
            exact absurd ((v.withdraw_self k b.kind).symm.trans hb) (by simp)
        · exact .inr ⟨j, reached, hother hne hj, hreached⟩
    · exact .inr ⟨i, _, hself, .inl rfl⟩

end Passage

/-- A new call has nothing in its hands. -/
theorem call (h : Orderly v calls) (item : Item) : Orderly v (calls ++ [⟨item, .search⟩]) := by
  have hat : ∀ {j : Nat} {c : Registration}, (calls ++ [⟨item, .search⟩])[j]? = some c →
      calls[j]? = some c ∨ c = ⟨item, .search⟩ := by
    intro j c hj
    rw [List.getElem?_append] at hj
    split at hj
    · exact .inl hj
    · exact .inr (List.mem_singleton.1 (List.mem_of_getElem? hj))
  have hold : ∀ {j : Nat} {c : Registration}, calls[j]? = some c →
      (calls ++ [⟨item, .search⟩])[j]? = some c := by
    intro j c hj
    rw [List.getElem?_append_left (List.getElem?_eq_some_iff.1 hj).1]
    exact hj
  have hheld : ∀ {j : Nat} {c : Registration} {k : Key},
      (calls ++ [⟨item, .search⟩])[j]? = some c → c.stage.held? = some k → calls[j]? = some c := by
    intro j c k hj hc
    rcases hat hj with hj | rfl
    · exact hj
    · cases hc
  exact {
    fits := fun hj => (hat hj).elim h.fits fun hnew => hnew ▸ trivial
    alone := fun hj hl hc hd => h.alone (hheld hj hc) (hheld hl hd) hc hd
    held_lt := fun hj hc => h.held_lt (hheld hj hc) hc
    bound_lt := h.bound_lt
    origin := fun hb => ⟨(h.origin hb).1, (h.origin hb).2.imp fun _ => Exists.imp fun _ => hold⟩
    apart := h.apart
    known := h.known
    owned := fun hb => (h.owned hb).imp_right
      (Exists.imp fun _ => Exists.imp fun _ => And.imp_left hold) }

end Orderly

/-! ## Runs of many calls -/

/-- The number of steps that a call has left at most. -/
def Stage.left : Stage → Nat
  | .search => 6
  | .mint => 5
  | .store _ => 4
  | .publish _ => 3
  | .withdraw _ => 2
  | .yieldTo _ => 1
  | .done _ _ => 0

theorem Passage.eq_of_done {item : Item} {v v' : Directory} {k : Key} {isNew : Bool} {stage : Stage}
    (h : Passage item v (.done k isNew) stage v') : stage = .done k isNew := by
  cases h
  rfl

theorem Passage.left_le {item : Item} {v v' : Directory} {stage stage' : Stage}
    (h : Passage item v stage stage' v') : stage'.left ≤ stage.left - 1 := by
  cases h <;> simp [Stage.left]

theorem Stage.exists_done {stage : Stage} (h : stage.left = 0) :
    ∃ k isNew, stage = .done k isNew := by
  cases stage with
  | done k isNew => exact ⟨k, isNew, rfl⟩
  | _ => cases h

namespace Traffic

/-- What every later state keeps. -/
structure Leads (t t' : Traffic) : Prop where
  known {name : Kind × Delegate} {k : Key} : t.registry.directory.key? name = some k →
    t'.registry.directory.key? name = some k
  bound {name : Kind × Delegate} {k : Key} {b : Item} : t.registry.directory.key? name = some k →
    t.registry.item? (name.1, k) = some b → t'.registry.item? (name.1, k) = some b
  calls {i : Nat} {c : Registration} : t.calls[i]? = some c →
    ∃ stage, t'.calls[i]? = some ⟨c.item, stage⟩
  ended {i : Nat} {item : Item} {k : Key} {isNew : Bool} :
    t.calls[i]? = some ⟨item, .done k isNew⟩ → t'.calls[i]? = some ⟨item, .done k isNew⟩

theorem Leads.refl (t : Traffic) : Leads t t := ⟨id, fun _ => id, fun h => ⟨_, h⟩, id⟩

theorem Leads.trans {t t' t'' : Traffic} (h : Leads t t') (h' : Leads t' t'') : Leads t t'' where
  known hk := h'.known (h.known hk)
  bound hk hb := h'.bound (h.known hk) (h.bound hk hb)
  calls {_ c} hi := by
    obtain ⟨stage, hi⟩ := h.calls hi
    exact h'.calls (c := ⟨c.item, stage⟩) hi
  ended hi := h'.ended (h.ended hi)

/-- The calls and the registry agree. -/
def Ordered (t : Traffic) : Prop := Orderly t.registry.directory t.calls

theorem ordered_empty : Ordered empty where
  fits h := by cases h
  alone h := by cases h
  held_lt h := by cases h
  bound_lt {kind _ _} h := by cases kind <;> cases h
  origin {kind _ _} h := by cases kind <;> cases h
  apart {kind _ _ _ _} h := by cases kind <;> cases h
  known {name _} h := by obtain ⟨_ | _, _⟩ := name <;> cases h
  owned {kind _ _} h := by cases kind <;> cases h

variable {t : Traffic} {i : Nat} {c : Registration}

/-- A step of a call is a passage. -/
theorem Ordered.exists_passage (h : Ordered t) (hi : t.calls[i]? = some c) :
    ∃ stage registry, t.move (.step i) = ⟨registry, t.calls.set i ⟨c.item, stage⟩⟩ ∧
      Passage c.item t.registry.directory c.stage stage registry.directory := by
  have hfits := h.fits hi
  have hfree : ∀ k, c.stage = .store k → t.registry.item? (c.item.kind, k) = none := by
    intro k hk
    rw [Registration.Fits, hk] at hfits
    exact hfits _
  have hknown : ∀ k, c.stage = .yieldTo k → t.registry.directory.key? c.item.name ≠ none := by
    intro k hk
    rw [Registration.Fits, hk] at hfits
    exact hfits
  obtain ⟨stage, registry, hstep, hp⟩ := c.item.passage_step t.registry hfree hknown
  refine ⟨stage, registry, ?_, hp⟩
  simp only [move, hi, hstep]

theorem Ordered.move (h : Ordered t) (m : Move) : Ordered (t.move m) := by
  cases m with
  | call item => exact Orderly.call h item
  | step i =>
    cases hi : t.calls[i]? with
    | none => simpa only [Traffic.move, hi] using h
    | some c =>
      obtain ⟨stage, registry, hmove, hp⟩ := h.exists_passage hi
      rw [hmove]
      exact Orderly.passage h hi hp

/-- A call makes no step but its own. -/
theorem getElem?_move (hi : t.calls[i]? = some c) {m : Move} (hm : m ≠ .step i) :
    (t.move m).calls[i]? = some c := by
  cases m with
  | call item =>
    simp only [Traffic.move]
    rw [List.getElem?_append_left (List.getElem?_eq_some_iff.1 hi).1]
    exact hi
  | step j =>
    cases hj : t.calls[j]? with
    | none => simpa only [Traffic.move, hj] using hi
    | some d =>
      simp only [Traffic.move, hj]
      rw [List.getElem?_set_ne fun h => hm (congrArg Move.step h)]
      exact hi

/-- A step of a call changes its stage alone, and brings it closer to its end. -/
theorem Ordered.getElem?_step (h : Ordered t) (hi : t.calls[i]? = some c) :
    ∃ stage, (t.move (.step i)).calls[i]? = some ⟨c.item, stage⟩ ∧ stage.left ≤ c.stage.left - 1 ∧
      ∀ k isNew, c.stage = .done k isNew → stage = .done k isNew := by
  obtain ⟨stage, registry, hmove, hp⟩ := h.exists_passage hi
  refine ⟨stage, ?_, hp.left_le, fun k isNew hk => (hk ▸ hp).eq_of_done⟩
  rw [hmove]
  simp only
  rw [List.getElem?_set_self', hi]
  rfl

/-- A move keeps each call, and the end of each call. -/
theorem Ordered.exists_call (h : Ordered t) (hi : t.calls[i]? = some c) (m : Move) :
    ∃ stage, (t.move m).calls[i]? = some ⟨c.item, stage⟩ ∧
      ∀ k isNew, c.stage = .done k isNew → stage = .done k isNew := by
  by_cases hm : m = .step i
  · obtain ⟨stage, hat, -, hdone⟩ := h.getElem?_step hi
    exact ⟨stage, hm ▸ hat, hdone⟩
  · exact ⟨c.stage, getElem?_move hi hm, fun _ _ => id⟩

/-- A move leaves the registry alone, or a call makes a step. -/
theorem Ordered.registry_move (h : Ordered t) (m : Move) : (t.move m).registry = t.registry ∨
    ∃ (i : Nat) (c : Registration) (stage : Stage), t.calls[i]? = some c ∧
      Passage c.item t.registry.directory c.stage stage (t.move m).registry.directory := by
  cases m with
  | call item => exact .inl rfl
  | step i =>
    cases hi : t.calls[i]? with
    | none => exact .inl (by simp only [Traffic.move, hi])
    | some c =>
      obtain ⟨stage, registry, hmove, hp⟩ := h.exists_passage hi
      exact .inr ⟨i, c, stage, hi, by rwa [hmove]⟩

/-- No move takes back what a call was told. -/
theorem Ordered.leads_move (h : Ordered t) (m : Move) : Leads t (t.move m) where
  known {name k} hk := by
    rcases h.registry_move m with hsame | ⟨i, c, stage, hi, hp⟩
    · rwa [hsame]
    · exact hp.key?_keeps hk
  bound {name k b} hk hb := by
    rcases h.registry_move m with hsame | ⟨i, c, stage, hi, hp⟩
    · rwa [hsame]
    · rcases hp.item?_keeps hb with hb | ⟨-, hstage⟩
      · exact hb
      -- what a call withdraws nobody has been told
      · have hfits := h.fits hi
        rw [Registration.Fits, hstage] at hfits
        exact absurd hk (hfits.2.1 name)
  calls hi := by
    obtain ⟨stage, hat, -⟩ := h.exists_call hi m
    exact ⟨stage, hat⟩
  ended {_ item k isNew} hi := by
    obtain ⟨stage, hat, hdone⟩ := h.exists_call hi m
    rw [hat, hdone k isNew rfl]

/-- **In every run of calls the registry and the calls agree**, and nobody is told anything that a
later state does not bear out. -/
theorem Ordered.play (h : Ordered t) (moves : List Move) :
    Ordered (play moves t) ∧ Leads t (play moves t) := by
  induction moves generalizing t with
  | nil => exact ⟨h, .refl t⟩
  | cons m moves ih =>
    obtain ⟨hordered, hleads⟩ := ih (h.move m)
    exact ⟨hordered, (h.leads_move m).trans hleads⟩

/-- Each step of its own brings a call closer to its end, and no other move takes it back. -/
theorem Ordered.left_le (h : Ordered t) (hi : t.calls[i]? = some c) (moves : List Move) :
    ∃ stage, (Traffic.play moves t).calls[i]? = some ⟨c.item, stage⟩ ∧
      stage.left ≤ c.stage.left - moves.count (.step i) := by
  induction moves generalizing t c with
  | nil => exact ⟨c.stage, hi, Nat.le_refl _⟩
  | cons m moves ih =>
    by_cases hm : m = .step i
    · subst hm
      obtain ⟨stage, hat, hle, -⟩ := h.getElem?_step hi
      obtain ⟨stage', hstage', hle'⟩ := ih (h.move _) hat
      refine ⟨stage', hstage', ?_⟩
      rw [List.count_cons_self]
      simp only at hle'
      omega
    · rw [List.count_cons_of_ne hm]
      exact ih (h.move m) (getElem?_move hi hm)

theorem play_cons (m : Move) (moves : List Move) (t : Traffic) :
    Traffic.play (m :: moves) t = Traffic.play moves (t.move m) := rfl

/-! ## Keys and counts -/

/-- **What any number of calls are told.** -/
structure Agrees (t : Traffic) : Prop where
  /-- Calls are told the same key exactly when they register the same host function, as the same
  kind. -/
  keys {i j : Nat} {a b : Item} {k l : Key} {m n : Bool} : t.calls[i]? = some ⟨a, .done k m⟩ →
    t.calls[j]? = some ⟨b, .done l n⟩ → (k = l ↔ a.name = b.name)
  /-- In every later state the key of a call that has ended is bound to one and the same binding of
  its host function, which one of the calls has brought. -/
  resolves {i : Nat} {a : Item} {k : Key} {n : Bool} : t.calls[i]? = some ⟨a, .done k n⟩ →
    ∃ b, b.name = a.name ∧ (∃ (j : Nat) (stage : Stage), t.calls[j]? = some ⟨b, stage⟩) ∧
      ∀ later, (play later t).calls[i]? = some ⟨a, .done k n⟩ ∧
        (play later t).registry.item? (a.kind, k) = some b
  /-- When all calls have ended, there is one binding of each kind for each host function. -/
  counts : (∀ c ∈ t.calls, ∃ k n, c.stage = .done k n) → ∀ kind,
    t.registry.count kind = (t.delegates kind).dedup.length
  /-- Every call ends, whatever others do meanwhile. -/
  ends {i : Nat} {c : Registration} : t.calls[i]? = some c → ∀ later,
    Compartment.stepBound ≤ later.count (.step i) →
      ∃ k n, (play later t).calls[i]? = some ⟨c.item, .done k n⟩

theorem Ordered.keys_iff (h : Ordered t) {i j : Nat} {a b : Item} {k l : Key} {m n : Bool}
    (hi : t.calls[i]? = some ⟨a, .done k m⟩) (hj : t.calls[j]? = some ⟨b, .done l n⟩) :
    k = l ↔ a.name = b.name := by
  have hk : t.registry.directory.key? a.name = some k := h.fits hi
  have hl : t.registry.directory.key? b.name = some l := h.fits hj
  constructor
  · rintro rfl
    obtain ⟨x, hx, hxname⟩ := h.known hk
    obtain ⟨y, hy, hyname⟩ := h.known hl
    have hkind : a.name.1 = b.name.1 := h.apart hx hy
    rw [hkind] at hx
    obtain rfl : x = y := Option.some.inj (hx.symm.trans hy)
    exact hxname.symm.trans hyname
  · intro hname
    rw [hname] at hk
    exact Option.some.inj (hk.symm.trans hl)

theorem Ordered.resolves (h : Ordered t) {i : Nat} {a : Item} {k : Key} {n : Bool}
    (hi : t.calls[i]? = some ⟨a, .done k n⟩) :
    ∃ b, b.name = a.name ∧ (∃ (j : Nat) (stage : Stage), t.calls[j]? = some ⟨b, stage⟩) ∧
      ∀ later, (Traffic.play later t).calls[i]? = some ⟨a, .done k n⟩ ∧
        (Traffic.play later t).registry.item? (a.kind, k) = some b := by
  have hk : t.registry.directory.key? a.name = some k := h.fits hi
  obtain ⟨b, hb, hname⟩ := h.known hk
  refine ⟨b, hname, (h.origin hb).2, fun later => ?_⟩
  have hleads := (h.play later).2
  exact ⟨hleads.ended hi, hleads.bound hk hb⟩

theorem mem_delegates {kind : Kind} {d : Delegate} :
    d ∈ t.delegates kind ↔ ∃ c ∈ t.calls, c.item.name = (kind, d) := by
  simp only [delegates, List.mem_map, List.mem_filter, decide_eq_true_eq, Item.name, Prod.mk.injEq,
    and_assoc]

/-- When all calls have ended, the bindings of a kind and the host functions of that kind that were
called to register are in correspondence, by the known keys. -/
theorem Ordered.count_eq (h : Ordered t) (hall : ∀ c ∈ t.calls, ∃ k n, c.stage = .done k n)
    (kind : Kind) : t.registry.count kind = (t.delegates kind).dedup.length := by
  obtain ⟨keys, hnodup, hlength, hkeys⟩ := t.registry.exists_keys kind
  have hknown : ∀ d ∈ t.delegates kind, ∃ k, t.registry.directory.key? (kind, d) = some k := by
    intro d hd
    obtain ⟨c, hc, hname⟩ := mem_delegates.1 hd
    obtain ⟨i, hi⟩ := List.getElem?_of_mem hc
    obtain ⟨k, n, hstage⟩ := hall c hc
    have hfits := h.fits hi
    rw [Registration.Fits, hstage, hname] at hfits
    exact ⟨k, hfits⟩
  rw [← hlength, ← List.toFinset_card_of_nodup hnodup, ← List.card_toFinset]
  symm
  refine Finset.card_bij (fun d _ => (t.registry.directory.key? (kind, d)).getD 0) ?_ ?_ ?_
  · intro d hd
    obtain ⟨k, hk⟩ := hknown d (List.mem_toFinset.1 hd)
    obtain ⟨b, hb, -⟩ := h.known hk
    rw [List.mem_toFinset, hkeys, hk]
    exact ⟨b, hb⟩
  · intro d hd d' hd' heq
    obtain ⟨k, hk⟩ := hknown d (List.mem_toFinset.1 hd)
    obtain ⟨k', hk'⟩ := hknown d' (List.mem_toFinset.1 hd')
    obtain rfl : k = k' := by simpa only [hk, hk', Option.getD_some] using heq
    obtain ⟨b, hb, hname⟩ := h.known hk
    obtain ⟨b', hb', hname'⟩ := h.known hk'
    obtain rfl : b = b' := Option.some.inj (hb.symm.trans hb')
    exact congrArg Prod.snd (hname.symm.trans hname')
  · intro k hk
    obtain ⟨b, hb⟩ := (hkeys k).1 (List.mem_toFinset.1 hk)
    obtain ⟨rfl, i, stage, hi⟩ := h.origin hb
    have hmem := List.mem_of_getElem? hi
    refine ⟨b.delegate, List.mem_toFinset.2 (mem_delegates.2 ⟨_, hmem, rfl⟩), ?_⟩
    -- no call that has ended holds a key, so the binding is the known one
    rcases h.owned hb with hname | ⟨j, reached, hj, hreached⟩
    · exact congrArg (Option.getD · 0) hname
    · obtain ⟨l, n, hdone⟩ := hall _ (List.mem_of_getElem? hj)
      rcases hreached with rfl | rfl <;> cases hdone

/-! ## A call alone -/

/-- A call that nobody interrupts goes on like the registration of its binding. -/
theorem play_steps {item : Item} {stage : Stage} (hi : t.calls[i]? = some ⟨item, stage⟩) (n : Nat) :
    Traffic.play (List.replicate n (.step i)) t =
      ⟨(item.run n (stage, t.registry)).2,
        t.calls.set i ⟨item, (item.run n (stage, t.registry)).1⟩⟩ := by
  induction n generalizing t stage with
  | zero =>
    have hset : t.calls.set i ⟨item, stage⟩ = t.calls := by
      obtain ⟨hlt, hget⟩ := List.getElem?_eq_some_iff.1 hi
      rw [← hget, List.set_getElem_self]
    rw [Item.run_zero, hset]
    rfl
  | succ n ih =>
    have hmove : t.move (.step i) = ⟨(item.step t.registry stage).2,
        t.calls.set i ⟨item, (item.step t.registry stage).1⟩⟩ := by
      simp only [Traffic.move, hi]
    have hat : (t.move (.step i)).calls[i]? = some ⟨item, (item.step t.registry stage).1⟩ := by
      rw [hmove]
      simp only
      rw [List.getElem?_set_self', hi]
      rfl
    rw [List.replicate_succ, play_cons, ih hat, hmove, Item.run_succ]
    simp only [List.set_set]

/-- **A call that nobody interrupts registers its binding**, as services do. -/
theorem play_alone (h : Ordered t) (item : Item) :
    ∃ k isNew r, item.register t.registry = ((k, isNew), r) ∧
      Traffic.play (.call item :: List.replicate Compartment.stepBound (.step t.calls.length)) t =
        ⟨r, t.calls ++ [⟨item, .done k isNew⟩]⟩ := by
  have hat : (t.move (.call item)).calls[t.calls.length]? = some ⟨item, .search⟩ := by
    simp [Traffic.move]
  obtain ⟨stage, hstage, hleft⟩ := (h.move (.call item)).left_le hat
    (List.replicate Compartment.stepBound (.step t.calls.length))
  obtain ⟨k, isNew, rfl⟩ : ∃ k isNew, stage = .done k isNew := by
    rw [List.count_replicate_self] at hleft
    exact Stage.exists_done (Nat.le_zero.1 hleft)
  rw [play_steps hat] at hstage
  have hdone : (item.run Compartment.stepBound (.search, t.registry)).1 = .done k isNew := by
    simpa [Traffic.move] using hstage
  refine ⟨k, isNew, _, item.register_of_run _ (Prod.ext hdone rfl), ?_⟩
  rw [play_cons, play_steps hat]
  simp only [Traffic.move, hdone]
  simp

/-- **Registrations at once agree.**  However many calls register bindings at a registry, with
whatever host functions, and however their steps meet, they are told keys as if each had been
alone. -/
theorem agrees_play (moves : List Move) : Agrees (play moves empty) := by
  have h := (ordered_empty.play moves).1
  exact {
    keys := h.keys_iff
    resolves := h.resolves
    counts := h.count_eq
    ends := fun {i c} hi later hcount => by
      obtain ⟨stage, hat, hleft⟩ := h.left_le hi later
      have hsix : c.stage.left ≤ Compartment.stepBound := by
        cases c.stage <;> simp [Stage.left, Compartment.stepBound]
      have hnone : stage.left = 0 := by omega
      obtain ⟨k, n, rfl⟩ := Stage.exists_done hnone
      exact ⟨k, n, hat⟩ }

/-- Two calls that both find no key for a host function: the one that comes second gives way. -/
example :
    let first : Item := .ofMethod ⟨7, some "first"⟩
    let second : Item := .ofMethod ⟨7, some "second"⟩
    let t := play [.call first, .call second, .step 0, .step 1, .step 0, .step 1, .step 1, .step 0,
      .step 1, .step 0, .step 0, .step 0] empty
    t.calls = [⟨first, .done 2 false⟩, ⟨second, .done 2 true⟩] ∧
      t.registry.item? (.ofMethod, 2) = some second ∧ t.registry.methodCount = 1 := by
  decide

end Traffic

end ScriptHost.Bridge
