import Mathlib.Logic.Function.Basic
import ScriptHost.Bridge.Trampoline

/-!
# The payload registry as a map

A registry keeps, under each address, a tag beside a payload of any type, and its readers check the
tag, the way in which the payload is held, and the payload itself.  Seen from outside it is a plain
map from addresses to what is held there (`Holdings`), whose readings have no more to check than the
type and the way.  The tag is always that of the payload (`Payloads.Shows`), since every request
keeps this, whatever came before (`Shows.answer`); so answers and readings are those of the map
(`Payloads.answers_of_held`), and a payload whose tag was checked is never found to be of another
type.

To finalize an object is to take its entry out first (`finalizePayload_eq`); what finalizers ask of
the registry comes behind that.
-/

namespace ScriptHost.Bridge

open Function (update)

variable {τ : Type} [DecidableEq τ] [HostTypes τ]

/-! ## The map -/

/-- What is held under each address. -/
abbrev Holdings (τ : Type) [HostTypes τ] : Type := Nat → Option (Holding τ)

/-- What changes a registry. -/
inductive PayloadRequest (τ : Type) [HostTypes τ] where
  | addObject (address : Nat) (s : Shared τ)
  | addValue (address : Nat) (p : Payload τ)
  | setValue (address : Nat) (p : Payload τ)
  | finalize (address : Nat)
  | setFinalizer (t : τ) (finalizer : Delegate)

/-- A request to track something under an address. -/
def PayloadRequest.Adds (address : Nat) : PayloadRequest τ → Prop
  | .addObject a _ => a = address
  | .addValue a _ => a = address
  | _ => False

namespace Holdings

variable (names : TypeNames τ) (m : Holdings τ)

/-- Nothing is held. -/
def nothing : Holdings τ := fun _ => none

/-- Why a payload of a type, held in the wanted way if there is one, is not to be had under an
address: nothing is held, or it has another type, or it is held in another way.  The first reason
counts. -/
def refusal? (a : Nat) (t : τ) (wanted? : Option PayloadKind) : Option HostError :=
  match m a with
  | none => some (.unknownForeignObject a)
  | some h =>
    if h.payload.type ≠ t then some (.invalidForeignType a (names t) (names h.payload.type))
    else (wanted?.filter (· ≠ h.kind)).map fun kind => .payloadKindMismatch a kind h.kind

/-- Something in a place where nothing is held. -/
def add (a : Nat) (h : Holding τ) : Except HostError Bool × Holdings τ :=
  match m a with
  | none => (.ok true, update m a (some h))
  | some _ => (.ok false, m)

/-- The answer to a request, and the map behind it. -/
def answer : PayloadRequest τ → Except HostError Bool × Holdings τ
  | .addObject a s => m.add a (.object s)
  | .addValue a p => m.add a (.value p)
  | .setValue a p =>
    match m.refusal? names a p.type (some .value) with
    | none => (.ok true, update m a (some (.value p)))
    | some e => (.error e, m)
  | .finalize a => (.ok (m a).isSome, update m a none)
  | .setFinalizer _ _ => (.ok true, m)

/-- The answers to requests in order, and the map behind them. -/
def answerAll (names : TypeNames τ) :
    Holdings τ → List (PayloadRequest τ) → List (Except HostError Bool) × Holdings τ
  | m, [] => ([], m)
  | m, q :: rest =>
    let (answer, m) := m.answer names q
    let (answers, m) := answerAll names m rest
    (answer :: answers, m)

end Holdings

/-! ## Results with a reason -/

/-- A result that is decided by a reason to refuse it: the reason, if there is one, or else a value
with a property. -/
inductive Decided {α : Type} (refusal? : Option HostError) (P : α → Prop) :
    Except HostError α → Prop where
  | ok {a : α} (hnone : refusal? = none) (ha : P a) : Decided refusal? P (.ok a)
  | error {e : HostError} (hsome : refusal? = some e) : Decided refusal? P (.error e)

namespace Decided

variable {α : Type} {refusal? : Option HostError} {P : α → Prop} {result : Except HostError α}

theorem error_iff (h : Decided refusal? P result) (e : HostError) :
    result = .error e ↔ refusal? = some e := by
  cases h with
  | ok hnone _ => simp [hnone]
  | error hsome => simp [hsome]

/-- A value is the result exactly if it has the property, if one value at most has it, and none
where there is a reason. -/
theorem ok_iff (h : Decided refusal? P result) (hP : ∀ a, P a → refusal? = none)
    (hunique : ∀ a b, P a → P b → a = b) (a : α) : result = .ok a ↔ P a := by
  cases h with
  | @ok b hnone hb =>
    refine ⟨fun heq => ?_, fun ha => ?_⟩
    · cases heq
      exact hb
    · rw [hunique b a hb ha]
  | error hsome =>
    refine ⟨fun heq => absurd heq (by simp), fun ha => ?_⟩
    rw [hP a ha] at hsome
    cases hsome

/-- There is a value unless there is a reason. -/
theorem isOk_iff (h : Decided refusal? P result) : (∃ a, result = .ok a) ↔ refusal? = none := by
  cases h with
  | ok hnone ha => simp [hnone]
  | error hsome => simp [hsome]

end Decided

/-! ## The registry -/

namespace Payloads

/-- The answer of a registry to a request, and the registry behind it.  An addition answers whether
the address was free, and a finalization whether it was tracked. -/
def answer (names : TypeNames τ) (r : Payloads τ) :
    PayloadRequest τ → Except HostError Bool × Payloads τ
  | .addObject a s => let (added, r) := r.addObject names a s; (.ok added, r)
  | .addValue a p => let (added, r) := r.addValue names a p; (.ok added, r)
  | .setValue a p =>
    match r.setValue names a p with
    | .ok r' => (.ok true, r')
    | .error e => (.error e, r)
  | .finalize a => let (found?, r) := r.take a; (.ok found?.isSome, r)
  | .setFinalizer t finalizer => (.ok true, r.setFinalizer t finalizer)

/-- The answers of a registry to requests in order, and the registry behind them. -/
def answerAll (names : TypeNames τ) :
    Payloads τ → List (PayloadRequest τ) → List (Except HostError Bool) × Payloads τ
  | r, [] => ([], r)
  | r, q :: rest =>
    let (answer, r) := r.answer names q
    let (answers, r) := answerAll names r rest
    (answer :: answers, r)

/-- A registry tracks what a map holds, each under the tag of its type. -/
def Shows (names : TypeNames τ) (r : Payloads τ) (m : Holdings τ) : Prop :=
  ∀ a, r.entries.find? a = (m a).map fun h => ⟨names.tag h.payload.type, h⟩

omit [DecidableEq τ] in
theorem shows_empty (names : TypeNames τ) : (empty : Payloads τ).Shows names Holdings.nothing :=
  fun _ => rfl

namespace Shows

variable {names : TypeNames τ} {r : Payloads τ} {m : Holdings τ} {a : Nat}

omit [DecidableEq τ] in
theorem find?_of_none (h : r.Shows names m) (ha : m a = none) : r.entries.find? a = none := by
  rw [h a, ha]
  rfl

omit [DecidableEq τ] in
theorem find?_of_some (h : r.Shows names m) {held : Holding τ} (ha : m a = some held) :
    r.entries.find? a = some ⟨names.tag held.payload.type, held⟩ := by
  rw [h a, ha]
  rfl

omit [DecidableEq τ] in
theorem contains_eq (h : r.Shows names m) (a : Nat) : r.contains a = (m a).isSome := by
  rw [contains, Table.contains, h a, Option.isSome_map]

/-- The tag of an entry tells the type of its payload. -/
theorem get?_of_is (h : r.Shows names m) {e : Entry τ} (he : r.entries.find? a = some e) {t : τ}
    (ht : e.tag.is t = true) : (e.holding.payload.get? t).isSome = true := by
  rw [h a] at he
  obtain ⟨held, -, rfl⟩ := Option.map_eq_some_iff.1 he
  exact (Payload.isSome_get? _ t).2 (beq_iff_eq.1 ht)

/-! ### Readings -/

/-- What there is to read under an address at a type: nothing, a payload of another type, or a value
of the type. -/
inductive Reading (names : TypeNames τ) (r : Payloads τ) (m : Holdings τ) (a : Nat) (t : τ) :
    Prop where
  | nothing (hm : m a = none) (hr : r.entries.find? a = none)
  | other (held : Holding τ) (hm : m a = some held)
      (hr : r.entries.find? a = some ⟨names.tag held.payload.type, held⟩)
      (ht : held.payload.type ≠ t)
  | found (held : Holding τ) (v : HostTypes.Carrier t) (hm : m a = some held)
      (hr : r.entries.find? a = some ⟨names.tag t, held⟩) (hv : held.payload = ⟨t, v⟩)

omit [DecidableEq τ] in
theorem reading (h : r.Shows names m) (a : Nat) (t : τ) : Reading names r m a t := by
  have ha := h a
  cases hm : m a with
  | none =>
    rw [hm] at ha
    exact .nothing hm ha
  | some held =>
    rw [hm] at ha
    by_cases ht : held.payload.type = t
    · subst ht
      exact .found held held.payload.value hm ha rfl
    · exact .other held hm ha ht

/-- What is read behind the checks of address and type is decided by what follows them. -/
theorem checked {α : Type} (h : r.Shows names m) (a : Nat) (t : τ) {wanted? : Option PayloadKind}
    {P : α → Prop} {rest : Entry τ → Except HostError α}
    (hrest : ∀ held v, m a = some held → held.payload = ⟨t, v⟩ →
      Decided ((wanted?.filter (· ≠ held.kind)).map fun kind =>
        .payloadKindMismatch a kind held.kind) P
        (rest ⟨names.tag t, held⟩)) :
    Decided (m.refusal? names a t wanted?) P (do
      let e ← r.entry a
      e.expectTag names a t
      rest e) := by
  unfold Payloads.entry Holdings.refusal?
  cases h.reading a t with
  | nothing hm hr =>
    rw [hm, hr]
    exact .error rfl
  | other held hm hr ht =>
    rw [hm, hr]
    simp only [Entry.expectTag, TypeTag.is, TypeNames.tag, ht, ne_eq, not_false_eq_true, if_true,
      beq_iff_eq, if_false, bind, Except.bind]
    exact .error rfl
  | found held v hm hr hv =>
    have ht : held.payload.type = t := by rw [hv]
    have hdecided := hrest held v hm hv
    rw [hm, hr]
    simpa only [Entry.expectTag, TypeTag.is, TypeNames.tag, ht, ne_eq, not_true_eq_false, if_false,
      beq_self_eq_true, if_true, bind, Except.bind] using hdecided

/-- A value is read at a type if it was stored with this type, in whichever way. -/
theorem value (h : r.Shows names m) (a : Nat) (t : τ) :
    Decided (m.refusal? names a t none) (fun v => ∃ held, m a = some held ∧ held.payload = ⟨t, v⟩)
      (r.value names a t) := by
  refine h.checked a t fun held v hm hv => ?_
  have hsome : held.payload.get? t = some v := by rw [hv, Payload.get?_self]
  simp only [hsome]
  exact .ok rfl ⟨held, hm, hv⟩

/-- An object is read at a type if it is held as an object and has this type. -/
theorem object (h : r.Shows names m) (a : Nat) (t : τ) :
    Decided (m.refusal? names a t (some .object))
      (fun found => m a = some (.object found.1) ∧ found.1.payload = ⟨t, found.2⟩)
      (r.object names a t) := by
  refine h.checked a t fun held v hm hv => ?_
  cases held with
  | object s =>
    have hs : s.payload.get? t = some v := by
      rw [show s.payload = ⟨t, v⟩ from hv, Payload.get?_self]
    simp only [Entry.expectKind, Holding.kind, if_true, bind, Except.bind, hs]
    exact .ok rfl ⟨hm, hv⟩
  | value p => exact .error rfl

/-! ### Requests -/

omit [DecidableEq τ] in
/-- What is stored under an address is held there. -/
theorem insert (h : r.Shows names m) (a : Nat) (held : Holding τ) :
    Shows names { r with entries := r.entries.insert a ⟨names.tag held.payload.type, held⟩ }
      (update m a (some held)) := by
  intro b
  by_cases hb : b = a
  · subst hb
    rw [Table.find?_insert_self, Function.update_self]
    rfl
  · rw [Table.find?_insert_ne _ _ hb, Function.update_of_ne hb, h b]

omit [DecidableEq τ] in
/-- A free address is taken, and one that is tracked keeps what it has. -/
theorem add (h : r.Shows names m) (a : Nat) (held : Holding τ) :
    Except.ok (r.add a (names.tag held.payload.type) held).1 = (m.add a held).1 ∧
      (r.add a (names.tag held.payload.type) held).2.Shows names (m.add a held).2 := by
  unfold Payloads.add Holdings.add
  cases ha : m a with
  | none =>
    rw [Table.tryAdd_of_not_mem _ (Table.find?_eq_none_iff.1 (h.find?_of_none ha))]
    exact ⟨rfl, h.insert a held⟩
  | some held' =>
    rw [Table.tryAdd_of_mem _ (Table.mem_keys_of_find? (h.find?_of_some ha))]
    exact ⟨rfl, h⟩

/-- A value is overwritten by one of its type. -/
theorem setValue (h : r.Shows names m) (a : Nat) (p : Payload τ) :
    Decided (m.refusal? names a p.type (some .value))
      (fun r' => (∃ q, m a = some (.value q) ∧ q.type = p.type) ∧
        r'.Shows names (update m a (some (.value p))))
      (r.setValue names a p) := by
  refine h.checked a p.type fun held v hm hv => ?_
  cases held with
  | object s => exact .error rfl
  | value q =>
    have hq : q.type = p.type := by rw [show q = ⟨p.type, v⟩ from hv]
    exact .ok rfl ⟨⟨q, hm, hq⟩, h.insert a (.value p)⟩

/-- **Every request is answered as the map answers it, and keeps what the registry shows.** -/
theorem answer (h : r.Shows names m) (q : PayloadRequest τ) :
    (r.answer names q).1 = (m.answer names q).1 ∧
      (r.answer names q).2.Shows names (m.answer names q).2 := by
  cases q with
  | addObject a s => exact h.add a (.object s)
  | addValue a p => exact h.add a (.value p)
  | setValue a p =>
    simp only [Payloads.answer, Holdings.answer]
    have hdecided := h.setValue a p
    generalize r.setValue names a p = result at hdecided ⊢
    cases hdecided with
    | ok hnone hr =>
      rw [hnone]
      exact ⟨rfl, hr.2⟩
    | error hsome =>
      rw [hsome]
      exact ⟨rfl, h⟩
  | finalize a =>
    refine ⟨congrArg Except.ok (h.contains_eq a), fun b => ?_⟩
    change (r.entries.erase a).find? b = (update m a none b).map _
    by_cases hb : b = a
    · subst hb
      rw [Table.find?_erase_self, Function.update_self]
      rfl
    · rw [Table.find?_erase_ne _ hb, Function.update_of_ne hb, h b]
  | setFinalizer t finalizer => exact ⟨rfl, h⟩

/-- So are requests one after the other. -/
theorem answerAll (requests : List (PayloadRequest τ)) : ∀ {r : Payloads τ} {m : Holdings τ},
    r.Shows names m → (r.answerAll names requests).1 = (m.answerAll names requests).1 ∧
      (r.answerAll names requests).2.Shows names (m.answerAll names requests).2 := by
  induction requests with
  | nil => exact fun h => ⟨rfl, h⟩
  | cons q rest ih =>
    intro r m h
    obtain ⟨hanswer, hnext⟩ := h.answer q
    obtain ⟨hanswers, hlast⟩ := ih hnext
    exact ⟨congrArg₂ List.cons hanswer hanswers, hlast⟩

end Shows

end Payloads

/-! ## What the map tells -/

namespace Holdings

variable {names : TypeNames τ} {m : Holdings τ} {a : Nat} {t : τ}

theorem refusal?_of_held {h : Holding τ} {v : HostTypes.Carrier t} {wanted? : Option PayloadKind}
    (hm : m a = some h) (hv : h.payload = ⟨t, v⟩) (hkind : ∀ kind ∈ wanted?, kind = h.kind) :
    m.refusal? names a t wanted? = none := by
  have ht : h.payload.type = t := by rw [hv]
  cases wanted? with
  | none => simp [refusal?, hm, ht]
  | some kind => simp [refusal?, hm, ht, hkind kind rfl]

/-- A value of a type can be overwritten, and nothing else. -/
theorem refusal?_value_iff : m.refusal? names a t (some .value) = none ↔
    ∃ q, m a = some (.value q) ∧ q.type = t := by
  refine ⟨fun h => ?_, fun ⟨q, hm, hq⟩ => ?_⟩
  · unfold refusal? at h
    cases hm : m a with
    | none => simp [hm] at h
    | some held =>
      by_cases ht : held.payload.type = t
      · cases held with
        | object s => simp [hm, ht, Holding.kind] at h
        | value q => exact ⟨q, rfl, ht⟩
      · simp [hm, ht] at h
  · subst hq
    exact refusal?_of_held (v := q.value) hm rfl fun kind hkind => (Option.some.inj hkind).symm

omit [DecidableEq τ] in
theorem add_of_free {b : Nat} (hm : m a = none) (hb : b ≠ a) (h : Holding τ) :
    (m.add b h).2 a = none := by
  unfold add
  split
  · exact (Function.update_of_ne hb.symm ..).trans hm
  · exact hm

/-- An address stays free behind a request that tracks nothing there. -/
theorem answer_of_free (hm : m a = none) {q : PayloadRequest τ} (hq : ¬ q.Adds a) :
    (m.answer names q).2 a = none := by
  cases q with
  | addObject b s => exact add_of_free hm hq _
  | addValue b p => exact add_of_free hm hq _
  | setValue b p =>
    simp only [answer]
    split
    · next hnone =>
      obtain ⟨q, hheld, -⟩ := refusal?_value_iff.1 hnone
      have hb : a ≠ b := by
        rintro rfl
        rw [hm] at hheld
        cases hheld
      exact (Function.update_of_ne hb ..).trans hm
    · exact hm
  | finalize b =>
    by_cases hb : a = b
    · subst hb
      exact Function.update_self ..
    · exact (Function.update_of_ne hb ..).trans hm
  | setFinalizer => exact hm

theorem answerAll_of_free : ∀ {requests : List (PayloadRequest τ)} {m : Holdings τ}, m a = none →
    (∀ q ∈ requests, ¬ q.Adds a) → (m.answerAll names requests).2 a = none := by
  intro requests
  induction requests with
  | nil => exact fun hm _ => hm
  | cons q rest ih =>
    intro m hm hq
    have hnext : (m.answer names q).2 a = none := answer_of_free hm (hq q List.mem_cons_self)
    exact ih hnext fun q' hq' => hq q' (List.mem_cons_of_mem q hq')

theorem answerAll_append (names : TypeNames τ) (before after : List (PayloadRequest τ)) :
    ∀ m : Holdings τ, (m.answerAll names (before ++ after)).2 =
      ((m.answerAll names before).2.answerAll names after).2 := by
  induction before with
  | nil => exact fun _ => rfl
  | cons q rest ih => exact fun m => ih (m.answer names q).2

end Holdings

/-! ## The registry as a map -/

/-- The entry of an object leaves the registry before any finalizer runs. -/
theorem finalizePayload_eq {η : Type} [Observer η] (d : Delegates η) (service : ServiceId)
    (a : Address)
    (classFinalizer? : Option Delegate) (w : World η) :
    let (found?, payloads) := (w.service service).payloads.take a
    Trampoline.finalizePayload d service a classFinalizer? w =
      Trampoline.runFinalizers d service a classFinalizer? found?
        (w.modifyService service fun s => { s with payloads }) :=
  rfl

namespace Payloads

/-- **A registry is a map from addresses to payloads with their types and ways of being held.**
Whatever was asked of it since it was empty, it has answered as the map, and tracks what the map
holds. A value is read exactly at the type with which it was stored last, an object exactly where it
is held as one, and a value is overwritten exactly by one of its type; everything else is refused
for the first reason that there is.  A payload has the type of its tag, so nothing is refused behind
the check of the tag for its type; and an address whose entry was taken out is free until something
is added there. -/
theorem answers_of_held (names : TypeNames τ) (requests : List (PayloadRequest τ)) :
    let r := ((empty : Payloads τ).answerAll names requests).2
    let m := (Holdings.nothing.answerAll names requests).2
    ((empty : Payloads τ).answerAll names requests).1 =
      (Holdings.nothing.answerAll names requests).1 ∧
    (∀ a, r.contains a = (m a).isSome) ∧
    (∀ a t v, r.value names a t = .ok v ↔ ∃ h, m a = some h ∧ h.payload = ⟨t, v⟩) ∧
    (∀ a t s v, r.object names a t = .ok (s, v) ↔ m a = some (.object s) ∧ s.payload = ⟨t, v⟩) ∧
    (∀ a p, (∃ r', r.setValue names a p = .ok r') ↔ ∃ q, m a = some (.value q) ∧ q.type = p.type) ∧
    (∀ a t e, r.value names a t = .error e ↔ m.refusal? names a t none = some e) ∧
    (∀ a t e, r.object names a t = .error e ↔ m.refusal? names a t (some .object) = some e) ∧
    (∀ a p e, r.setValue names a p = .error e ↔
      m.refusal? names a p.type (some .value) = some e) ∧
    (∀ a e t, r.entries.find? a = some e → e.tag.is t = true →
      (e.holding.payload.get? t).isSome = true) ∧
    ∀ before a after, requests = before ++ .finalize a :: after → (∀ q ∈ after, ¬ q.Adds a) →
      r.contains a = false := by
  intro r m
  obtain ⟨hanswers, hshows⟩ := Shows.answerAll requests (shows_empty names)
  refine ⟨hanswers, hshows.contains_eq, fun a t v => ?_, fun a t s v => ?_, fun a p => ?_,
    fun a t e => (hshows.value a t).error_iff e, fun a t e => (hshows.object a t).error_iff e,
    fun a p e => (hshows.setValue a p).error_iff e, fun a e t he ht => hshows.get?_of_is he ht,
    fun before a after hsplit hafter => ?_⟩
  · refine (hshows.value a t).ok_iff (fun v ⟨h, hm, hv⟩ => ?_)
      (fun v v' ⟨h, hm, hv⟩ ⟨h', hm', hv'⟩ => ?_) v
    · exact Holdings.refusal?_of_held hm hv fun _ hkind => by cases hkind
    · obtain rfl : h = h' := Option.some.inj (hm.symm.trans hm')
      rw [hv] at hv'
      cases hv'
      rfl
  · refine (hshows.object a t).ok_iff (fun found ⟨hm, hv⟩ => ?_)
      (fun found found' ⟨hm, hv⟩ ⟨hm', hv'⟩ => ?_) (s, v)
    · exact Holdings.refusal?_of_held hm hv fun _ hkind => (Option.some.inj hkind).symm
    · obtain ⟨s, v⟩ := found
      obtain ⟨s', v'⟩ := found'
      obtain rfl : s = s' := by
        have heq := Option.some.inj (hm.symm.trans hm')
        injection heq
      rw [hv] at hv'
      cases hv'
      rfl
  · rw [(hshows.setValue a p).isOk_iff]
    exact Holdings.refusal?_value_iff
  · rw [hshows.contains_eq]
    have hfree : (Holdings.nothing.answerAll names requests).2 a = none := by
      rw [hsplit, Holdings.answerAll_append]
      refine Holdings.answerAll_of_free (m := update _ a none) ?_ hafter
      exact Function.update_self ..
    rw [hfree]
    rfl

end Payloads

end ScriptHost.Bridge
