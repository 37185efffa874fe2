import ScriptHost.Proofs.Accessors
import ScriptHost.Proofs.Tracking

/-!
# Requests to a machine

A host asks a machine for one thing after the other, through its slots.  Where no machine misreports
what is there, checks come to the result that the slots call for and change nothing (`Decides`).  A
part of a machine that requests read and write (`Aspect`) can be looked at as something simpler.  If
each request ends as it does there, and leaves a machine that shows what is there then (`Serves`), so
do many of them, one after the other (`serves_requests`).
-/

namespace ScriptHost.Machine.Heap

/-! ## Objects of one kind -/

/-- Objects stay what they are, except those of a kind, and new objects are of the kind. -/
def Alters (kind : Heap → ObjectId → Prop) (h h' : Heap) : Prop :=
  ∀ id, h'.get? id = h.get? id ∨ kind h' id ∧ (kind h id ∨ h.get? id = none)

namespace Alters

variable {kind : Heap → ObjectId → Prop} {h h' h'' : Heap}

theorem refl (h : Heap) : Alters kind h h := fun _ => .inl rfl

theorem trans (hkind : ∀ {h h' : Heap} {id : ObjectId}, h'.get? id = h.get? id →
    (kind h' id ↔ kind h id)) (h₁ : Alters kind h h') (h₂ : Alters kind h' h'') :
    Alters kind h h'' := by
  intro id
  rcases h₁ id with hsame | ⟨hafter, hbefore⟩ <;> rcases h₂ id with hsame' | ⟨hafter', hbefore'⟩
  · exact .inl (hsame'.trans hsame)
  · exact .inr ⟨hafter', by rwa [← hkind hsame, ← hsame]⟩
  · exact .inr ⟨(hkind hsame').2 hafter, hbefore⟩
  · exact .inr ⟨hafter', hbefore⟩

theorem alloc (hn : h.Numbered) {o : Object} (ho : kind (h.alloc o).2 (h.alloc o).1) :
    Alters kind h (h.alloc o).2 := by
  intro id
  by_cases hid : id = (h.alloc o).1
  · subst hid
    exact .inr ⟨ho, .inr (get?_eq_none_of_gt hn (Nat.lt_succ_self _))⟩
  · exact .inl (h.get?_alloc_of_ne o hid)

theorem set {id : ObjectId} {o : Object} (hid : kind h id) (ho : kind (h.set id o) id) :
    Alters kind h (h.set id o) := by
  intro id'
  by_cases hne : id' = id
  · subst hne
    exact .inr ⟨ho, .inl hid⟩
  · exact .inl (Table.find?_insert_ne _ _ hne)

end Alters

end ScriptHost.Machine.Heap

namespace ScriptHost.Bridge

open Machine (State Value)

variable {η α β γ σ ρ : Type}

/-! ## Aspects of machines -/

/-- A part of machines, looked at as something simpler, and what is written of them. -/
structure Aspect (σ : Type) where
  view : State → σ
  /-- What holds of a machine. -/
  Fit : State → Prop
  /-- What is written between two machines, of which the second one is fit. -/
  Writes : State → State → Prop
  refl : ∀ {m}, Fit m → Writes m m
  trans : ∀ {m m' m''}, Writes m m' → Writes m' m'' → Writes m m''
  fit : ∀ {m m'}, Writes m m' → Fit m'

/-- What there is behind the result of a request.  One that is refused changes nothing. -/
def behind (s : σ) : Except HostError (α × σ) → σ
  | .ok (_, s') => s'
  | .error _ => s

/-- The answers to requests, one after the other, with what there is behind the last one. -/
def answers (perform : σ → ρ → Except HostError (α × σ)) :
    σ → List ρ → List (Except HostError α) × σ
  | s, [] => ([], s)
  | s, r :: rest =>
    let (results, s') := answers perform (behind s (perform s r)) rest
    ((Prod.fst <$> perform s r) :: results, s')

/-- Serves requests one after the other, whatever they end with. -/
def requestAll (run : ρ → Act η α) (requests : List ρ) : Act η (List (Except HostError α)) :=
  requests.mapM fun r => (run r).attempt

/-- The value in a slot. -/
def valueAt (slots : List Value) (slot : Nat) : Except HostError Value :=
  match slots[slot]? with
  | some v => .ok v
  | none => .error (.slotOutOfRange slot slots.length)

theorem valueAt_eq_ok {slots : List Value} {slot : Nat} {v : Value} (h : valueAt slots slot = .ok v) :
    slots[slot]? = some v := by
  unfold valueAt at h
  split at h
  · next hv => cases h; exact hv
  · cases h

theorem ok_of_bind {x : Except HostError α} {f : α → Except HostError β} {b : β}
    (h : x >>= f = .ok b) : ∃ v, x = .ok v ∧ f v = .ok b := by
  cases x with
  | error e => cases h
  | ok v => exact ⟨v, rfl, h⟩

/-- A machine that is alive, and reports what is there. -/
structure Candid (vm : VmId) (a : Address) (w : World η) : Prop where
  live : w.LiveAt vm a
  faults : w.faults = []

/-- A machine that is alive and fit, and reports what is there. -/
structure Attending (p : Aspect σ) (vm : VmId) (a : Address) (w : World η) : Prop where
  live : w.LiveAt vm a
  native : a ∈ w.natives.keys
  faults : w.faults = []
  fit : p.Fit (w.machine a)

/-- Checks come to a result, and change nothing. -/
def Decides (x : Act η α) (w : World η) (r : Except HostError α) : Prop :=
  ∃ t, w.Intact t ∧ x w = Run.ofExcept r t

/-- What comes of work at a machine: its result, and what the machine shows then. -/
def Serves (p : Aspect σ) (x : Act η α) (w : World η) (a : Address)
    (r : Except HostError (α × σ)) : Prop :=
  ∃ m t, (w.putMachine a m).Intact t ∧ x w = Run.ofExcept (Prod.fst <$> r) t ∧
    p.Writes (w.machine a) m ∧ p.view m = behind (p.view (w.machine a)) r

variable {p : Aspect σ} {w t : World η} {vm : VmId} {a : Address}

theorem World.Intact.putMachine (h : w.Intact t) (m : State) :
    (w.putMachine a m).Intact (t.putMachine a m) := by
  obtain ⟨calls, lastBlock?, rfl⟩ := h
  exact ⟨calls, lastBlock?, rfl⟩

namespace Candid

theorem hasFault (h : Candid vm a w) (f : NativeFault) : w.hasFault f = false := by
  rw [World.hasFault, h.faults]
  rfl

theorem intact (h : Candid vm a w) (ht : w.Intact t) : Candid vm a t := by
  obtain ⟨_, _, rfl⟩ := ht
  exact ⟨h.live, h.faults⟩

theorem putMachine (h : Candid vm a w) (m : State) : Candid vm a (w.putMachine a m) :=
  ⟨h.live, h.faults⟩

theorem live_eq (h : Candid vm a w) (operation : String) :
    (Bridge.live vm operation : Act η Address) w = (.value a, w) := by
  rw [live_of_alive h.live.1, h.live.2]

end Candid

namespace Attending

theorem candid (h : Attending p vm a w) : Candid vm a w := ⟨h.live, h.faults⟩

theorem intact (h : Attending p vm a w) (ht : w.Intact t) : Attending p vm a t := by
  obtain ⟨_, _, rfl⟩ := ht
  exact ⟨h.live, h.native, h.faults, h.fit⟩

theorem putMachine (h : Attending p vm a w) {m : State} (hm : p.Fit m) :
    Attending p vm a (w.putMachine a m) := by
  refine ⟨h.live, World.mem_natives_putMachine.2 h.native, h.faults, ?_⟩
  rwa [World.machine_putMachine_self h.native]

end Attending

theorem decides_ok (w : World η) (v : α) : Decides (pure v) w (.ok v) := ⟨w, .refl w, rfl⟩

/-- Checks follow each other as their results do. -/
theorem decides_bind {x : Act η α} {f : α → Act η β} {r : Except HostError γ} {g : γ → α}
    {k : γ → Except HostError β} (hx : Decides x w (g <$> r))
    (hf : ∀ c t, r = .ok c → w.Intact t → Decides (f (g c)) t (k c)) :
    Decides (x >>= f) w (r >>= k) := by
  obtain ⟨t, ht, hxt⟩ := hx
  cases r with
  | error e => exact ⟨t, ht, Run.bind_of_fault hxt f⟩
  | ok c =>
    obtain ⟨u, hu, hfu⟩ := hf c t rfl ht
    exact ⟨u, ht.trans hu, (Run.bind_of_value hxt f).trans hfu⟩

/-- A slot of the machine itself. -/
theorem decides_ensureSameVm (w : World η) (vm : VmId) (i : Nat) (operation : String) :
    Decides (Slot.ensureSameVm ⟨vm, i⟩ vm operation) w (.ok ()) := by
  unfold Slot.ensureSameVm
  rw [if_pos rfl]
  exact decides_ok w ()

/-- Work comes behind its checks. -/
theorem serves_bind (h : Attending p vm a w) {x : Act η β} {f : β → Act η α}
    {r : Except HostError γ} {g : γ → β} {k : γ → Except HostError (α × σ)}
    (hx : Decides x w (g <$> r))
    (hf : ∀ c t, r = .ok c → w.Intact t → Serves p (f (g c)) t a (k c)) :
    Serves p (x >>= f) w a (r >>= k) := by
  obtain ⟨t, ht, hxt⟩ := hx
  cases r with
  | error e =>
    refine ⟨w.machine a, t, ?_, Run.bind_of_fault hxt f, p.refl h.fit, rfl⟩
    rwa [World.putMachine_machine]
  | ok c =>
    obtain ⟨m, u, hu, hfu, hwrites, hview⟩ := hf c t rfl ht
    rw [ht.machine_eq] at hwrites hview
    exact ⟨m, u, (ht.putMachine m).trans hu, (Run.bind_of_value hxt f).trans hfu, hwrites, hview⟩

/-- Work that writes a machine. -/
theorem serves_change {f : State → State} {answer : α} {s : σ}
    (hwrites : p.Writes (w.machine a) (f (w.machine a)))
    (hview : p.view (f (w.machine a)) = s) :
    Serves p (do changeNative a f; return answer) w a (.ok (answer, s)) :=
  ⟨f (w.machine a), (w.note (.enter a)).putMachine a (f (w.machine a)),
    (World.Intact.note w (.enter a)).putMachine _, rfl, hwrites, hview⟩

/-- Work that reads a machine. -/
theorem serves_read (h : Attending p vm a w) {x : Act η β} {v : β} {c : NativeCall}
    (hx : x w = (.value v, w.note c)) (finish : β → α) :
    Serves p (do return finish (← x)) w a (.ok (finish v, p.view (w.machine a))) := by
  refine ⟨w.machine a, w.note c, ?_, Run.bind_of_value hx _, p.refl h.fit, rfl⟩
  rw [World.putMachine_machine]
  exact .note w c

section

variable (h : Candid vm a w)
include h

theorem decides_checked (i : Nat) (operation : String) :
    Decides (Slot.checked ⟨vm, i⟩ operation) w
      ((fun _ => a) <$> valueAt (w.machine a).slots i) := by
  refine ⟨w.note (.enter a), .note w _, ?_⟩
  have hcount : (Native.slotCount a : Act η Nat) w =
      (.value (w.machine a).slots.length, w.note (.enter a)) := by
    have htold : Native.toldCount w .negativeSlotCount (w.machine a).slots.length =
        (w.machine a).slots.length := by
      rw [Native.toldCount, h.hasFault, if_neg Bool.false_ne_true]
    exact Prod.ext (congrArg Outcome.value htold) rfl
  unfold Slot.checked
  rw [Run.bind_of_value (h.live_eq operation), Run.bind_of_value hcount]
  unfold valueAt
  by_cases hi : i < (w.machine a).slots.length
  · rw [if_pos hi, List.getElem?_eq_getElem hi]
    rfl
  · rw [if_neg hi, List.getElem?_eq_none (Nat.not_lt.1 hi)]
    rfl

/-- A slot is read as what it holds. -/
theorem slotType_eq_value {i : Nat} {v : Value} (hv : (w.machine a).slots[i]? = some v) :
    (Native.slotType a i : Act η SlotType) w =
      (.value ((w.machine a).heap.slotType v), w.note (.enter a)) := by
  rw [slotType_eq (h.hasFault _) a i, State.slotType, State.slot_of_getElem? hv]

theorem decides_expectType {i : Nat} {v : Value} (hv : (w.machine a).slots[i]? = some v)
    (expected : SlotType) :
    Decides (Slot.expectType ⟨vm, i⟩ a expected) w
      (if (w.machine a).heap.slotType v = expected then .ok ()
        else .error (.slotTypeMismatch i expected ((w.machine a).heap.slotType v))) := by
  refine ⟨w.note (.enter a), .note w _, ?_⟩
  unfold Slot.expectType
  rw [Run.bind_of_value (slotType_eq_value h hv)]
  split <;> rfl

end

/-- **Requests are served one after the other**, as each of them is. -/
theorem serves_requests {perform : σ → ρ → Except HostError (α × σ)} {run : ρ → Act η α}
    (hserves : ∀ {w}, Attending p vm a w → ∀ r,
      Serves p (run r) w a (perform (p.view (w.machine a)) r)) :
    ∀ (requests : List ρ) {w : World η}, Attending p vm a w → ∃ m t,
      (w.putMachine a m).Intact t ∧ p.Writes (w.machine a) m ∧
        requestAll run requests w =
          (.value (answers perform (p.view (w.machine a)) requests).1, t) ∧
        p.view m = (answers perform (p.view (w.machine a)) requests).2
  | [], w, h => ⟨w.machine a, w, by rw [World.putMachine_machine]; exact .refl w, p.refl h.fit,
      rfl, rfl⟩
  | r :: rest, w, h => by
    obtain ⟨m, t, ht, hrun, hwrites, hview⟩ := hserves h r
    have hs : Attending p vm a t := (h.putMachine (p.fit hwrites)).intact ht
    have hmachine : t.machine a = m :=
      (ht.machine_eq a).trans (World.machine_putMachine_self h.native m)
    obtain ⟨m', u, hu, hwrites', hruns, hview'⟩ := serves_requests hserves rest hs
    rw [hmachine] at hwrites' hruns hview'
    refine ⟨m', u, ?_, p.trans hwrites hwrites', ?_, ?_⟩
    · have hput := (ht.putMachine m').trans hu
      rwa [World.putMachine_putMachine] at hput
    · have hfirst : ((run r).attempt : Act η _) w =
          (.value (Prod.fst <$> perform (p.view (w.machine a)) r), t) := by
        rw [Run.attempt, hrun]
        cases perform (p.view (w.machine a)) r <;> rfl
      unfold requestAll at hruns ⊢
      rw [List.mapM_cons, Run.bind_of_value hfirst, Run.bind_of_value hruns, hview]
      rfl
    · rw [hview', hview]
      rfl

end ScriptHost.Bridge
