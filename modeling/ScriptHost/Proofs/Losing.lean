import ScriptHost.Proofs.Removals
import ScriptHost.Proofs.Tracking

/-!
# A collection in one world alone

When the second world alone collects the garbage of a machine, the two worlds are compared by less
(`Comparison.losing`): the objects that were removed are kept no longer, and the addresses of their data
blocks are hidden.  That the data blocks of the objects that are left are not hidden with them is due to
`Tracking`, since no two data blocks lie at one address.
-/

namespace ScriptHost.Bridge

open Machine (State Dead ObjectId Block)

variable {η σ : Type} [Observer η] {C : Comparison η σ} {active : List Address} {a : Address}
  {w w' t' : World (Host η)}

namespace Comparison

/-- What is left to compare by, when the machine at `a` of the second world has collected. -/
def losing (C : Comparison η σ) (a : Address) (m' : State) : Comparison η σ where
  sight := C.sight
  sequence := C.sequence
  kept b id := C.kept b id ∧ (b = a → State.Matches.Survives (C.kept a) m' id)
  hidden x := C.hidden x ∨ ∃ id owner block, m'.heap.foreign? id = some (owner, block) ∧
    block.address = x ∧ ¬ State.Matches.Survives (C.kept a) m' id

variable {m' : State}

theorem losing_kept_self : (C.losing a m').kept a = State.Matches.Survives (C.kept a) m' := by
  funext id
  exact propext ⟨fun h => h.2 rfl, fun h => ⟨h.1, fun _ => h⟩⟩

theorem losing_kept_ne {b : Address} (hb : b ≠ a) : (C.losing a m').kept b = C.kept b := by
  funext id
  exact propext ⟨fun h => h.1, fun h => ⟨h, fun heq => absurd heq hb⟩⟩

omit [Observer η] in
/-- No two data blocks of a world lie at one address. -/
theorem eq_of_block_address {w : World (Host η)} (ht : Tracking w) {a b : Address}
    {id id' owner owner' : ObjectId} {block block' : Block}
    (h : (w.machine a).heap.foreign? id = some (owner, block))
    (h' : (w.machine b).heap.foreign? id' = some (owner', block'))
    (hx : block.address = block'.address) : a = b ∧ id = id' := by
  obtain rfl : a = b :=
    ht.apart a b _ _ (State.carries_of_foreign? h) (State.carries_of_foreign? h') hx
  let heap := (w.machine a).heap
  have hremains : heap.remains? id = some ⟨block, heap.finalizer? owner⟩ :=
    Machine.Heap.remains?_eq_some.2 ⟨owner, h, rfl⟩
  have hremains' : heap.remains? id' = some ⟨block', heap.finalizer? owner'⟩ :=
    Machine.Heap.remains?_eq_some.2 ⟨owner', h', rfl⟩
  exact ⟨rfl, (ht.tidy a).distinct id id' _ _ hremains hremains' hx⟩

namespace Relates

variable (r : C.Relates active w w') (hn : a ∈ w.natives.keys)
include r hn

/-- Every machine still lies as it is compared, in a world that has the objects that were kept. -/
theorem lies_losing {u : World (Host η)} (htracks : Tracking u)
    (hsame : ∀ id, C.kept a id → (u.machine a).heap.get? id = (w.machine a).heap.get? id)
    {b : Address} (l : C.Lies w.serial b (u.machine b)) :
    (C.losing a (w'.machine a)).Lies w.serial b (u.machine b) := by
  have hm := r.machines a hn
  have hforeign : ∀ id, C.kept a id →
      (u.machine a).heap.foreign? id = (w'.machine a).heap.foreign? id := fun id hid =>
    Machine.Heap.foreign?_of_get?_eq ((hsame id hid).trans (hm.alike.heap.get? id hid).symm)
  refine ⟨l.handle, fun id owner block hb => ⟨(l.block id owner block hb).1, ?_, fun hlost => ?_⟩⟩
  · rintro (hx | ⟨id', owner', block', hb', hx, hdead⟩) hkept
    · exact (l.block id owner block hb).2.1 hx hkept.1
    · have hkept' : C.kept a id' := by
        refine Classical.byContradiction fun hlost => ?_
        rw [Machine.Heap.foreign?_of_none (hm.alike.heap.lost id' hlost)] at hb'
        exact absurd hb' (by simp)
      rw [← hforeign id' hkept'] at hb'
      obtain ⟨rfl, rfl⟩ := eq_of_block_address htracks hb' hb hx
      exact hdead (hkept.2 rfl)
  · by_cases hkept : C.kept b id
    · by_cases hba : b = a
      · subst hba
        refine Or.inr ⟨id, owner, block, ?_, rfl, fun h => hlost ⟨hkept, fun _ => h⟩⟩
        rw [← hforeign id hkept, hb]
      · exact absurd ⟨hkept, fun heq => absurd heq hba⟩ hlost
    · exact Or.inl ((l.block id owner block hb).2.2 hkept)

/-- What a collection takes out is hidden. -/
theorem hidden_of_taken {service : ServiceId} {x : Address}
    (h : Taken (w'.machine a).sweep.1 service x) : (C.losing a (w'.machine a)).hidden x := by
  have hm := r.machines a hn
  obtain ⟨-, dead, hdead, -, hblock⟩ := h
  obtain ⟨id, hid, hremains⟩ := Machine.Heap.mem_release.1 hdead
  obtain ⟨owner, hforeign, -⟩ := Machine.Heap.remains?_eq_some.1 hremains
  obtain ⟨hkeys, hunreached⟩ := List.mem_filter.1 hid
  refine Or.inr ⟨id, owner, dead.block, hforeign, congrArg Block.address hblock, ?_⟩
  rintro ⟨-, hreach | hnew⟩
  · simp [hreach] at hunreached
  · exact absurd (hm.alike.heap.numbered' id hkeys) (Nat.not_le_of_lt hnew)

/-- **Behind a collection in the second world alone, the worlds are compared by less.** -/
theorem lose (ht : Tracking w) (ht' : Tracking w')
    (h : C.sight.Buries (w'.machine a).sweep.1
      (w'.putMachine a (w'.machine a).collected) t') :
    (C.losing a (w'.machine a)).Relates active w t' := by
  have hm := r.machines a hn
  have hn' := (r.natives a).2 hn
  have hmachine : ∀ b, b ∈ w.natives.keys →
      (C.losing a (w'.machine a)).Machines w.serial b (w.machine b) (t'.machine b) := by
    intro b hb
    have hlies := r.lies_losing hn ht (fun _ _ => rfl) (r.machines b hb).lies
    have hlies' := r.lies_losing hn ht' hm.alike.heap.get? (r.machines b hb).lies'
    rw [h.machine]
    by_cases hba : b = a
    · subst hba
      rw [World.machine_putMachine_self hn']
      refine ⟨?_, hlies, hlies'.handle, fun id owner block hblock => ?_⟩
      · rw [losing_kept_self]
        exact hm.alike.collect_right
      · exact hlies'.block id owner block (foreign?_of_collected hblock).2
    · rw [World.machine_putMachine_ne w' hba]
      refine ⟨?_, hlies, hlies'⟩
      rw [losing_kept_ne hba]
      exact (r.machines b hb).alike
  have hservices : ∀ id, (C.losing a (w'.machine a)).Services (w.service id) (t'.service id) := by
    intro id
    have hs := r.services id
    refine ⟨(h.bindings id).trans hs.bindings, (h.finalizers id).trans hs.finalizers, fun x hx => ?_⟩
    rw [h.left id x fun htaken => hx (r.hidden_of_taken hn htaken)]
    exact hs.entries x fun hhidden => hx (Or.inl hhidden)
  have hserviceKeys : ∀ id, id ∈ t'.services.keys ↔ id ∈ w.services.keys := fun id =>
    (h.serviceKeys id).trans (r.serviceKeys id)
  have hmanaged' : ∀ a n, t'.natives.find? a = some n → n.isManaged = true := by
    rw [h.natives]
    exact (r.roster'.putMachine a _).managed
  have hnatives : ∀ b, b ∈ t'.natives.keys ↔ b ∈ w.natives.keys := fun b => by
    rw [h.natives, World.mem_natives_putMachine, r.natives]
  exact {
    same := by
      obtain ⟨_, _, _, _, rfl⟩ := r.same
      obtain ⟨_, _, rfl⟩ := h.same
      exact ⟨_, _, _, _, rfl⟩
    placement := r.placement
    roster := r.roster
    managed' := hmanaged'
    natives := hnatives
    running := r.running
    machines := hmachine
    serviceKeys := hserviceKeys
    services := hservices
    used := r.used
    hidden := by
      rintro x (hx | ⟨id, owner, block, hb, rfl, -⟩)
      · exact r.hidden x hx
      · exact (hm.lies'.block id owner block hb).1
    kept := fun b id hlost => by
      by_cases hba : b = a
      · exact hba ▸ r.used a (Or.inl hn)
      · exact r.kept b id fun hkept => hlost ⟨hkept, fun heq => absurd heq hba⟩
    view := h.view.trans r.view
    handles := h.handles.trans r.handles }

end Relates

/-- Calls into machines are recorded, and what the host keeps changes, in the second world alone. -/
theorem Relates.aside (r : C.Relates active w w') (calls : List NativeCall) {host : Host η}
    (hview : C.sight.view host.own = C.sight.view w'.host.own)
    (hhandles : host.handles = w'.host.handles) :
    C.Relates active w { w' with calls, host } := by
  refine r.congr ?_ rfl (Nat.le_refl _) r.roster rfl rfl rfl rfl (hview.trans r.view)
    (hhandles.trans r.handles)
  obtain ⟨_, _, _, _, rfl⟩ := r.same
  exact ⟨_, _, _, _, rfl⟩

/-- **The host may ask for a collection in the second world alone**: it is done, or refused, and related
worlds are left behind, if finalizers may be called at all. -/
theorem Relates.collects (r : C.Relates active w w') (ht : Tracking w) (ht' : Tracking w')
    {e : Engine (Host η)} (h : e.delegates.Unseen C.sight) (hfree : e.delegates.Free) (vm : VmId) :
    ∃ outcome t', ((Vm.collectGarbage e vm).observed :
        Effect (Host η) (Outcome HostError Unit)) w' = (.value outcome, t') ∧
      ∃ C' : Comparison η σ, C'.sight = C.sight ∧ C'.Relates active w t' := by
  have hobserved : ∀ {o : Outcome HostError Unit} {t : World (Host η)},
      (Vm.collectGarbage e vm : Act (Host η) Unit) w' = (o, t) → (∀ halt, o ≠ .halt halt) →
      ((Vm.collectGarbage e vm).observed : Effect (Host η) (Outcome HostError Unit)) w' =
        (.value o, t) := by
    intro o t hrun ho
    unfold Run.observed
    rw [hrun]
    cases o with
    | value | fault => rfl
    | halt halt => exact absurd rfl (ho halt)
  cases halive : (w'.vm vm).isAlive with
  | false =>
    have hrun := Run.bind_of_fault (live_of_dead halive "collect_garbage") fun a => do
      noteCall (.enter a)
      onMachine e.delegates a Machine.collectGarbage
    exact ⟨_, w', hobserved hrun (by simp), C, rfl, r⟩
  | true =>
    let a := (w'.vm vm).address
    let u := w'.note (.enter a)
    have hl : w'.LiveAt vm a := ⟨halive, rfl⟩
    have ru : C.Relates active w u := r.aside _ rfl rfl
    have htu : Tracking u := (Step.enter hl).tracking r.roster' ht'
    have hn' : a ∈ u.natives.keys := r.roster'.mem_natives hl
    have hn : a ∈ w.natives.keys := (r.natives a).1 hn'
    have hm := (ru.machines a hn).alike
    have hswept : (u.machine a).swept = [] := by
      rw [hm.same]
      exact hm.swept
    have hend : (onMachine e.delegates a Machine.collectGarbage u : Outcome HostError Unit × _).1 ≠
        .halt .exhausted := fun hend =>
      hfree.not_barred w ((bound_collectGarbage h ru.roster' hn').1 hend).1
    obtain ⟨_, t', hcollect, hburies⟩ :=
      (lands_collectGarbage h ru.roster' hn' hswept).resolve_left hend
    have hrun : (Vm.collectGarbage e vm : Act (Host η) Unit) w' = (.value (), t') :=
      (Run.bind_of_value (live_of_alive halive "collect_garbage") _).trans hcollect
    exact ⟨_, t', hobserved hrun (by simp), C.losing a (u.machine a), rfl, ru.lose hn ht htu hburies⟩

end Comparison

end ScriptHost.Bridge
