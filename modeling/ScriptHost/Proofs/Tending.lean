import ScriptHost.Proofs.Lasting
import ScriptHost.Proofs.Programs
import ScriptHost.Proofs.Whole

/-!
# One machine among the work of its host

Work of a host comes to a machine in few ways (`Touch`): an entry point writes its slots, a handle is
made or released, a foreign object is made, or a collection goes one step.  A property of the machine,
and a relation between its states, that are kept by these are kept by all work of the host, as long as
the machine is alive, if they are kept by the runs of the machine itself (`Regime.about`,
`runs_about`).  Runs of other machines do not touch it.
-/

namespace ScriptHost.Bridge

open Machine (State Frame Running Call Callbacks Hosted Guest Lasting Steered Edit
  Dead Rights)
open Run (Within)

variable {η α : Type}

/-! ## What work of a host does to a machine -/

/-- What a deed or a step of a collection does to a machine, as far as it may write it. -/
inductive Touch (q : Rights) (m : State) : State → Prop where
  | nothing : Touch q m m
  | edit {m' : State} (h : Edit q m m') : Touch q m m'
  | storeHandle (x : Address) {target : Machine.HandleTarget} (h : Names m target) :
      Touch q m (m.storeHandle x target)
  | releaseHandle (x : Address) : Touch q m (m.releaseHandle x)
  | bear {index classIndex : Int} {owner : Machine.ObjectId} {x : Address} (hq : q.writes index)
      (hc : m.foreignClass? classIndex = some owner) (hfresh : x ∉ m.heap.blockAddresses)
      (service : ServiceId) : Touch q m ((m.newForeign index classIndex x).2.tagBlock x service)
  | sweep : Touch q m m.sweep.2
  | beginFinalizer {d : Dead} {rest : List Dead} (h : m.swept = d :: rest) :
      Touch q m (m.beginFinalizer d)
  | endFinalizer {block : Machine.Block} {rest : List Machine.Block}
      (h : m.finalizing = block :: rest) : Touch q m m.endFinalizer

theorem Touch.mono {q q' : Rights} {m m' : State} (hle : q.Le q') (h : Touch q m m') :
    Touch q' m m' := by
  cases h with
  | nothing => exact .nothing
  | edit h => exact .edit (h.mono hle)
  | storeHandle x h => exact .storeHandle x h
  | releaseHandle x => exact .releaseHandle x
  | bear hq hc hfresh service => exact .bear (hle.writes _ hq) hc hfresh service
  | sweep => exact .sweep
  | beginFinalizer h => exact .beginFinalizer h
  | endFinalizer h => exact .endFinalizer h

theorem State.writes_bear (m : State) (index classIndex : Int) (x : Address) (service : ServiceId) :
    State.Writes m ((m.newForeign index classIndex x).2.tagBlock x service) :=
  (m.writes_newForeign index classIndex x).trans (State.writes_tagBlock _ x service)

/-- No work of a host defines a variable. -/
theorem Touch.modules {q : Rights} {m m' : State} (h : Touch q m m') : m'.modules = m.modules := by
  cases h with
  | edit h => exact h.rewrites.modules
  | bear => exact (State.writes_bear m ..).rewrites.modules
  | _ => rfl

/-- Work of a host leaves the running evaluation alone. -/
theorem Touch.kept {q : Rights} {m m' : State} (h : Touch q m m') : State.Kept m m' := by
  cases h with
  | edit h => exact h.rewrites.kept
  | bear => exact (State.writes_bear m ..).rewrites.kept
  | _ => exact ⟨rfl, rfl⟩

/-- A machine that is not asked to abort goes on waiting as it did. -/
theorem Touch.abortRequest? {q : Rights} {m m' : State} (h : Touch q m m') (hq : ¬ q.requests) :
    m'.abortRequest? = m.abortRequest? := by
  cases h with
  | edit h => exact (h.writes hq).abortRequest?
  | bear => exact (State.writes_bear m ..).abortRequest?
  | _ => rfl

section

variable {vm : VmId} {a b : Address} {w w' : World (Host η)}

theorem touch_putMachine {q : Rights} {m : State} (h : Touch q (w.machine b) m) :
    Touch q (w.machine a) ((w.putMachine b m).machine a) := by
  rcases w.machine_putMachine b a m with ⟨hm, rfl⟩ | hm
  · rwa [hm]
  · rw [hm]
    exact .nothing

variable [Observer η] {P : VmId → Prop} {S : Powers}

theorem Deed.touch (h : Deed P S w w') (hs : Sound w) (hl : w.LiveAt vm a) :
    Touch (S.rights vm) (w.machine a) (w'.machine a) := by
  -- the machine that is written is this one, or another one
  have hat : ∀ {id b} {m : State}, w.LiveAt id b →
      (id = vm → Touch (S.rights vm) (w.machine b) m) →
      Touch (S.rights vm) (w.machine a) ((w.putMachine b m).machine a) := by
    intro id b m hlive h
    by_cases hvm : id = vm
    · exact touch_putMachine (h hvm)
    · have hne : a ≠ b := by
        rintro rfl
        exact hvm (hs.roster.eq_of_liveAt hlive hl)
      rw [World.machine_putMachine_ne _ hne]
      exact .nothing
  cases h with
  | idle | enter | use | enrol | found | listen | assign => exact .nothing
  | edit _ hlive h => exact hat hlive fun hvm => .edit (hvm ▸ h)
  | adopt _ _ _ ht => exact touch_putMachine (.storeHandle _ ht)
  | release => exact touch_putMachine (.releaseHandle _)
  | @bear id b x service owner index m f _ _ hq h =>
    obtain ⟨classIndex, hc, rfl⟩ := h.made
    have hmem := hs.roster.mem_natives h.delivery.live
    have hblock := World.not_mem_blockAddresses hmem h.delivery.fresh
    exact hat h.delivery.live (fun hvm => .bear (hvm ▸ hq) hc hblock _)

/-- **A chore touches a machine**, if the machine is alive behind it and is no new one. -/
theorem Chore.touch {K : Regime η} (h : Chore K w w') (hs : Sound w) (hl : w'.LiveAt vm a) :
    (w.LiveAt vm a ∧ Touch (K.rights vm) (w.machine a) (w'.machine a)) ∨
      (vm = w.nextVmId ∧ w'.machine a = .create 0) := by
  have hgiven : ∀ {b}, w.LiveAt vm a → b ∉ w.registered.keys → a ≠ b := by
    rintro _ hlive hb rfl
    exact hb (hs.roster.mem_registered hlive)
  cases h with
  | deed h =>
    have hold := ((h.gentle hs).live vm a).1 hl
    exact Or.inl ⟨hold, h.touch hs hold⟩
  | watch | keep | misreport => exact Or.inl ⟨hl, .nothing⟩
  | create policy ha _ =>
    rw [World.machine_withVm ha]
    rcases (World.liveAt_withVm ..).1 hl with ⟨hnew, rfl⟩ | ⟨-, hold⟩
    · exact Or.inr ⟨hnew, World.machine_of_not_mem ha⟩
    · exact Or.inl ⟨hold, .nothing⟩
  | retire _ hlive _ =>
    obtain ⟨-, hold⟩ := (World.liveAt_retired (World.mem_vms_of_isAlive hlive.1) ..).1 hl
    exact Or.inl ⟨hold, .nothing⟩
  | @discard b _ hreg =>
    have hsame : Touch (K.rights vm) (w.machine a)
        (World.machine { w with natives := w.natives.erase b } a) := by
      rw [World.machine, World.machine, Table.find?_erase_ne _ (hgiven hl hreg)]
      exact .nothing
    exact Or.inl ⟨hl, hsame⟩

omit [Observer η] in
/-- **A step of a collection touches a machine**, if the machine is alive. -/
theorem Sweeping.touch {l : Licence η} (h : Sweeping l w w') (hs : Sound w)
    (hl : w'.LiveAt vm a) : w.LiveAt vm a ∧ Touch .none (w.machine a) (w'.machine a) := by
  cases h with
  | sweep => exact ⟨hl, touch_putMachine .sweep⟩
  | @drain b _ hreg =>
    have hne : a ≠ b := by
      rintro rfl
      exact hreg (hs.roster.mem_registered hl)
    rw [World.machine_putMachine_ne _ hne]
    exact ⟨hl, .nothing⟩
  | bury _ _ h => exact ⟨hl, touch_putMachine (.endFinalizer h)⟩
  | @finalize b dead _ _ _ h =>
    have hlive : w.LiveAt vm a := by
      obtain ⟨services, hfinalized⟩ := w.finalized_eq b dead
      rw [hfinalized] at hl
      exact hl
    rw [machine_finalized]
    exact ⟨hlive, touch_putMachine (.beginFinalizer h)⟩

omit [Observer η] in
/-- Machines are numbered in order. -/
theorem Step.nextVmId_le (h : Step w w') : w.nextVmId ≤ w'.nextVmId := by
  cases h with
  | create => exact Nat.le_succ _
  | @finalize b dead =>
    obtain ⟨services, hfinalized⟩ := w.finalized_eq b dead
    rw [hfinalized]
    exact Nat.le_refl _
  | _ => exact Nat.le_refl _

omit [Observer η] in
theorem Steps.nextVmId_le (h : Steps w w') : w.nextVmId ≤ w'.nextVmId := by
  induction h with
  | refl => exact Nat.le_refl _
  | tail _ hlast ih => exact ih.trans hlast.nextVmId_le

end

/-! ## Regimes about one machine -/

/-- `Inv` holds of the machine `vm` at `a` as long as it is alive, and `Rel` between its states, if it
is written only as far as `q` allows. -/
def Regime.about (l : Licence η) (vm : VmId) (a : Address) (Inv : State → Prop)
    (Rel : State → State → Prop) (q : Rights := .all) : Regime η :=
  { l with
    rights := rightsAt vm q
    pre := fun w => w.LiveAt vm a → Inv (w.machine a)
    rel := fun _ w w' => w.nextVmId ≤ w'.nextVmId ∧ (vm < w.nextVmId → w'.LiveAt vm a →
      w.LiveAt vm a ∧ Rel (w.machine a) (w'.machine a))
    ends := fun _ w' => w'.LiveAt vm a → Inv (w'.machine a) }

/-- A property of a machine, and a relation between its states, that work of a host keeps as long as it
writes the machine only as far as `q` allows. -/
structure Tends (Inv : State → Prop) (Rel : State → State → Prop) (q : Rights := .all) : Prop where
  refl : ∀ m, Rel m m
  trans : ∀ ⦃m₁ m₂ m₃⦄, Rel m₁ m₂ → Rel m₂ m₃ → Rel m₁ m₃
  touch : ∀ {m m'}, Touch q m m' → (Inv m → Inv m') ∧ Rel m m'
  create : Inv (.create 0)

section

variable {l : Licence η} {vm : VmId} {a : Address} {Inv : State → Prop} {Rel : State → State → Prop}
  {q : Rights} (t : Tends Inv Rel q)
include t

theorem lawful_about [Observer η] : (Regime.about l vm a Inv Rel q : Regime η).Lawful where
  refl _ w := ⟨Nat.le_refl _, fun _ hl => ⟨hl, t.refl _⟩⟩
  trans h h' := by
    refine ⟨h.1.trans h'.1, fun hvm hl => ?_⟩
    obtain ⟨hmid, hrel'⟩ := h'.2 (hvm.trans_le h.1) hl
    obtain ⟨hstart, hrel⟩ := h.2 hvm hmid
    exact ⟨hstart, t.trans hrel hrel'⟩
  weaken hp _ := hp
  append _ h := h
  leave h := h
  chore hs hp h := by
    refine ⟨fun hl => ?_, fun _ => ⟨(h.step hs).nextVmId_le, fun hvm hl => ?_⟩⟩
    · rcases h.touch hs hl with ⟨hold, htouch⟩ | ⟨-, hblank⟩
      · exact (t.touch (htouch.mono (rightsAt_le vm q))).1 (hp hold)
      · rw [hblank]
        exact t.create
    · rcases h.touch hs hl with ⟨hold, htouch⟩ | ⟨hnew, -⟩
      · exact ⟨hold, (t.touch (htouch.mono (rightsAt_le vm q))).2⟩
      · exact absurd hnew (Nat.ne_of_lt hvm)
  sweeping hs hp h hl := by
    obtain ⟨hold, htouch⟩ := h.touch hs hl
    exact (t.touch (htouch.mono (Rights.none_le _))).1 (hp hold)

theorem sweeps_about : (Regime.about l vm a Inv Rel q : Regime η).Sweeps := by
  refine fun w w' hs _ h _ => ⟨h.step.nextVmId_le, fun _ hl => ?_⟩
  obtain ⟨hold, htouch⟩ := h.touch hs hl
  exact ⟨hold, (t.touch (htouch.mono (Rights.none_le _))).2⟩

end

/-! ## Runs of the machine -/

/-- Work in the middle of a run leads from rest to rest. -/
abbrev Passes (active : List Address) (a : Address) (r r' : Running (World (Host η))) : Prop :=
  Bridge.Moves active (world a r) (world a r')

/-- Work in the middle of a run ends the process, and leaves a machine of which `Inv` holds. -/
abbrev Leaves (vm : VmId) (a : Address) (active : List Address) (Inv : State → Prop)
    (r r' : Running (World (Host η))) : Prop :=
  Bridge.Reaches active (world a r) (world a r') ∧
    ((world a r').LiveAt vm a → Inv ((world a r').machine a))

theorem contained_callbacks [Observer η] {d : Delegates (Host η)} {a : Address} :
    (callbacks d a).Contained where
  write _ := contained_atHost a _
  report _ := contained_atHost a _
  resolve f hf _ _ := by
    cases hf
    exact contained_atHost a _
  load _ := contained_atHost a _
  bindClass _ _ := contained_atHost a _
  bindMethod _ := contained_atHost a _
  execute _ := contained_atHost a _
  allocate _ := contained_atHost a _

/-- The machine `vm` runs at `a`. -/
structure Working (vm : VmId) (a : Address) (active : List Address)
    (r : Running (World (Host η))) : Prop where
  steady : Steady active (world a r)
  live : (world a r).LiveAt vm a

section

variable {l : Licence η} {vm : VmId} {a : Address} {active : List Address} {d : Delegates (Host η)}
  {r t : Running (World (Host η))} {Inv : State → Prop} {Rel : State → State → Prop}

theorem Working.machine (h : Working vm a active r) : (world a r).machine a = r.machine :=
  machine_world (h.steady.sound.roster.mem_natives h.live)

theorem Working.mem_registered (h : Working vm a active r) : a ∈ (world a r).registered.keys :=
  h.steady.sound.roster.mem_registered h.live

theorem Working.known (h : Working vm a active r) : vm < (world a r).nextVmId :=
  h.steady.sound.roster.known vm (World.mem_vms_of_isAlive h.live.1)

theorem Working.owns (h : Working vm a active r) (hvm : l.allows vm) : l.Owns (world a r) a :=
  Licence.owns_of_liveAt h.steady.sound.roster hvm h.live

/-- Behind work from rest to rest, a machine that runs still does. -/
theorem Working.of_passes (h : Working vm a active r) (ha : a ∈ active) (hm : Passes active a r t) :
    Working vm a active t := by
  obtain ⟨-, hsteady, hheld⟩ := hm h.steady
  refine ⟨hsteady, (hsteady.sound.roster.registered a vm).1 ?_⟩
  rw [(hheld a ha).registered]
  exact (h.steady.sound.roster.registered a vm).2 h.live

theorem route_passes (active : List Address) :
    Route (fun r : Running (World (Host η)) => Working vm a active r ∧ Inv r.machine)
      (Passes active a) (Leaves vm a active Inv) where
  refl r := (span_moves active).refl (world a r)
  stop {r} h := by
    refine ⟨(span_moves active).weaken ((span_moves active).refl (world a r)), fun _ => ?_⟩
    rw [h.1.machine]
    exact h.2
  trans := (span_moves active).trans
  append h h' := ⟨(span_moves active).append h h'.1, h'.2⟩

/-- Behind the own work of a machine, it still runs. -/
theorem Working.of_frame {m : State} (h : Working vm a active r) (hm : Frame r.machine m) :
    Passes active a r { r with machine := m } ∧ Working vm a active { r with machine := m } := by
  have hmoves : Passes active a r { r with machine := m } := moves_own hm h.mem_registered
  refine ⟨hmoves, (hmoves h.steady).2.1, ?_⟩
  rw [world_put]
  exact h.live

/-- Behind work that keeps the regime, the machine still runs, as the regime says. -/
theorem Working.of_moves (h : Working vm a active r) (hinv : Inv r.machine) (ha : a ∈ active)
    (hm : (Regime.about l vm a Inv Rel).Moves active (world a r) (world a t)) :
    Passes active a r t ∧ Working vm a active t ∧ Inv t.machine ∧ Rel r.machine t.machine := by
  have hpre : (Regime.about l vm a Inv Rel).pre (world a r) := by
    intro _
    rwa [h.machine]
  obtain ⟨hmoves, hpre', -, hrel⟩ := hm h.steady hpre
  have hworking := h.of_passes ha hmoves
  have hinv' := hpre' hworking.live
  have hrel' := (hrel h.known hworking.live).2
  rw [hworking.machine] at hinv' hrel'
  rw [h.machine] at hrel'
  exact ⟨hmoves, hworking, hinv', hrel'⟩

/-- Behind a program of the host that has not ended the process, a machine that runs still does, as
the regime says. -/
theorem Working.of_program [Observer η] (h : Working vm a active r) (hinv : Inv r.machine)
    (ha : a ∈ active) (k : (Regime.about l vm a Inv Rel : Regime η).Sustained)
    {engines : List Address → Engine (Host η)} (hserves : (Regime.about l vm a Inv Rel).Serves engines)
    {p : Program η α} (hp : p.Obeys l) {outcome : Outcome Empty α} {w : World (Host η)}
    (hrun : p.run engines active (world a r) = (outcome, w)) (hend : outcome.isFinal = false) :
    Steady active w ∧ w.LiveAt vm a ∧ Inv (w.machine a) ∧ Rel r.machine (w.machine a) := by
  have hgoes : outcome.isFinal = false →
      (Regime.about l vm a Inv Rel).Moves active (world a r) w := by
    have hwithin : Within ((Regime.about l vm a Inv Rel).Moves active)
        ((Regime.about l vm a Inv Rel).Reaches active) (p.run engines active) (world a r) :=
      within_program k hserves p hp (world a r)
    have hgoes := hwithin.2
    rwa [hrun] at hgoes
  have hback : (Regime.about l vm a Inv Rel).Moves active (world a r)
      (world a ⟨w.machine a, w⟩) := by
    rw [world_machine]
    exact hgoes hend
  obtain ⟨-, ⟨hsteady, hlive⟩, hkept⟩ := h.of_moves hinv ha hback
  rw [world_machine] at hsteady hlive
  exact ⟨hsteady, hlive, hkept⟩

/-- Calls of the host keep what its functions keep. -/
theorem hosted_about [Observer η] (tends : Tends Inv Rel) (hvm : l.allows vm)
    (h : (Regime.about l vm a Inv Rel).Behaved active d) (ha : a ∈ active) :
    Hosted (fun r t => (Working vm a active r ∧ Inv r.machine) →
        Passes active a r t ∧ (Working vm a active t ∧ Inv t.machine) ∧ Rel r.machine t.machine)
      (fun r t => (Working vm a active r ∧ Inv r.machine) → Leaves vm a active Inv r t)
      (callbacks d a) := by
  have k : (Regime.about l vm a Inv Rel : Regime η).Lawful := lawful_about tends
  have hhosted : Hosted ((Regime.about l vm a Inv Rel).Turns a active)
      ((Regime.about l vm a Inv Rel).Ends a active) (callbacks d a) := hosted_callbacks k h
  refine hhosted.mono (fun {r t} hturns hok => ?_) fun {r t} hends hok => ?_
  · have hm := hturns hok.1.mem_registered (hok.1.owns hvm)
    obtain ⟨hpasses, hworking, hinv, hrel⟩ := hok.1.of_moves hok.2 ha hm
    exact ⟨hpasses, ⟨hworking, hinv⟩, hrel⟩
  · have hreaches := hends hok.1.mem_registered (hok.1.owns hvm) hok.1.steady fun _ => by
      rw [hok.1.machine]
      exact hok.2
    exact ⟨fun _ => hreaches.1, hreaches.2⟩

/-- Lasting work of the machine is work that keeps the regime. -/
theorem Working.within {x : Call (World (Host η)) α} (h : Working vm a active r)
    (hx : Lasting (fun r => Working vm a active r ∧ Inv r.machine) (Passes active a)
      (Leaves vm a active Inv) Rel (fun _ => True) x r) :
    Within ((Regime.about l vm a Inv Rel).Turns a active)
      ((Regime.about l vm a Inv Rel).Ends a active) x r := by
  rcases hxr : x r with ⟨b | e | w, t⟩
  · obtain ⟨hmoves, ⟨hworking, hinv'⟩, hrel⟩ := hx.value b t hxr
    have hturns : (Regime.about l vm a Inv Rel).Moves active (world a r) (world a t) := by
      refine fun hw _ => ⟨hmoves, fun _ => ?_, (hmoves hw).1.nextVmId_le, fun _ _ => ⟨h.live, ?_⟩⟩
      · rwa [hworking.machine]
      · rwa [h.machine, hworking.machine]
    have hends : (Regime.about l vm a Inv Rel).Reaches active (world a r) (world a t) := by
      refine fun hw _ => ⟨(hmoves hw).1, fun _ => ?_⟩
      rwa [hworking.machine]
    rw [Within, hxr]
    exact ⟨fun _ _ => hends, fun _ _ _ => hturns⟩
  · exact e.elim
  · obtain ⟨hfinal, hreaches⟩ := hx.halt w t hxr
    rw [Within, hxr]
    refine ⟨fun _ _ hw _ => ⟨hreaches.1 hw, hreaches.2⟩, fun hend => ?_⟩
    exact absurd hend (by simp [hfinal])

/-! ## Runs of other machines -/

/-- What runs at `b` is not the machine `vm` at `a`. -/
def Elsewhere (vm : VmId) (a b : Address) (r : Running (World (Host η))) : Prop :=
  b = a → ¬ (world b r).LiveAt vm a

/-- **A run of another machine** does nothing to the machine by itself. -/
theorem guest_elsewhere [Observer η] (tends : Tends Inv Rel) {b : Address}
    (h : (Regime.about l vm a Inv Rel).Behaved active d) (hb : b ∈ active) :
    Guest (fun r t => Elsewhere vm a b r → (Regime.about l vm a Inv Rel).Turns b active r t)
      (fun r t => Elsewhere vm a b r → (Regime.about l vm a Inv Rel).Ends b active r t)
      (callbacks d b) := by
  have k : (Regime.about l vm a Inv Rel : Regime η).Lawful := lawful_about tends
  have hspan := k.span_turns hb
  -- a run that is none of the machine goes on as one
  have hstays : ∀ {r t : Running (World (Host η))}, Elsewhere vm a b r →
      (Regime.about l vm a Inv Rel).Moves active (world b r) (world b t) →
        Steady active (world b r) → (Regime.about l vm a Inv Rel).pre (world b r) →
          Elsewhere vm a b t := by
    rintro r t hr hm hw hp rfl hl
    obtain ⟨-, hsteady, hheld⟩ := (hm hw hp).1 hw
    have hreg := (hsteady.sound.roster.registered b vm).2 hl
    rw [(hheld b hb).registered] at hreg
    exact hr rfl ((hw.sound.roster.registered b vm).1 hreg)
  refine ⟨(hosted_callbacks k h).mono (fun ht _ => ht) fun ht _ => ht, ?_, ?_⟩
  · refine ⟨fun r _ => hspan.refl r, fun ht hr => hspan.weaken (ht hr), ?_, ?_⟩
    · intro r t u h h' hr hreg ho hw hp
      have hm := h hr hreg ho
      have hheld := ((hm hw hp).1 hw).2.2 b hb
      exact k.span.trans hm (h' (hstays hr hm hw hp) (hheld.mem_registered.2 hreg)
        (hheld.owns ho)) hw hp
    · intro r t u h h' hr hreg ho hw hp
      have hm := h hr hreg ho
      have hheld := ((hm hw hp).1 hw).2.2 b hb
      exact k.span.append hm (h' (hstays hr hm hw hp) (hheld.mem_registered.2 hreg)
        (hheld.owns ho)) hw hp
  · intro r m hm hr hreg ho hw hp
    refine ⟨moves_own hm hreg, ?_⟩
    have hsame : (world b r).LiveAt vm a →
        ((world b r).putMachine b m).machine a = (world b r).machine a := by
      intro hl
      refine World.machine_putMachine_ne _ ?_ m
      rintro rfl
      exact hr rfl hl
    rw [world_put b r m]
    refine ⟨fun hl => ?_, Nat.le_refl _, fun _ hl => ⟨hl, ?_⟩⟩
    · rw [hsame hl]
      exact hp hl
    · rw [hsame hl]
      exact tends.refl _

/-- What runs of the machine itself do among the callbacks of a host. -/
structure Mine (l : Licence η) (vm : VmId) (a : Address) (active : List Address)
    (Inv : State → Prop) (Rel : State → State → Prop) (cb : Callbacks (World (Host η))) : Prop where
  interpret : ∀ {r}, Working vm a active r ∧ Inv r.machine → ∀ depth module source,
    Lasting (fun r => Working vm a active r ∧ Inv r.machine) (Passes active a)
      (Leaves vm a active Inv) Rel (fun _ => True) (Machine.interpret cb depth module source) r
  call : l.calls → ∀ {r}, Working vm a active r ∧ Inv r.machine → ∀ handle,
    Lasting (fun r => Working vm a active r ∧ Inv r.machine) (Passes active a)
      (Leaves vm a active Inv) Rel (fun _ => True) (Machine.callHandle cb handle) r

/-- A run keeps a regime about a machine, if it does where it is a run of the machine itself, and
where it is one of another machine. -/
theorem within_about {b : Address} {x : Call (World (Host η)) α} (hb : b ∈ active)
    (hmine : b = a → Working vm a active r ∧ Inv r.machine →
      Lasting (fun r => Working vm a active r ∧ Inv r.machine) (Passes active a)
        (Leaves vm a active Inv) Rel (fun _ => True) x r)
    (helse : ∀ r, Within
      (fun r t => Elsewhere vm a b r → (Regime.about l vm a Inv Rel).Turns b active r t)
      (fun r t => Elsewhere vm a b r → (Regime.about l vm a Inv Rel).Ends b active r t) x r) :
    Within ((Regime.about l vm a Inv Rel).Turns b active)
      ((Regime.about l vm a Inv Rel).Ends b active) x r := by
  by_cases hown : b = a ∧ (world b r).LiveAt vm b
  · obtain ⟨rfl, hl⟩ := hown
    have hwithin : Steady active (world b r) → (Regime.about l vm b Inv Rel).pre (world b r) →
        Within ((Regime.about l vm b Inv Rel).Turns b active)
          ((Regime.about l vm b Inv Rel).Ends b active) x r := by
      intro hw hp
      have hinv := hp hl
      rw [machine_world (hw.native b hb)] at hinv
      exact Working.within ⟨hw, hl⟩ (hmine rfl ⟨⟨hw, hl⟩, hinv⟩)
    exact ⟨fun hreg ho hw hp => (hwithin hw hp).1 hreg ho hw hp,
      fun hend hreg ho hw hp => (hwithin hw hp).2 hend hreg ho hw hp⟩
  · have helsewhere : Elsewhere vm a b r := by
      rintro rfl hl
      exact hown ⟨rfl, hl⟩
    exact (helse r).mono (fun ht => ht helsewhere) fun ht => ht helsewhere

theorem within_interpret_about [Observer η] (tends : Tends Inv Rel) {b : Address} (hb : b ∈ active)
    (h : (Regime.about l vm a Inv Rel).Behaved active d)
    (hmine : b = a → Mine l vm a active Inv Rel (callbacks d a)) (depth : Nat)
    (module source : String) (r : Running (World (Host η))) :
    Within ((Regime.about l vm a Inv Rel).Turns b active)
      ((Regime.about l vm a Inv Rel).Ends b active)
      (Machine.interpret (callbacks d b) depth module source) r := by
  refine within_about hb (fun heq hr => ?_)
    (Machine.within_interpret (guest_elsewhere tends h hb) depth module source)
  subst heq
  exact (hmine rfl).interpret hr depth module source

theorem within_callHandle_about [Observer η] (tends : Tends Inv Rel) {b : Address}
    (hb : b ∈ active) (h : (Regime.about l vm a Inv Rel).Behaved active d)
    (hmine : b = a → Mine l vm a active Inv Rel (callbacks d a)) (hcalls : l.calls)
    (handle : Nat) (r : Running (World (Host η))) :
    Within ((Regime.about l vm a Inv Rel).Turns b active)
      ((Regime.about l vm a Inv Rel).Ends b active)
      (Machine.callHandle (callbacks d b) handle) r := by
  refine within_about hb (fun heq hr => ?_)
    (Machine.within_callHandle (guest_elsewhere tends h hb) handle)
  subst heq
  exact (hmine rfl).call hcalls hr handle

/-- **Runs keep a regime about a machine that the runs of the machine itself keep.** -/
theorem runs_about [Observer η] (tends : Tends Inv Rel)
    (hown : ∀ {active : List Address} {d : Delegates (Host η)}, a ∈ active →
      (Regime.about l vm a Inv Rel).Behaved active d → Mine l vm a active Inv Rel (callbacks d a)) :
    (Regime.about l vm a Inv Rel : Regime η).Runs where
  interpret hb h := within_interpret_about tends hb h fun heq => hown (heq ▸ hb) h
  call hcalls _ _ _ hb h :=
    within_callHandle_about tends hb h (fun heq => hown (heq ▸ hb) h) hcalls

/-- **Machines keep a regime about one of them**, if its own runs among the callbacks at hand do. -/
theorem drives_about [Observer η] (tends : Tends Inv Rel)
    {engines : List Address → Engine (Host η)}
    (h : (Regime.about l vm a Inv Rel : Regime η).Serves engines)
    (hown : ∀ active, a ∈ active →
      Mine l vm a active Inv Rel (callbacks (engines active).delegates a)) :
    (Regime.about l vm a Inv Rel : Regime η).Drives engines where
  interpret {_ active} hb :=
    within_interpret_about tends hb (h.behaved active) fun heq => hown active (heq ▸ hb)
  call hcalls _ active hb :=
    within_callHandle_about tends hb (h.behaved active) (fun heq => hown active (heq ▸ hb)) hcalls
  gathers := h.gathers

end

/-! ## Relations that all work keeps -/

section

variable [Observer η] {vm : VmId} {a : Address} {active : List Address} {d : Delegates (Host η)}
  {Inv : State → Prop} {Rel U : State → State → Prop} (tends : Tends Inv Rel)
  (balanced : Machine.Balanced Rel Rel U)
  (hinner : ∀ {m m' : State}, Machine.Inner m m' → Inv m → Inv m')
include tends balanced hinner

/-- The machine runs among calls of its host that keep what is said of it. -/
theorem steered_about (ha : a ∈ active)
    (h : (Regime.about .free vm a Inv Rel).Behaved active d) :
    Steered (fun r => Working vm a active r ∧ Inv r.machine) (Passes active a)
      (Leaves vm a active Inv) Rel Rel U (callbacks d a) := by
  refine .of_hosted (route_passes active) balanced (fun hok hm => ?_)
    (hosted_about tends trivial h ha) contained_callbacks
  obtain ⟨hpasses, hworking⟩ := hok.1.of_frame hm.toFrame
  exact ⟨hpasses, hworking, hinner hm hok.2⟩

/-- **All work of a host keeps what is said of a machine** that entry points and the parts of a run
keep. -/
theorem upheld_about (hset : ∀ m v, Rel m (m.setSlot 0 v)) :
    (Regime.about .free vm a Inv Rel : Regime η).Upheld where
  lawful := lawful_about tends
  frank _ := le_rightsAt _ _
  sweeps _ := sweeps_about tends
  runs := by
    refine runs_about tends fun ha h => ?_
    have p := steered_about tends balanced hinner ha h
    exact ⟨fun hr depth module source => Machine.lasting_interpret p hr depth module source,
      fun _ {_} hr handle => Machine.lasting_callHandle p hr hset handle⟩

end

/-- A relation between the states of the machine `vm` at `a`, whatever the host does. -/
abbrev Regime.relating (vm : VmId) (a : Address) (Rel : State → State → Prop) : Regime η :=
  .about .free vm a (fun _ => True) Rel

section

variable [Observer η] {vm : VmId} {a : Address} {active : List Address} {d : Delegates (Host η)}
  {Rel U : State → State → Prop} (tends : Tends (fun _ => True) Rel)
  (balanced : Machine.Balanced Rel Rel U)
include tends balanced

/-- The machine runs among calls of its host that keep the relation. -/
theorem steered_relating (ha : a ∈ active) (h : (Regime.relating vm a Rel).Behaved active d) :
    Steered (Working vm a active) (Passes active a) (Leaves vm a active fun _ => True) Rel Rel U
      (callbacks d a) := by
  have p := steered_about tends balanced (fun _ => id) ha h
  simpa only [and_true] using p

/-- **All work of a host keeps a relation between the states of a machine** that entry points and the
parts of a run keep. -/
theorem upheld_relating (hset : ∀ m v, Rel m (m.setSlot 0 v)) :
    (Regime.relating vm a Rel : Regime η).Upheld :=
  upheld_about tends balanced (fun _ => id) hset

end

/-! ## Relations about the table of modules -/

section

variable {Rel : State → State → Prop} (htrans : ∀ ⦃s t u⦄, Rel s t → Rel t u → Rel s u)
  (hsame : ∀ {s t : State}, t.modules = s.modules → Rel s t)
include htrans hsame

theorem tends_of_modules : Tends (fun _ => True) Rel where
  refl _ := hsame rfl
  trans := htrans
  touch h := ⟨id, hsame h.modules⟩
  create := trivial

variable (hown : ∀ {s t : State}, Machine.Own s t → Rel s t)
include hown

theorem balanced_of_modules : Machine.Balanced Rel Rel Rel where
  refl _ := hsame rfl
  trans := htrans
  own := hown
  call {s t frame} h := by
    have henter : Rel s (s.enterFrame frame) := hsame rfl
    have hleave : Rel t t.leaveFrame := hsame rfl
    exact htrans (htrans henter h) hleave
  pinning h := h
  transPinning := htrans
  pin _ _ := hsame rfl
  unpin {s t} h := by
    have hunpin : Rel t (t.unpinTo s.pins.length) := hsame rfl
    exact htrans h hunpin

variable [Observer η] {vm : VmId} {a : Address} {active : List Address} {d : Delegates (Host η)}

/-- **All work of a host keeps a relation about the modules of a machine** that evaluation keeps by
itself: nothing else changes them. -/
theorem upheld_of_modules (vm : VmId) (a : Address) :
    (Regime.relating vm a Rel : Regime η).Upheld :=
  upheld_relating (tends_of_modules htrans hsame) (balanced_of_modules htrans hsame hown)
    fun m v => hsame (State.setSlot_modules m 0 v)

theorem steered_of_modules (ha : a ∈ active) (h : (Regime.relating vm a Rel).Behaved active d) :
    Steered (Working vm a active) (Passes active a) (Leaves vm a active fun _ => True) Rel Rel Rel
      (callbacks d a) :=
  steered_relating (tends_of_modules htrans hsame) (balanced_of_modules htrans hsame hown) ha h

end

end ScriptHost.Bridge
