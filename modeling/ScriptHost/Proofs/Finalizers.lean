import ScriptHost.Proofs.Lives

/-!
# Finalizers and what they are told

When the turn of a swept object has come, its entry is taken out of the registry of its service, and
then functions of the host run: the finalizer of the class first, and then the one that is registered
by then for the type of the payload (`Instance.Finalized`).  Both are told of the entry that was taken
out.

A foreign object lives as long as it remains, and then its finalizers run once (`Instance.Ends`).  This
is a regime of all work of a host, for the objects that are there and those that are born on the way
(`Attends`), since the finalizers of other objects let an object remain.
-/

namespace ScriptHost.Bridge

open Machine (State Dead Block Key Running)
open Run (Within)

variable {η : Type}

/-! ## The calls of a finalizer -/

/-- A function of the host runs, if there is one. -/
def Calls (function? : Option (Effect (Host η) Unit)) (w w' : World (Host η)) : Prop :=
  match function? with
  | none => w' = w
  | some function => function w = (.value (), w')

/-- The finalizers of an object run whose entry `e` has been taken out: the one of its class, and then
the one that is registered for the type of its payload by then. -/
def Instance.FinalizersRun (o : Instance) (d : Delegates (Host η)) (classFinalizer? : Option Delegate)
    (e : Entry) (w w' : World (Host η)) : Prop :=
  ∃ w₁,
    Calls (classFinalizer?.map fun f =>
      d.classFinalizer f ⟨o.address, some e.tag, some e.holding.payload⟩) w w₁ ∧
    Calls (((w₁.service o.service).payloads.finalizer? e).map fun f =>
      d.typedFinalizer f e.holding.payload) w₁ w'

/-- The next swept object of a machine is finalized. -/
structure Instance.Finalized (o : Instance) (d : Delegates (Host η)) (e : Entry)
    (w w' : World (Host η)) : Prop where
  next : ∃ rest, (w.machine o.machine).swept = o.dead :: rest
  entry : o.record? w = some e
  /-- Nothing is tracked for the object when its finalizers begin. -/
  taken : o.record? (w.finalized o.machine o.dead) = none
  run : ∃ w₁, o.FinalizersRun d (o.classFinalizer? w) e (w.finalized o.machine o.dead) w₁ ∧
    w' = w₁.buried o.machine

section

variable [Observer η] {d : Delegates (Host η)} {o : Instance} {e : Entry} {a : Address}
  {w w' : World (Host η)}

theorem Trampoline.runFinalizers_of_entry {service : ServiceId} {address : Address}
    {classFinalizer? : Option Delegate} {found : Bool}
    (h : runFinalizers d service address classFinalizer? (some e) w = (.value found, w')) :
    ∃ w₁,
      Calls (classFinalizer?.map fun f =>
        d.classFinalizer f ⟨address, some e.tag, some e.holding.payload⟩) w w₁ ∧
      Calls (((w₁.service service).payloads.finalizer? e).map fun f =>
        d.typedFinalizer f e.holding.payload) w₁ w' := by
  -- behind the finalizer of its class, an object is finalized as if there were none
  have hrest : ∀ {t : World (Host η)},
      runFinalizers d service address none (some e) t = (.value found, w') →
        Calls (((t.service service).payloads.finalizer? e).map fun f =>
          d.typedFinalizer f e.holding.payload) t w' := by
    intro t ht
    obtain ⟨finalizer?, t', hread, hrun⟩ := Run.value_of_bind ht
    cases hread
    cases hfinalizer : (t.service service).payloads.finalizer? e with
    | none =>
      rw [hfinalizer] at hrun
      exact (congrArg Prod.snd hrun).symm
    | some f =>
      rw [hfinalizer] at hrun
      obtain ⟨_, t', hcall, hend⟩ := Run.value_of_bind hrun
      obtain rfl : t' = w' := congrArg Prod.snd hend
      exact hcall
  cases classFinalizer? with
  | none => exact ⟨w, rfl, hrest h⟩
  | some f =>
    obtain ⟨_, w₁, hcall, ht⟩ := Run.value_of_bind h
    exact ⟨w₁, hcall, hrest ht⟩

/-- A finalizer takes the entry out first, and then runs what the host has registered. -/
theorem Trampoline.finalize_eq {address : Address} (hpos : address ≠ 0) (service : ServiceId)
    (key : Key) (w : World (Host η)) :
    finalize d ⟨address, some service⟩ key w =
      (runFinalizers d service address
          (((w.service service).bindings.class? key).bind ClassBinding.finalizer?)
          ((w.service service).payloads.entries.find? address) >>= fun _ => pure ())
        (w.unload ⟨address, some service⟩) := by
  unfold finalize World.unload
  simp only [if_neg hpos]
  rfl

/-- The calls for an object, as its machine makes them. -/
theorem finalizersRun_of_callFinalizer {r t : Running (World (Host η))}
    (hn : o.machine ∈ r.host.natives.keys) (hpos : o.address ≠ 0)
    (hentry : o.record? (world o.machine r) = some e)
    (h : Machine.callFinalizer (callbacks d o.machine) o.dead
      { r with machine := r.machine.beginFinalizer o.dead } = (.value (), t)) :
    o.FinalizersRun d (o.classFinalizer? (world o.machine r)) e
      ((world o.machine r).finalized o.machine o.dead) (world o.machine t) := by
  have hstart : (world o.machine r).finalized o.machine o.dead =
      (world o.machine { r with machine := r.machine.beginFinalizer o.dead }).unload
        ⟨o.address, some o.service⟩ := by
    rw [world_beginFinalizer hn]
    rfl
  obtain ⟨hout, hworld⟩ := world_atHost (a := o.machine)
    (Trampoline.finalize d ⟨o.address, some o.service⟩ o.key)
    { r with machine := r.machine.beginFinalizer o.dead }
  have hcall : atHost o.machine (Trampoline.finalize d ⟨o.address, some o.service⟩ o.key)
      { r with machine := r.machine.beginFinalizer o.dead } = (.value (), t) := h
  rw [hcall] at hout hworld
  have hrun := Run.value_of_sealed (Prod.ext hout.symm hworld.symm)
  rw [Trampoline.finalize_eq hpos, ← hstart] at hrun
  obtain ⟨found, t', hfinalizers, hend⟩ := Run.value_of_bind hrun
  obtain rfl : t' = world o.machine t := congrArg Prod.snd hend
  have hfound : ((world o.machine { r with machine := r.machine.beginFinalizer o.dead }).service
      o.service).payloads.entries.find? o.address = some e := hentry
  rw [hfound] at hfinalizers
  exact Trampoline.runFinalizers_of_entry hfinalizers

end

/-! ## How an object fares -/

/-- An object lives on, and then its finalizers run. -/
inductive Instance.Ends [Observer η] (o : Instance) (code : Code η) (importDepth : Nat)
    (w w' : World (Host η)) : Prop where
  | intro {assigned : List Payload} {w₁ w₂ : World (Host η)} {e : Entry} {depth : Nat}
      {active : List Address} (h : o.Lives w assigned w₁)
      (hf : o.Finalized (code.engines importDepth depth active).delegates e w₁ w₂)
      (h' : Steps w₂ w')

/-- How an object fares during work of the host: it remains, with the payloads that are assigned to
it, or its finalizers run, once it has left the heap.  They may not come to an end if the process
does. -/
inductive Instance.Fares [Observer η] (o : Instance) (code : Code η) (importDepth : Nat)
    (ended : Prop) (w w' : World (Host η)) : Prop where
  | remains {assigned : List Payload} (h : o.Lives w assigned w')
  | finalizing {assigned : List Payload} {w₁ : World (Host η)} {rest : List Dead} (he : ended)
      (h : o.Lives w assigned w₁) (hswept : (w₁.machine o.machine).swept = o.dead :: rest)
      (h' : Steps (w₁.finalized o.machine o.dead) w')
  | finalized (h : o.Ends code importDepth w w')

namespace Instance

variable [Observer η] {o : Instance} {code : Code η} {importDepth : Nat} {ended : Prop}
  {w₁ w₂ w₃ : World (Host η)}

theorem Ends.of_lives {assigned : List Payload} (h : o.Lives w₁ assigned w₂)
    (h' : o.Ends code importDepth w₂ w₃) : o.Ends code importDepth w₁ w₃ := by
  obtain ⟨hlives, hf, hsteps⟩ := h'
  exact ⟨h.trans hlives, hf, hsteps⟩

theorem Ends.trans (h : o.Ends code importDepth w₁ w₂) (hs : Steps w₂ w₃) :
    o.Ends code importDepth w₁ w₃ := by
  obtain ⟨hlives, hf, hsteps⟩ := h
  exact ⟨hlives, hf, hsteps.trans hs⟩

namespace Fares

theorem of_lives {assigned : List Payload} (h : o.Lives w₁ assigned w₂)
    (h' : o.Fares code importDepth ended w₂ w₃) : o.Fares code importDepth ended w₁ w₃ := by
  cases h' with
  | remains h' => exact .remains (h.trans h')
  | finalizing he h' hswept hsteps => exact .finalizing he (h.trans h') hswept hsteps
  | finalized h' => exact .finalized (h'.of_lives h)

theorem of_passes (h : o.Passes w₁ w₂) (ho : o.Remains w₁) : o.Fares code importDepth ended w₁ w₂ :=
  .remains (h.lives ho)

/-- Work that goes on behind other work. -/
theorem trans (h : o.Fares code importDepth False w₁ w₂) (hs : Steps w₂ w₃)
    (h' : o.Remains w₂ → o.Fares code importDepth ended w₂ w₃) :
    o.Fares code importDepth ended w₁ w₃ := by
  cases h with
  | remains h => exact .of_lives h (h' h.remains)
  | finalizing he => exact he.elim
  | finalized h => exact .finalized (h.trans hs)

theorem weaken (h : o.Fares code importDepth False w₁ w₂) :
    o.Fares code importDepth ended w₁ w₂ := by
  cases h with
  | remains h => exact .remains h
  | finalizing he => exact he.elim
  | finalized h => exact .finalized h

/-- An object that ends if it remains, ends. -/
theorem ends (h : o.Fares code importDepth False w₁ w₂) (hs : Steps w₂ w₃)
    (h' : o.Remains w₂ → o.Ends code importDepth w₂ w₃) : o.Ends code importDepth w₁ w₃ := by
  cases h with
  | remains h => exact (h' h.remains).of_lives h
  | finalizing he => exact he.elim
  | finalized h => exact h.trans hs

end Fares

end Instance

/-- What work of a host does about foreign objects: those that are there fare as they should, and so do
those that are born on the way. -/
structure Attends [Observer η] (code : Code η) (importDepth : Nat) (ended : Prop)
    (w w' : World (Host η)) : Prop where
  remaining : ∀ o : Instance, o.Remains w → o.Fares code importDepth ended w w'
  newborn : ∃ births, Traced w births w' ∧
    ∀ b ∈ births, b.1.Fares code importDepth ended b.2 w'

namespace Attends

variable [Observer η] {code : Code η} {importDepth : Nat} {ended : Prop}
  {w w' w₁ w₂ w₃ : World (Host η)}

theorem steps (h : Attends code importDepth ended w w') : Steps w w' := by
  obtain ⟨births, htraced, -⟩ := h.newborn
  exact htraced.steps

theorem refl (w : World (Host η)) : Attends code importDepth ended w w :=
  ⟨fun _ ho => .remains (.start ho), [], .start, fun _ hb => absurd hb List.not_mem_nil⟩

theorem trans (h : Attends code importDepth False w₁ w₂) (h' : Attends code importDepth ended w₂ w₃) :
    Attends code importDepth ended w₁ w₃ := by
  obtain ⟨births, htraced, hfares⟩ := h.newborn
  obtain ⟨births', htraced', hfares'⟩ := h'.newborn
  refine ⟨fun o ho => (h.remaining o ho).trans h'.steps (h'.remaining o), births ++ births',
    htraced.trans htraced', fun b hb => ?_⟩
  rcases List.mem_append.1 hb with hb | hb
  · exact (hfares b hb).trans h'.steps (h'.remaining b.1)
  · exact hfares' b hb

theorem weaken (h : Attends code importDepth False w w') : Attends code importDepth ended w w' := by
  obtain ⟨births, htraced, hfares⟩ := h.newborn
  exact ⟨fun o ho => (h.remaining o ho).weaken, births, htraced, fun b hb => (hfares b hb).weaken⟩

/-- What is born at a step fares as all that is there behind it. -/
theorem newborn_of_step (hs : Step w₁ w₂) (r : Roster w₁) (t : Tracking w₁)
    (h : Attends code importDepth ended w₂ w₃) : ∃ births, Traced w₁ births w₃ ∧
      ∀ b ∈ births, b.1.Fares code importDepth ended b.2 w₃ := by
  obtain ⟨births, htraced, hfirst⟩ := hs.traced r t
  obtain ⟨births', htraced', hfares'⟩ := h.newborn
  refine ⟨births ++ births', htraced.trans htraced', fun b hb => ?_⟩
  rcases List.mem_append.1 hb with hb | hb
  · obtain ⟨-, honHeap, -⟩ := htraced.steps_of_mem hb
    rw [hfirst b hb] at honHeap ⊢
    exact h.remaining b.1 honHeap.remains
  · exact hfares' b hb

/-- A step at which the objects that are there fare as they should. -/
theorem of_step (hs : Step w w') (r : Roster w) (t : Tracking w)
    (h : ∀ o : Instance, o.Remains w → o.Fares code importDepth ended w w') :
    Attends code importDepth ended w w' :=
  ⟨h, newborn_of_step hs r t (.refl w')⟩

end Attends

/-- Everything may be done, and all foreign objects fare as they should. -/
def Regime.faring [Observer η] (code : Code η) (importDepth : Nat) : Regime η :=
  { Licence.free with
    pre := Tracking
    rel := fun _ w w' => Attends code importDepth False w w'
    ends := fun w w' => Attends code importDepth True w w' }

section

variable [Observer η] {code : Code η} {importDepth : Nat}

theorem lawful_faring : (Regime.faring code importDepth).Lawful where
  refl _ w := .refl w
  trans h h' := h.trans h'
  weaken _ h := h.weaken
  append h h' := h.trans h'
  leave h := h
  chore hs t h := by
    have hstep := h.step hs
    refine ⟨hstep.tracking hs.roster t, fun _ => .of_step hstep hs.roster t fun o ho => ?_⟩
    obtain ⟨assigned, hlives⟩ := h.lives hs t ho
    exact .remains hlives
  sweeping hs t h := h.step.tracking hs.roster t

theorem sustained_faring : (Regime.faring code importDepth).Sustained where
  lawful := lawful_faring
  frank _ := Machine.Rights.le_all _
  runs := by
    refine lawful_faring.runs fun {active w vm a m} hs t hl _ hf => ?_
    have ha := hs.roster.mem_registered hl
    have hstep : Step w (w.putMachine a m) := .work ha hf
    exact ⟨hstep.tracking hs.roster t, .of_step hstep hs.roster t fun o ho =>
      .of_passes (Instance.passes_work t ha hf ho) ho⟩

/-! ## Swept objects -/

/-- What the host does about a swept object: nothing, if its class is bound to nothing. -/
def RunsFor (d : Delegates (Host η)) (a : Address) (dead : Dead) (w w₁ : World (Host η)) : Prop :=
  (dead.finalize? = none → w₁ = w.finalized a dead) ∧
    ∀ o : Instance, o.machine = a → o.dead = dead → ∃ e, o.record? w = some e ∧
      o.FinalizersRun d (o.classFinalizer? w) e (w.finalized a dead) w₁

/-- What is done about a swept object. -/
def FinalizesDead (d : Delegates (Host η)) (a : Address) (dead : Dead) (w w' : World (Host η)) :
    Prop :=
  (dead.finalize? = none → w' = (w.finalized a dead).buried a) ∧
    ∀ o : Instance, o.machine = a → o.dead = dead → ∃ e, o.Finalized d e w w'

omit [Observer η] in
/-- Nothing is tracked for an object any more when its finalizers begin. -/
theorem Tracking.taken {w : World (Host η)} (t : Tracking w) {o : Instance} {rest : List Dead}
    (hswept : (w.machine o.machine).swept = o.dead :: rest) :
    o.record? (w.finalized o.machine o.dead) = none := by
  refine Table.find?_eq_none_iff.2 fun hin => ?_
  exact ((t.tracked_finalized hswept o.service o.address).1 hin).2 ⟨rfl, rfl⟩

/-- What a machine calls for a swept object is what the host is to do about it. -/
theorem runsFor_callFinalizer {d : Delegates (Host η)} {a : Address} {dead : Dead} {rest : List Dead}
    {r u : Running (World (Host η))} (hn : a ∈ r.host.natives.keys) (t : Tracking (world a r))
    (hswept : ((world a r).machine a).swept = dead :: rest)
    (h : Machine.callFinalizer (callbacks d a) dead
      { r with machine := r.machine.beginFinalizer dead } = (.value (), u)) :
    RunsFor d a dead (world a r) (world a u) := by
  refine ⟨fun hnone => ?_, ?_⟩
  · have hcall : Machine.callFinalizer (callbacks d a) dead = pure () := by
      rw [Machine.callFinalizer, hnone]
    rw [hcall] at h
    obtain rfl : { r with machine := r.machine.beginFinalizer dead } = u := congrArg Prod.snd h
    rw [world_beginFinalizer hn, World.finalized, hnone]
    rfl
  · rintro o rfl rfl
    have ho : o.Remains (world o.machine r) := Or.inr (hswept ▸ List.mem_cons_self)
    obtain ⟨e, hentry⟩ := ho.exists_entry t
    obtain ⟨_, -, hpos, -, -⟩ := t.attached o.machine o.dead ho.carries
    exact ⟨e, hentry, finalizersRun_of_callFinalizer hn hpos hentry h⟩

section

variable {w w' u : World (Host η)} {a : Address} {dead : Dead} {rest : List Dead} {ended : Prop}

/-- The finalizers of other objects let an object remain. -/
theorem Attends.elsewhere (h : Attends code importDepth ended (w.finalized a dead) w')
    (t : Tracking w) (hn : a ∈ w.natives.keys) (hswept : (w.machine a).swept = dead :: rest)
    {o : Instance} (hother : ¬ (o.machine = a ∧ o.dead = dead)) (ho : o.Remains w) :
    o.Fares code importDepth ended w w' := by
  have hpasses := Instance.passes_finalized t hn hswept hother ho
  exact .of_lives (hpasses.lives ho) (h.remaining o hpasses.remains)

/-- The process ends while a swept object is finalized. -/
theorem Attends.finalizing (h : Attends code importDepth True (w.finalized a dead) w') (r : Roster w)
    (t : Tracking w) (hn : a ∈ w.natives.keys) (hswept : (w.machine a).swept = dead :: rest) :
    Attends code importDepth True w w' := by
  refine ⟨fun o ho => ?_, h.newborn_of_step (.finalize hn hswept) r t⟩
  by_cases hself : o.machine = a ∧ o.dead = dead
  · obtain ⟨rfl, rfl⟩ := hself
    exact .finalizing trivial (.start ho) hswept h.steps
  · exact h.elsewhere t hn hswept hself ho

/-- The finalizers of a swept object have run, and its data block goes. -/
theorem Attends.buried {depth : Nat} {active : List Address}
    (h : Attends code importDepth False (w.finalized a dead) u) (r : Roster w) (t : Tracking w)
    (hn : a ∈ w.natives.keys) (hswept : (w.machine a).swept = dead :: rest) (r' : Roster u)
    (t' : Tracking u) (hn' : a ∈ u.natives.keys)
    (hruns : RunsFor (code.engines importDepth depth active).delegates a dead w u) :
    Attends code importDepth False w (u.buried a) ∧
      FinalizesDead (code.engines importDepth depth active).delegates a dead w (u.buried a) := by
  have hlast : Attends code importDepth False u (u.buried a) :=
    .of_step (.bury hn') r' t' fun o ho => .of_passes (Instance.passes_buried hn' ho) ho
  have hall := h.trans hlast
  have hdead : ∀ o : Instance, o.machine = a → o.dead = dead →
      ∃ e, o.Finalized (code.engines importDepth depth active).delegates e w (u.buried a) := by
    rintro o rfl rfl
    obtain ⟨e, hentry, hrun⟩ := hruns.2 o rfl rfl
    exact ⟨e, ⟨rest, hswept⟩, hentry, t.taken hswept, u, hrun, rfl⟩
  refine ⟨⟨fun o ho => ?_, hall.newborn_of_step (.finalize hn hswept) r t⟩, fun hnone => ?_, hdead⟩
  · by_cases hself : o.machine = a ∧ o.dead = dead
    · obtain ⟨e, hfinalized⟩ := hdead o hself.1 hself.2
      exact .finalized ⟨.start ho, hfinalized, .refl⟩
    · exact hall.elsewhere t hn hswept hself ho
  · rw [hruns.1 hnone]

end

/-- **What is done about a swept object**: its finalizers run, and all other objects fare as they
should. -/
theorem lays_faring {active : List Address} {a : Address} {depth : Nat}
    (h : (Regime.faring code importDepth).Finalizers active
      (code.engines importDepth depth active).delegates) (ha : a ∈ active) :
    (Regime.faring code importDepth).Lays
      (fun dead w w' => ((Regime.faring code importDepth).pre w' ∧
          (Regime.faring code importDepth).rel active w w') ∧
        FinalizesDead (code.engines importDepth depth active).delegates a dead w w')
      (fun _ => (Regime.faring code importDepth).ends) active a
      (code.engines importDepth depth active).delegates := by
  have k : (Regime.faring code importDepth).Lawful := lawful_faring
  intro dead rest r hw t ho hswept
  have hr : Roster (world a r) := hw.sound.roster
  have hn : a ∈ (world a r).natives.keys := hw.native a ha
  have hwf := hw.finalized ha hswept
  have htf := Step.tracking (.finalize hn hswept) hr t
  have hcall : Within _ _ _ _ := within_callFinalizer k h dead r (World.mem_natives_putMachine.1 hn)
  have hone := within_finalizeOne
    (X := fun u => (Tracking u ∧ (Regime.faring code importDepth).rel active
      ((world a r).finalized a dead) u) ∧
        RunsFor (code.engines importDepth depth active).delegates a dead (world a r) u)
    (Y := (Regime.faring code importDepth).ends ((world a r).finalized a dead)) ha hw hswept
    ⟨hcall.1 hwf htf, fun hend => ?_⟩
  · -- behind the finalizers the data block goes, and that is all that is left to do
    have hburied : ∀ {t' : World (Host η)}, (∃ u, Steady active u ∧ ((Tracking u ∧
        (Regime.faring code importDepth).rel active ((world a r).finalized a dead) u) ∧
          RunsFor (code.engines importDepth depth active).delegates a dead (world a r) u) ∧
        Held ((world a r).finalized a dead) u a ∧ t' = u.buried a) →
        (Tracking t' ∧ (Regime.faring code importDepth).rel active (world a r) t') ∧
          FinalizesDead (code.engines importDepth depth active).delegates a dead (world a r) t' := by
      rintro t' ⟨u, hsteady, ⟨⟨htu, hattends⟩, hruns⟩, -, rfl⟩
      have hnu : a ∈ u.natives.keys := hsteady.native a ha
      obtain ⟨hall, hdead⟩ :=
        hattends.buried hr t hn hswept hsteady.sound.roster htu hnu hruns
      exact ⟨⟨Step.tracking (.bury hnu) hsteady.sound.roster htu, hall⟩, hdead⟩
    refine hone.mono (fun hout => ?_) fun hout => ?_
    · obtain ⟨hkept, hdead⟩ := hburied hout.2
      exact ⟨hout.1, hkept.1, hkept, hdead⟩
    · obtain ⟨hsteps, hattends | ⟨hspent, hleft⟩⟩ := hout
      · exact ⟨hsteps, Attends.finalizing hattends hr t hn hswept⟩
      · obtain ⟨⟨htracking, hrel⟩, -⟩ := hburied hleft
        exact ⟨hsteps, k.weaken htracking hrel⟩
  · obtain ⟨hmoves, hkept⟩ := hcall.2 hend hwf htf
    refine ⟨hmoves, hkept, ?_⟩
    rcases hrun : Machine.callFinalizer (callbacks _ a) dead
        { r with machine := r.machine.beginFinalizer dead } with ⟨_ | e | halt, u⟩
    · exact runsFor_callFinalizer (World.mem_natives_putMachine.1 hn) t hswept hrun
    · exact e.elim
    · rw [hrun] at hend
      exact absurd (contained_callFinalizer dead _ _ _ hrun) (by simp [hend])

/-- **All work of a host lets foreign objects fare as they should**, whichever machines run. -/
theorem serves_faring (code : Code η) (importDepth depth : Nat) :
    (Regime.faring code importDepth).Serves (code.engines importDepth depth) := by
  have k : (Regime.faring code importDepth).Sustained := sustained_faring
  induction depth using Nat.strongRecOn with
  | ind depth ih =>
    refine ⟨behaved_engines k code.obeys_free ih, fun _ active => k.lawful.gathers ?_ ?_ ?_⟩
    · intro w a hs t _ hn active
      have hstep : Step w _ := .sweep hn
      exact .of_step hstep hs.roster t fun o ho => .of_passes (Instance.passes_sweep t hn ho) ho
    · intro w a hs t hn hreg active
      have hstep : Step w _ := .drain hn hreg
      exact .of_step hstep hs.roster t fun o ho =>
        .of_passes (Instance.passes_drain t hn hreg ho) ho
    · intro a ha dead rest r hw t ho hswept
      refine (lays_faring (finalizers_engines k code.obeys_free ih active) ha hw t ho hswept).mono
        (fun h => ?_) fun h => h
      exact ⟨h.1, h.2.1, h.2.2.1⟩

/-- What is done about a swept object in a host, and what is kept meanwhile. -/
def Settles (code : Code η) (importDepth depth : Nat) (active : List Address) (a : Address)
    (dead : Dead) (w w' : World (Host η)) : Prop :=
  (Tracking w' ∧ Attends code importDepth False w w') ∧
    FinalizesDead (code.engines importDepth depth active).delegates a dead w w'

theorem lays_engines (code : Code η) (importDepth depth : Nat) {active : List Address} {a : Address}
    (ha : a ∈ active) :
    (Regime.faring code importDepth).Lays (Settles code importDepth depth active a)
      (fun _ => (Regime.faring code importDepth).ends) active a
      (code.engines importDepth depth active).delegates :=
  lays_faring (finalizers_engines sustained_faring code.obeys_free
    (fun depth _ => serves_faring code importDepth depth) active) ha

theorem steps_of_each {depth : Nat} {active : List Address} {a : Address} {dead : List Dead}
    {w w' : World (Host η)} (h : Each (Settles code importDepth depth active a) dead w w') :
    Steps w w' := by
  induction h with
  | nil => exact .refl
  | cons hfirst _ ih => exact hfirst.1.2.steps.trans ih

/-- **A swept object has ended when all have been finalized.** -/
theorem ends_of_each {depth : Nat} {active : List Address} {o : Instance} {dead : List Dead}
    {w w' : World (Host η)}
    (heach : Each (Settles code importDepth depth active o.machine) dead w w')
    (hdead : o.dead ∈ dead) (ho : o.Remains w) : o.Ends code importDepth w w' := by
  induction heach with
  | nil => exact absurd hdead List.not_mem_nil
  | @cons first rest w₁ w₂ w₃ hfirst hrest ih =>
    obtain ⟨⟨-, hattends⟩, -, hruns⟩ := hfirst
    by_cases hself : o.dead = first
    · obtain ⟨e, hfinalized⟩ := hruns o rfl hself
      exact ⟨.start ho, hfinalized, steps_of_each hrest⟩
    · exact (hattends.remaining o ho).ends (steps_of_each hrest)
        (ih ((List.mem_cons.1 hdead).resolve_left hself))

end

end ScriptHost.Bridge
