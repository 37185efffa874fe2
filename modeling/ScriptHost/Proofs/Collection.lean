import ScriptHost.Proofs.Callbacks

/-!
# Collections among their callbacks

A collection first sweeps, and then takes the swept objects one by one.  Finalizers may do anything,
collect again included, but they leave the machine as they found it.  So an object is finalized and
nothing else is swept (`within_finalizeOne`), and the loop ends with the objects swept that were
swept before (`within_finalizeAll`).  What `Spent` says of one object it says of many, since it can be
followed by itself.
-/

namespace ScriptHost.Bridge

open Machine (State Running Call Callbacks Dead Block Key)
open Run (Within Contained contained_pure contained_bind contained_modify)

variable {η φ α : Type}

/-- The machine at `a` has the objects `swept` left, and finds itself as it was otherwise. -/
structure Spent (active : List Address) (a : Address) (swept : List Dead)
    (w w' : World (Host η)) : Prop where
  steps : Steps w w'
  steady : Steady active w'
  held : ∀ b ∈ active, b ≠ a → Held w w' b
  registered : w'.registered.find? a = w.registered.find? a
  swept : (w'.machine a).swept = swept
  finalizing : (w'.machine a).finalizing = (w.machine a).finalizing
  heap : a ∉ w.registered.keys → (w'.machine a).heap = (w.machine a).heap

section

variable {active : List Address} {a : Address} {swept swept' : List Dead}
variable {w w' w₁ w₂ w₃ : World (Host η)}

theorem Spent.refl (hw : Steady active w) (a : Address) :
    Spent active a (w.machine a).swept w w :=
  ⟨.refl, hw, fun b _ _ => Held.refl w b, rfl, rfl, rfl, fun _ => rfl⟩

theorem Spent.trans (h : Spent active a swept w₁ w₂) (h' : Spent active a swept' w₂ w₃) :
    Spent active a swept' w₁ w₃ := by
  refine ⟨h.steps.trans h'.steps, h'.steady, fun b hb hne => (h.held b hb hne).trans
    (h'.held b hb hne), h'.registered.trans h.registered, h'.swept,
    h'.finalizing.trans h.finalizing, fun ha => ?_⟩
  refine (h'.heap ?_).trans (h.heap ha)
  rw [← Table.find?_eq_none_iff, h.registered, Table.find?_eq_none_iff]
  exact ha

/-! ## Changes of one machine -/

/-- A step that changes a running machine only leads to a state of rest. -/
theorem Steady.change (hw : Steady active w) (ha : a ∈ active) (hs : Step w w')
    (hnatives : ∀ b, b ∈ w'.natives.keys ↔ b ∈ w.natives.keys)
    (hregistered : w'.registered = w.registered)
    (hother : ∀ b, b ≠ a → w'.machine b = w.machine b) : Steady active w' := by
  refine ⟨hs.sound hw.sound, fun b hb => (hnatives b).2 (hw.native b hb), fun b hb => ?_,
    fun b hb => ?_⟩
  · rw [hregistered]
    exact hw.listed b ((hnatives b).1 hb)
  have hne : b ≠ a := by
    rintro rfl
    exact hb ha
  rw [hother b hne]
  exact hw.quiet b hb

theorem Steady.putMachine (hw : Steady active w) (ha : a ∈ active) {m : State}
    (hs : Step w (w.putMachine a m)) : Steady active (w.putMachine a m) :=
  hw.change ha hs (fun _ => World.mem_natives_putMachine) rfl
    fun _ hne => World.machine_putMachine_ne w hne m

/-! ## A finalizer begins -/

theorem natives_finalized (w : World η) (a : Address) (d : Dead) :
    (w.finalized a d).natives = (w.putMachine a ((w.machine a).beginFinalizer d)).natives := by
  obtain ⟨services, hfinalized⟩ := w.finalized_eq a d
  rw [hfinalized]

theorem registered_finalized (w : World η) (a : Address) (d : Dead) :
    (w.finalized a d).registered = w.registered := by
  obtain ⟨services, hfinalized⟩ := w.finalized_eq a d
  rw [hfinalized]
  rfl

theorem machine_finalized (w : World η) (a b : Address) (d : Dead) :
    (w.finalized a d).machine b =
      (w.putMachine a ((w.machine a).beginFinalizer d)).machine b := by
  rw [World.machine, World.machine, natives_finalized]

theorem machine_finalized_self (ha : a ∈ w.natives.keys) (d : Dead) :
    (w.finalized a d).machine a = (w.machine a).beginFinalizer d := by
  rw [machine_finalized, World.machine_putMachine_self ha]

theorem machine_finalized_ne {b : Address} (hne : b ≠ a) (d : Dead) :
    (w.finalized a d).machine b = w.machine b := by
  rw [machine_finalized, World.machine_putMachine_ne _ hne]

/-- The world behind the begin of a finalizer is one of rest. -/
theorem Steady.finalized (hw : Steady active w) (ha : a ∈ active) {d : Dead} {rest : List Dead}
    (hswept : (w.machine a).swept = d :: rest) : Steady active (w.finalized a d) := by
  refine hw.change ha (.finalize (hw.native a ha) hswept) (fun b => ?_)
    (registered_finalized w a d) fun b hne => machine_finalized_ne hne d
  rw [natives_finalized]
  exact World.mem_natives_putMachine

end

/-! ## Finalizers -/

section

variable {active : List Address} {a : Address} {d : Delegates (Host η)} [Observer η]

omit [Observer η] in
theorem contained_atHost (a : Address) (x : Effect (Host η) α) : Contained (atHost a x) := by
  intro r halt t hx
  have hfst : (x.sealed (world a r)).1 = .halt halt := congrArg Prod.fst hx
  exact Run.contained_sealed x (world a r) halt _ (Prod.ext hfst rfl)

/-- No panic leaves a finalizer. -/
theorem contained_callFinalizer (dead : Dead) :
    Contained (Machine.callFinalizer (callbacks d a) dead) := by
  unfold Machine.callFinalizer
  cases dead.finalize? with
  | none => exact contained_pure ()
  | some key => exact contained_atHost a _

theorem contained_finalizeOne (dead : Dead) :
    Contained (Machine.finalizeOne (callbacks d a) dead) := by
  refine contained_bind (contained_modify _) fun _ => ?_
  exact contained_bind (contained_callFinalizer dead) fun _ => contained_modify _

theorem contained_finalizeAll (dead : List Dead) :
    Contained (Machine.finalizeAll (callbacks d a) dead) := by
  induction dead with
  | nil => exact contained_pure ()
  | cons one dead ih => exact contained_bind (contained_finalizeOne one) fun _ => ih

/-- No panic leaves the shutdown of a machine. -/
theorem contained_shutdown : Contained (Machine.shutdown (callbacks d a)) := by
  refine contained_bind (Run.contained_gets _) fun s => ?_
  refine contained_bind (Run.contained_modifyGet _) fun dead => ?_
  exact contained_bind (contained_finalizeAll dead) fun _ => contained_pure _

/-- The world behind the end of a finalizer. -/
def World.buried (w : World η) (a : Address) : World η :=
  w.putMachine a (w.machine a).endFinalizer

/-- **One swept object is finalized, and nothing else of its machine changes for good**, if what the
host does about it leads from rest to rest.  `X` is what the host leaves behind, and `Y` what it
leaves at the end of the process. -/
theorem within_finalizeOne {X Y : World (Host η) → Prop} (ha : a ∈ active) {dead : Dead}
    {rest : List Dead} {r : Running (World (Host η))} (hw : Steady active (world a r))
    (hswept : ((world a r).machine a).swept = dead :: rest)
    (hcall : Within
      (fun _ t => Moves active ((world a r).finalized a dead) (world a t) ∧ X (world a t))
      (fun _ t => Steps ((world a r).finalized a dead) (world a t) ∧ Y (world a t))
      (Machine.callFinalizer (callbacks d a) dead)
      { r with machine := r.machine.beginFinalizer dead }) :
    Within
      (fun _ t => Spent active a rest (world a r) (world a t) ∧
        ∃ w, Steady active w ∧ X w ∧ Held ((world a r).finalized a dead) w a ∧
          world a t = w.buried a)
      (fun _ t => Steps (world a r) (world a t) ∧
        (Y (world a t) ∨ Spent active a rest (world a r) (world a t) ∧
          ∃ w, Steady active w ∧ X w ∧ Held ((world a r).finalized a dead) w a ∧
            world a t = w.buried a))
      (Machine.finalizeOne (callbacks d a) dead) r := by
  have hn : a ∈ (world a r).natives.keys := hw.native a ha
  obtain ⟨hends, hgoes⟩ := hcall
  have hfirst : Step (world a r) ((world a r).finalized a dead) := .finalize hn hswept
  have hsteady := hw.finalized ha hswept
  have hself := machine_finalized_self hn dead
  have hrun : Machine.finalizeOne (callbacks d a) dead r =
      (Machine.callFinalizer (callbacks d a) dead >>= fun _ => Machine.update State.endFinalizer)
        { r with machine := r.machine.beginFinalizer dead } := rfl
  rw [Within, hrun]
  rcases hcall : Machine.callFinalizer (callbacks d a) dead
      { r with machine := r.machine.beginFinalizer dead } with ⟨_ | e | halt, t⟩
  · rw [hcall] at hgoes
    obtain ⟨hmoves, hX⟩ := hgoes rfl
    obtain ⟨hsteps, hsteady', hheld⟩ := hmoves hsteady
    have hnt : a ∈ (world a t).natives.keys := hsteady'.native a ha
    have hmachine : (world a t).machine a = t.machine :=
      World.machine_putMachine_self (World.mem_natives_putMachine.1 hnt) _
    -- the machine gives the data block back at last
    have hlast : world a { t with machine := t.machine.endFinalizer } = (world a t).buried a := by
      rw [World.buried, hmachine, world, world, World.putMachine_putMachine]
    have hbury : Step (world a t) ((world a t).buried a) := .bury hnt
    have hspent : Spent active a rest (world a r)
        (world a { t with machine := t.machine.endFinalizer }) := by
      rw [hlast]
      refine ⟨?_, hsteady'.putMachine ha hbury, ?_, ?_, ?_, ?_, ?_⟩
      · exact ((Relation.ReflTransGen.single hfirst).trans hsteps).tail hbury
      · intro b hb hne
        obtain ⟨hreg, hsw, hfin, hheap⟩ := hheld b hb
        rw [machine_finalized_ne hne] at hsw hfin hheap
        rw [registered_finalized] at hreg hheap
        refine ⟨hreg, ?_, ?_, fun hb => ?_⟩
        · rw [World.buried, World.machine_putMachine_ne _ hne, hsw]
        · rw [World.buried, World.machine_putMachine_ne _ hne, hfin]
        · rw [World.buried, World.machine_putMachine_ne _ hne, hheap hb]
      · have hreg := (hheld a ha).registered
        rw [registered_finalized] at hreg
        exact hreg
      · have hsw := (hheld a ha).swept
        rw [hself, Machine.State.beginFinalizer, hswept] at hsw
        rw [World.buried, World.machine_putMachine_self hnt]
        exact hsw
      · have hfin := (hheld a ha).finalizing
        rw [hself] at hfin
        rw [World.buried, World.machine_putMachine_self hnt, Machine.State.endFinalizer, hfin]
        rfl
      · intro hna
        have hsame := (hheld a ha).machine
        rw [registered_finalized, hself] at hsame
        rw [World.buried, World.machine_putMachine_self hnt, hsame hna]
        rfl
    rw [Run.bind_of_value hcall]
    have hleft : ∃ w, Steady active w ∧ X w ∧ Held ((world a r).finalized a dead) w a ∧
        world a { t with machine := t.machine.endFinalizer } = w.buried a :=
      ⟨world a t, hsteady', hX, hheld a ha, hlast⟩
    exact ⟨⟨hspent.steps, Or.inr ⟨hspent, hleft⟩⟩, fun _ => ⟨hspent, hleft⟩⟩
  · exact e.elim
  · rw [Run.bind_of_halt hcall]
    rw [hcall] at hends
    obtain ⟨hsteps, hY⟩ := hends
    refine ⟨⟨(Relation.ReflTransGen.single hfirst).trans hsteps, Or.inl hY⟩, fun hend => ?_⟩
    exact absurd (contained_callFinalizer dead _ _ _ hcall) (by simp [hend])

/-! ## Many objects -/

omit [Observer η] in
/-- Objects are finalized one after the other, each as `F` says. -/
inductive Each (F : Dead → World (Host η) → World (Host η) → Prop) :
    List Dead → World (Host η) → World (Host η) → Prop where
  | nil (w : World (Host η)) : Each F [] w w
  | cons {dead : Dead} {rest : List Dead} {w₁ w₂ w₃ : World (Host η)} (h : F dead w₁ w₂)
      (h' : Each F rest w₂ w₃) : Each F (dead :: rest) w₁ w₃

omit [Observer η] in
/-- Objects are finalized one after the other, perhaps only up to one that ends the process, as `G`
says. -/
inductive Until (F G : Dead → World (Host η) → World (Host η) → Prop) :
    List Dead → World (Host η) → World (Host η) → Prop where
  | nil (w : World (Host η)) : Until F G [] w w
  | here {dead : Dead} {rest : List Dead} {w w' : World (Host η)} (h : G dead w w') :
      Until F G (dead :: rest) w w'
  | later {dead : Dead} {rest : List Dead} {w₁ w₂ w₃ : World (Host η)} (h : F dead w₁ w₂)
      (h' : Until F G rest w₂ w₃) : Until F G (dead :: rest) w₁ w₃

/-- What a host does about swept objects: as `F` says of each, or as `G` says of one that ends the
process. -/
def Regime.Lays (K : Regime η) (F G : Dead → World (Host η) → World (Host η) → Prop)
    (active : List Address) (a : Address) (d : Delegates (Host η)) : Prop :=
  ∀ ⦃dead rest⦄ ⦃r : Running (World (Host η))⦄, Steady active (world a r) → K.pre (world a r) →
    K.Owns (world a r) a → ((world a r).machine a).swept = dead :: rest →
      Within
        (fun r t => Spent active a rest (world a r) (world a t) ∧ K.pre (world a t) ∧
          F dead (world a r) (world a t))
        (fun r t => Steps (world a r) (world a t) ∧ G dead (world a r) (world a t))
        (Machine.finalizeOne (callbacks d a) dead) r

section

variable {K : Regime η} {F G : Dead → World (Host η) → World (Host η) → Prop}

omit [Observer η] in
theorem Spent.owns {w w' : World (Host η)} {swept : List Dead} (h : Spent active a swept w w')
    {l : Licence η} (ho : l.Owns w a) : l.Owns w' a := by
  intro vm hvm
  rw [h.registered] at hvm
  exact ho vm hvm

/-- **A loop over swept objects leaves those that were swept before.** -/
theorem within_finalizeAll (hlays : K.Lays F G active a d) (rest : List Dead) :
    ∀ (dead : List Dead) {r : Running (World (Host η))}, Steady active (world a r) →
      K.pre (world a r) → K.Owns (world a r) a →
      ((world a r).machine a).swept = dead ++ rest →
      Within
        (fun r t => Spent active a rest (world a r) (world a t) ∧ K.pre (world a t) ∧
          Each F dead (world a r) (world a t))
        (fun r t => Steps (world a r) (world a t) ∧ Until F G dead (world a r) (world a t))
        (Machine.finalizeAll (callbacks d a) dead) r
  | [], r, hw, hp, _, hswept => by
    have hspent := Spent.refl hw a
    rw [hswept, List.nil_append] at hspent
    exact ⟨⟨.refl, .nil _⟩, fun _ => ⟨hspent, hp, .nil _⟩⟩
  | one :: dead, r, hw, hp, ho, hswept => by
    obtain ⟨hends, hgoes⟩ := hlays hw hp ho hswept
    rw [Machine.finalizeAll]
    rcases hone : Machine.finalizeOne (callbacks d a) one r with ⟨_ | e | halt, t⟩
    · rw [hone] at hgoes
      obtain ⟨hspent, hpt, hF⟩ := hgoes rfl
      obtain ⟨⟨hsteps, huntil⟩, hgoes'⟩ :=
        within_finalizeAll hlays rest dead hspent.steady hpt (hspent.owns ho) hspent.swept
      rw [Within, Run.bind_of_value hone]
      refine ⟨⟨hspent.steps.trans hsteps, .later hF huntil⟩, fun hend => ?_⟩
      obtain ⟨hspent', hpt', heach⟩ := hgoes' hend
      exact ⟨hspent.trans hspent', hpt', .cons hF heach⟩
    · exact e.elim
    · rw [hone] at hends
      obtain ⟨hsteps, hG⟩ := hends
      rw [Within, Run.bind_of_halt hone]
      refine ⟨⟨hsteps, .here hG⟩, fun hend => ?_⟩
      exact absurd (contained_finalizeOne one _ _ _ hone) (by simp [hend])

/-! ## Collections -/

/-- **A collection leads from rest to rest.**  It sweeps, and then what is swept is finalized. -/
theorem within_collectGarbage (k : K.Lawful) (hlays : K.Lays F G active a d) (ha : a ∈ active)
    {r : Running (World (Host η))} (hw : Steady active (world a r)) (hp : K.pre (world a r))
    (hreg : a ∈ (world a r).registered.keys) (ho : K.Owns (world a r) a) :
    Within
      (fun r t => Moves active (world a r) (world a t) ∧ K.pre (world a t) ∧
        Each F r.machine.sweep.1 ((world a r).putMachine a r.machine.sweep.2) (world a t))
      (fun r t => Steps (world a r) (world a t) ∧
        Until F G r.machine.sweep.1 ((world a r).putMachine a r.machine.sweep.2) (world a t))
      (Machine.collectGarbage (callbacks d a)) r := by
  have hrun : Machine.collectGarbage (callbacks d a) r =
      Machine.finalizeAll (callbacks d a) r.machine.sweep.1
        { r with machine := r.machine.sweep.2 } := rfl
  have hn : a ∈ (world a r).natives.keys := hw.native a ha
  have hmachine : (world a r).machine a = r.machine := machine_world hn
  -- the world behind the sweep
  have hsweep : Sweeping K.toLicence (world a r)
      ((world a r).putMachine a r.machine.sweep.2) := by
    rw [← hmachine]
    exact .sweep ho hn
  have hstep := hsweep.step
  have hpswept := k.sweeping hw.sound hp hsweep
  have hswept : (((world a r).putMachine a r.machine.sweep.2).machine a) = r.machine.sweep.2 :=
    World.machine_putMachine_self hn _
  have hsteady := hw.putMachine ha hstep
  rw [← world_put a r r.machine.sweep.2] at *
  obtain ⟨⟨hsteps, huntil⟩, hgoes⟩ := within_finalizeAll hlays r.machine.swept r.machine.sweep.1
    hsteady hpswept (by rw [world_put]; exact ho) (by rw [hswept]; rfl)
  rw [Within, hrun]
  rw [world_put a r r.machine.sweep.2] at huntil
  refine ⟨⟨(Relation.ReflTransGen.single hstep).trans hsteps, huntil⟩, fun hend => ?_⟩
  obtain ⟨hspent, hpt, heach⟩ := hgoes hend
  rw [world_put a r r.machine.sweep.2] at heach
  refine ⟨fun _ => ⟨(Relation.ReflTransGen.single hstep).trans hspent.steps, hspent.steady, ?_⟩,
    hpt, heach⟩
  intro b hb
  by_cases hba : b = a
  · subst hba
    refine ⟨hspent.registered, ?_, ?_, fun hb => absurd hreg hb⟩
    · rw [hspent.swept, hmachine]
    · rw [hspent.finalizing, hswept, hmachine]
      rfl
  · obtain ⟨hr, hs, hf, hh⟩ := hspent.held b hb hba
    rw [world_put a r r.machine.sweep.2] at hr hs hf hh
    rw [World.machine_putMachine_ne _ hba] at hs hf hh
    exact ⟨hr, hs, hf, hh⟩

/-- **A machine that was given up and rests is empty behind its shutdown**, and the other machines
are as they were. -/
theorem within_shutdown (k : K.Lawful) (hlays : K.Lays F G active a d) (ha : a ∈ active)
    {w : World (Host η)} (hw : Steady active w) (hp : K.pre w) (hreg : a ∉ w.registered.keys) :
    Within
      (fun _ t => Steps w (world a t) ∧
        Spent active a (w.machine a).swept (w.putMachine a (w.machine a).drain.2) (world a t) ∧
        K.pre (world a t) ∧
        Each F (w.machine a).drain.1 (w.putMachine a (w.machine a).drain.2) (world a t))
      (fun _ t => Steps w (world a t) ∧
        Until F G (w.machine a).drain.1 (w.putMachine a (w.machine a).drain.2) (world a t))
      (Machine.shutdown (callbacks d a)) ⟨w.machine a, w⟩ := by
  have hn : a ∈ w.natives.keys := hw.native a ha
  have hdrain : Sweeping K.toLicence w (w.putMachine a (w.machine a).drain.2) := .drain hn hreg
  have hstep := hdrain.step
  have hpdrained := k.sweeping hw.sound hp hdrain
  have hworld : world a ⟨(w.machine a).drain.2, w⟩ = w.putMachine a (w.machine a).drain.2 := rfl
  have hrun : Machine.shutdown (callbacks d a) ⟨w.machine a, w⟩ =
      (Machine.finalizeAll (callbacks d a) (w.machine a).drain.1 >>= fun _ =>
        pure (w.machine a).handles.size) ⟨(w.machine a).drain.2, w⟩ := rfl
  have howns : K.Owns (world a ⟨(w.machine a).drain.2, w⟩) a := fun vm hvm =>
    absurd (Table.mem_keys_of_find? hvm) hreg
  have hloop := within_finalizeAll hlays (w.machine a).swept (w.machine a).drain.1
    (r := ⟨(w.machine a).drain.2, w⟩) (hw.putMachine ha hstep) hpdrained howns
    (by rw [hworld, World.machine_putMachine_self hn]; rfl)
  obtain ⟨⟨hsteps, huntil⟩, hgoes⟩ := hloop
  rw [Within, hrun]
  rcases hall : Machine.finalizeAll (callbacks d a) (w.machine a).drain.1
      ⟨(w.machine a).drain.2, w⟩ with ⟨_ | e | halt, t⟩
  · rw [hall] at hsteps huntil hgoes
    rw [Run.bind_of_value hall]
    have hall' := (Relation.ReflTransGen.single hstep).trans hsteps
    exact ⟨⟨hall', huntil⟩, fun _ => ⟨hall', hgoes rfl⟩⟩
  · exact e.elim
  · rw [hall] at hsteps huntil hgoes
    rw [Run.bind_of_halt hall]
    have hall' := (Relation.ReflTransGen.single hstep).trans hsteps
    exact ⟨⟨hall', huntil⟩, fun hend => ⟨hall', hgoes ((isFinal_halt halt).trans hend)⟩⟩

end

/-! ## Finalizers that keep a regime -/

section

variable {K : Regime η}

theorem Each.rel (k : K.Lawful) {dead : List Dead} {w w' : World (Host η)}
    (h : Each (fun _ w w' => K.pre w' ∧ K.rel active w w') dead w w') : K.rel active w w' := by
  induction h with
  | nil w => exact k.refl active w
  | cons h _ ih => exact k.trans h.2 ih

theorem Until.ends (k : K.Lawful) {dead : List Dead} {w w' : World (Host η)} (hp : K.pre w)
    (h : Until (fun _ w w' => K.pre w' ∧ K.rel active w w') (fun _ => K.ends) dead w w') :
    K.ends w w' := by
  induction h with
  | nil w => exact k.weaken hp (k.refl active w)
  | here h => exact h
  | later h _ ih => exact k.append h.2 (ih h.1)

omit [Observer η] in
/-- The world in which a finalizer is called. -/
theorem world_beginFinalizer {r : Running (World (Host η))} (hn : a ∈ r.host.natives.keys)
    (dead : Dead) : world a { r with machine := r.machine.beginFinalizer dead } =
      (world a r).putMachine a (((world a r).machine a).beginFinalizer dead) := by
  rw [world, world, World.putMachine_putMachine, World.machine_putMachine_self hn]

/-- The part of a finalizer that the host sees, behind the part that machine and bridge do. -/
theorem within_callFinalizer (k : K.Lawful) (h : K.Finalizers active d) (dead : Dead)
    (r : Running (World (Host η))) (hn : a ∈ r.host.natives.keys) :
    Within (fun _ t => K.Moves active ((world a r).finalized a dead) (world a t))
      (fun _ t => K.Reaches active ((world a r).finalized a dead) (world a t))
      (Machine.callFinalizer (callbacks d a) dead)
      { r with machine := r.machine.beginFinalizer dead } := by
  have hbegun := world_beginFinalizer hn dead
  cases hkey : dead.finalize? with
  | none =>
    have hstart : (world a r).finalized a dead =
        world a { r with machine := r.machine.beginFinalizer dead } := by
      rw [hbegun, World.finalized, hkey]
      rfl
    have hcall : Machine.callFinalizer (callbacks d a) dead = pure () := by
      rw [Machine.callFinalizer, hkey]
    rw [hstart, hcall]
    have hrefl : K.Moves active _ _ :=
      k.span.refl (world a { r with machine := r.machine.beginFinalizer dead })
    exact ⟨k.span.weaken hrefl, fun _ => hrefl⟩
  | some key =>
    have hstart : (world a r).finalized a dead =
        (world a { r with machine := r.machine.beginFinalizer dead }).unload dead.block := by
      rw [hbegun, World.finalized, hkey]
      rfl
    have hcall : Machine.callFinalizer (callbacks d a) dead =
        atHost a (Trampoline.finalize d dead.block key) := by
      rw [Machine.callFinalizer, hkey]
      rfl
    obtain ⟨rest, hrun, hrest⟩ := within_finalize k h dead.block key
      (world a { r with machine := r.machine.beginFinalizer dead })
    have hsealed : (Trampoline.finalize d dead.block key).sealed
        (world a { r with machine := r.machine.beginFinalizer dead }) =
        rest.sealed ((world a r).finalized a dead) := by
      unfold Run.sealed
      rw [hrun, hstart]
    obtain ⟨hout, hworld⟩ := world_atHost (a := a) (Trampoline.finalize d dead.block key)
      { r with machine := r.machine.beginFinalizer dead }
    obtain ⟨hends, hgoes⟩ := Run.within_sealed (hrest ((world a r).finalized a dead))
    rw [hcall]
    refine ⟨?_, fun hend => ?_⟩
    · change K.Reaches active _ (world a (atHost a _ _).2)
      rw [hworld, hsealed]
      exact hends
    · change K.Moves active _ (world a (atHost a _ _).2)
      rw [hworld, hsealed]
      rw [hout, hsealed] at hend
      exact hgoes hend

/-- What finalizing an object does to a machine that was given up: its finalizer does nothing to it. -/
structure Alone (a : Address) (dead : Dead) (w w' : World (Host η)) : Prop where
  registered : a ∉ w'.registered.keys
  machine : w'.machine a = ((w.machine a).beginFinalizer dead).endFinalizer

/-- **What is done about swept objects keeps a regime**, if finalizers do.  They leave machines alone
that were given up. -/
theorem Regime.Lawful.lays_alone (k : K.Lawful) (hsweeps : K.Sweeps) (h : K.Finalizers active d)
    (ha : a ∈ active) :
    K.Lays (fun dead w w' => (K.pre w' ∧ K.rel active w w') ∧
      (a ∉ w.registered.keys → Alone a dead w w')) (fun _ => K.ends) active a d := by
  intro dead rest r hw hp ho hswept
  have hn : a ∈ (world a r).natives.keys := hw.native a ha
  have hbegin : Sweeping K.toLicence (world a r) ((world a r).finalized a dead) :=
    .finalize ho hn hswept
  have hpf := k.sweeping hw.sound hp hbegin
  have hrelf := hsweeps hw.sound hp hbegin
  have hwf := hw.finalized ha hswept
  have hcall := within_callFinalizer k h dead r (World.mem_natives_putMachine.1 hn)
  have hone := within_finalizeOne (X := fun t => K.pre t ∧
    K.rel active ((world a r).finalized a dead) t)
    (Y := K.ends ((world a r).finalized a dead)) ha hw hswept
    (hcall.mono (fun hm => hm hwf hpf) fun hm => hm hwf hpf)
  -- behind the end of the finalizer
  have hburied : ∀ {t : World (Host η)}, Spent active a rest (world a r) t →
      (∃ w, Steady active w ∧ (K.pre w ∧ K.rel active ((world a r).finalized a dead) w) ∧
        Held ((world a r).finalized a dead) w a ∧ t = w.buried a) →
      (K.pre t ∧ K.rel active (world a r) t) ∧
        (a ∉ (world a r).registered.keys → Alone a dead (world a r) t) := by
    rintro t hspent ⟨w, hsteady, ⟨hpw, hrel⟩, hheld, rfl⟩
    have hnw := hsteady.native a ha
    have hfin := hheld.finalizing
    rw [machine_finalized_self hn, State.beginFinalizer] at hfin
    have hbury : Sweeping K.toLicence w (w.buried a) := .bury (hspent.owns ho) hnw hfin
    refine ⟨⟨k.sweeping hsteady.sound hpw hbury,
      k.trans (hrelf active) (k.trans hrel (hsweeps hsteady.sound hpw hbury active))⟩, fun hreg => ?_⟩
    have hsame := hheld.machine
    rw [registered_finalized, machine_finalized_self hn] at hsame
    refine ⟨?_, ?_⟩
    · rwa [← Table.find?_eq_none_iff, hspent.registered, Table.find?_eq_none_iff]
    · rw [World.buried, World.machine_putMachine_self hnw, hsame hreg]
  refine hone.mono (fun hout => ?_) fun hout => ?_
  · have hkept := hburied hout.1 hout.2
    exact ⟨hout.1, hkept.1.1, hkept⟩
  obtain ⟨hsteps, hY | ⟨hspent, hleft⟩⟩ := hout
  · exact ⟨hsteps, k.append (hrelf active) hY⟩
  · obtain ⟨⟨hpt, hrel⟩, -⟩ := hburied hspent hleft
    exact ⟨hsteps, k.weaken hpt hrel⟩

theorem Regime.Lawful.lays (k : K.Lawful) (hsweeps : K.Sweeps) (h : K.Finalizers active d)
    (ha : a ∈ active) :
    K.Lays (fun _ w w' => K.pre w' ∧ K.rel active w w') (fun _ => K.ends) active a d :=
  fun _ _ _ hw hp ho hswept => (k.lays_alone hsweeps h ha hw hp ho hswept).mono
    (fun hout => ⟨hout.1, hout.2.1, hout.2.2.1⟩) id

/-- **A collection keeps a regime**, if a sweep of the heap does, and what is done about swept
objects. -/
theorem within_collecting (k : K.Lawful)
    (hsweep : ∀ {w}, Sound w → K.pre w → K.Owns w a → a ∈ w.natives.keys →
      K.rel active w (w.putMachine a (w.machine a).sweep.2))
    (hlays : K.Lays (fun _ w w' => K.pre w' ∧ K.rel active w w') (fun _ => K.ends) active a d)
    (ha : a ∈ active) (r : Running (World (Host η))) :
    Within (K.Turns a active) (K.Ends a active) (Machine.collectGarbage (callbacks d a)) r := by
  have hcollect := fun hw hp hreg ho => within_collectGarbage k hlays ha (r := r) hw hp hreg ho
  -- the world behind the sweep
  have hswept : ∀ {w}, Steady active w → K.pre w → K.Owns w a →
      K.pre (w.putMachine a (w.machine a).sweep.2) ∧
        K.rel active w (w.putMachine a (w.machine a).sweep.2) := fun hw hp ho =>
    ⟨k.sweeping hw.sound hp (.sweep ho (hw.native a ha)), hsweep hw.sound hp ho (hw.native a ha)⟩
  refine ⟨fun hreg ho hw hp => ?_, fun hend hreg ho hw hp => ?_⟩
  · obtain ⟨hps, hrels⟩ := hswept hw hp ho
    rw [machine_world (hw.native a ha)] at hps hrels
    obtain ⟨hsteps, huntil⟩ := (hcollect hw hp hreg ho).1
    exact ⟨hsteps, k.append hrels (huntil.ends k hps)⟩
  · obtain ⟨-, hrels⟩ := hswept hw hp ho
    rw [machine_world (hw.native a ha)] at hrels
    obtain ⟨hmoves, hpt, heach⟩ := (hcollect hw hp hreg ho).2 hend
    exact ⟨hmoves, hpt, k.trans hrels (heach.rel k)⟩

end

/-- A shutdown returns how many handles the machine held before it. -/
theorem leaked_shutdown {r t : Running (World (Host η))} {leaked : Nat}
    (hx : Machine.shutdown (callbacks d a) r = (.value leaked, t)) :
    leaked = r.machine.handles.size := by
  have hrun : Machine.shutdown (callbacks d a) r =
      (Machine.finalizeAll (callbacks d a) r.machine.drain.1 >>= fun _ =>
        pure r.machine.handles.size) { r with machine := r.machine.drain.2 } := rfl
  rw [hrun] at hx
  rcases hall : Machine.finalizeAll (callbacks d a) r.machine.drain.1
      { r with machine := r.machine.drain.2 } with ⟨_ | e | halt, t'⟩
  · rw [Run.bind_of_value hall] at hx
    cases congrArg Prod.fst hx
    rfl
  · exact e.elim
  · rw [Run.bind_of_halt hall] at hx
    exact absurd (congrArg Prod.fst hx) (by simp)

end

end ScriptHost.Bridge
