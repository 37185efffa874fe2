import ScriptHost.Proofs.Burials

/-!
# Finalizers that reach the bound

Callbacks nest only so deep, and where the bound is reached no finalizer can be called.  A collection
there ends the run exactly if it removes an object for which the host has a finalizer
(`World.Summons`), and so does the end of a machine.  Anywhere else neither of them reaches the bound.
-/

namespace ScriptHost

/-- A computation reaches the bound in one of its steps. -/
theorem Run.exhausted_bind {σ φ α β : Type} {x : Run σ φ α} {f : α → Run σ φ β} {s : σ} :
    ((x >>= f) s).1 = .halt .exhausted ↔ (x s).1 = .halt .exhausted ∨
      ∃ a t, x s = (.value a, t) ∧ (f a t).1 = .halt .exhausted := by
  rcases hx : x s with ⟨o, t⟩
  cases o with
  | value a => simp [Run.bind_of_value hx]
  | fault e => simp [Run.bind_of_fault hx]
  | halt w => simp [Run.bind_of_halt hx]

/-- What comes last does not reach it. -/
theorem Run.exhausted_bind_of {σ φ α β : Type} {x : Run σ φ α} {f : α → Run σ φ β} {s : σ}
    (hf : ∀ a t, ∃ b u, f a t = (.value b, u)) :
    ((x >>= f) s).1 = .halt .exhausted ↔ (x s).1 = .halt .exhausted := by
  rw [Run.exhausted_bind]
  refine or_iff_left ?_
  rintro ⟨a, t, -, hend⟩
  obtain ⟨b, u, hrun⟩ := hf a t
  rw [hrun] at hend
  exact absurd hend (by simp)

theorem Run.exhausted_bind_pure {σ φ α β : Type} {x : Run σ φ α} {g : α → β} {s : σ} :
    ((x >>= fun a => Pure.pure (g a)) s).1 = .halt .exhausted ↔ (x s).1 = .halt .exhausted :=
  Run.exhausted_bind_of fun a t => ⟨g a, t, rfl⟩

theorem Run.exhausted_sealed {σ φ α : Type} {x : Run σ φ α} {s : σ} :
    (x.sealed s).1 = .halt .exhausted ↔ (x s).1 = .halt .exhausted := by
  unfold Run.sealed
  rcases x s with ⟨o, t⟩
  cases o with
  | value | fault => exact Iff.rfl
  | halt w => cases w <;> simp

theorem Run.exhausted_widen {σ φ α : Type} {x : Run σ Empty α} {s : σ} :
    ((x.widen : Run σ φ α) s).1 = .halt .exhausted ↔ (x s).1 = .halt .exhausted := by
  unfold Run.widen
  rcases x s with ⟨o, t⟩
  cases o with
  | value => simp
  | fault e => exact e.elim
  | halt => simp

namespace Bridge

open Machine (State Dead Block Key Running)
open Run (Lands exhausted_bind exhausted_bind_of exhausted_bind_pure)

variable {η σ φ α : Type}

/-- The host has a finalizer for a swept object: one for its class, or one for the type of the payload
that is tracked under its address. -/
def World.Summons (w : World η) (dead : Dead) : Prop :=
  ∃ x service key, dead = ⟨⟨x, some service⟩, some key⟩ ∧ x ≠ 0 ∧
    ((((w.service service).bindings.class? key).bind ClassBinding.finalizer?).isSome = true ∨
      ∃ e, (w.service service).payloads.entries.find? x = some e ∧
        ((w.service service).payloads.finalizer? e).isSome = true)

theorem Delegates.Free.not_barred {d : Delegates (Host η)} (h : d.Free) (w : World (Host η)) :
    ¬ d.Barred :=
  fun hbarred => h.ofClass 0 ⟨0, none, none⟩ w (hbarred.ofClass 0 ⟨0, none, none⟩ w)

/-- Machines come and go without a change of what the host has finalizers for. -/
theorem World.summons_congr {w t : World η} (h : t.services = w.services) (dead : Dead) :
    t.Summons dead ↔ w.Summons dead := by
  have hservice : ∀ id, t.service id = w.service id := fun id => by
    rw [World.service, World.service, h]
  simp only [World.Summons, hservice]

section

variable [Observer η] {S : Sight η σ} {d : Delegates (Host η)} {w t : World (Host η)} {one : Dead}

/-- Behind an object for which there was no finalizer, the others have those that they had before. -/
theorem Sight.Buries.summons (h : S.Buries [one] w t) (hone : ¬ w.Summons one) (dead : Dead) :
    t.Summons dead ↔ w.Summons dead := by
  have hfinalizer : ∀ id e, (t.service id).payloads.finalizer? e =
      (w.service id).payloads.finalizer? e := fun id e =>
    congrArg (·.find? e.tag.type) (h.finalizers id)
  constructor
  · rintro ⟨x, service, key, rfl, hx, hclass | ⟨e, he, hfe⟩⟩
    · exact ⟨x, service, key, rfl, hx, Or.inl (h.bindings service ▸ hclass)⟩
    · by_cases htaken : Taken [one] service x
      · rw [h.gone service x htaken] at he
        exact absurd he (by simp)
      · rw [h.left service x htaken] at he
        exact ⟨x, service, key, rfl, hx, Or.inr ⟨e, he, hfinalizer service e ▸ hfe⟩⟩
  · rintro ⟨x, service, key, rfl, hx, hclass | ⟨e, he, hfe⟩⟩
    · exact ⟨x, service, key, rfl, hx, Or.inl (h.bindings service ▸ hclass)⟩
    · by_cases htaken : Taken [one] service x
      · -- the payload would have been that of the first object, with a finalizer for its type
        obtain ⟨-, dead, hdead, hkey, hblock⟩ := htaken
        obtain rfl := List.mem_singleton.1 hdead
        obtain ⟨key', hkey⟩ := Option.isSome_iff_exists.1 hkey
        obtain ⟨block, finalize?⟩ := dead
        obtain rfl : block = ⟨x, some service⟩ := hblock
        obtain rfl : finalize? = some key' := hkey
        exact absurd ⟨x, service, key', rfl, hx, Or.inr ⟨e, he, hfe⟩⟩ hone
      · refine ⟨x, service, key, rfl, hx, Or.inr ⟨e, ?_, ?_⟩⟩
        · rw [h.left service x htaken, he]
        · rw [hfinalizer, hfe]

/-! ## One object -/

/-- A finalizer of which nothing is seen reaches the bound only where none can be called. -/
theorem Delegates.Unseen.bound_ofClass (h : d.Unseen S) (f : Delegate) (object : Finalized PayloadType)
    (w : World (Host η)) : (d.classFinalizer f object w).1 = .halt .exhausted ↔ d.Barred := by
  rcases h.even with hbarred | hfree
  · exact iff_of_true (hbarred.ofClass f object w) hbarred
  · exact iff_of_false (hfree.ofClass f object w) (hfree.not_barred w)

theorem Delegates.Unseen.bound_ofType (h : d.Unseen S) (f : Delegate) (payload : Payload)
    (w : World (Host η)) : (d.typedFinalizer f payload w).1 = .halt .exhausted ↔ d.Barred := by
  rcases h.even with hbarred | hfree
  · exact iff_of_true (hbarred.ofType f payload w) hbarred
  · exact iff_of_false (hfree.ofType f payload w) (hfree.not_barred w)

theorem bound_runFinalizers (h : d.Unseen S) (service : ServiceId) (address : Address)
    (classFinalizer? : Option Delegate) (found? : Option Entry) (w : World (Host η)) :
    (Trampoline.runFinalizers d service address classFinalizer? found? w).1 = .halt .exhausted ↔
      d.Barred ∧ (classFinalizer?.isSome = true ∨
        ∃ e, found? = some e ∧ ((w.service service).payloads.finalizer? e).isSome = true) := by
  have hrest : ∀ t : World (Host η),
      (Trampoline.runFinalizers d service address none found? t).1 = .halt .exhausted ↔
        d.Barred ∧ ∃ e, found? = some e ∧
          ((t.service service).payloads.finalizer? e).isSome = true := by
    intro t
    cases found? with
    | none => exact iff_of_false (fun hend => by cases hend) fun ⟨_, _, he, _⟩ => by cases he
    | some e =>
      cases hf : (t.service service).payloads.finalizer? e with
      | none =>
        have hrun : Trampoline.runFinalizers d service address none (some e) t = (.value true, t) := by
          unfold Trampoline.runFinalizers
          refine (Run.bind_of_value rfl _).trans ?_
          rw [hf]
          rfl
        rw [hrun]
        refine iff_of_false (by simp) ?_
        rintro ⟨-, e', he, hsome⟩
        cases he
        rw [hf] at hsome
        exact absurd hsome (by simp)
      | some f =>
        have hrun : Trampoline.runFinalizers d service address none (some e) t =
            (d.typedFinalizer f e.holding.payload >>= fun _ => pure true) t := by
          unfold Trampoline.runFinalizers
          refine (Run.bind_of_value rfl _).trans ?_
          rw [hf]
        rw [hrun, exhausted_bind_pure, h.bound_ofType]
        exact ⟨fun hbarred => ⟨hbarred, e, rfl, by rw [hf]; rfl⟩, fun hend => hend.1⟩
  cases classFinalizer? with
  | none => simpa using hrest w
  | some f =>
    have hrun : Trampoline.runFinalizers d service address (some f) found? w =
        (d.classFinalizer f (Payloads.finalized address found?) >>= fun _ =>
          Trampoline.runFinalizers d service address none found?) w := rfl
    rw [hrun, exhausted_bind, h.bound_ofClass]
    refine ⟨?_, fun hend => Or.inl hend.1⟩
    rintro (hbarred | ⟨_, t, -, hend⟩)
    · exact ⟨hbarred, Or.inl rfl⟩
    · exact ⟨((hrest t).1 hend).1, Or.inl rfl⟩

/-- A swept object brings its finalizer to the bound if it has one that cannot be called. -/
theorem bound_finalize (h : d.Unseen S) (block : Block) (key : Key) (w : World (Host η)) :
    (Trampoline.finalize d block key w).1 = .halt .exhausted ↔
      d.Barred ∧ w.Summons ⟨block, some key⟩ := by
  obtain ⟨x, owner?⟩ := block
  by_cases hx : x = 0
  · subst hx
    refine iff_of_false (fun hend => ?_) ?_
    · rw [Trampoline.finalize, if_pos rfl] at hend
      cases hend
    · rintro ⟨-, _, _, _, heq, hpos, -⟩
      cases heq
      exact hpos rfl
  cases owner? with
  | none =>
    refine iff_of_false (fun hend => ?_) ?_
    · rw [Trampoline.finalize, if_neg hx] at hend
      cases hend
    · rintro ⟨-, _, _, _, heq, -⟩
      cases heq
  | some service =>
    have hbury : S.Buries [⟨⟨x, some service⟩, some key⟩] w (w.unload ⟨x, some service⟩) :=
      .unload S w hx key
    rw [Trampoline.finalize_eq hx, exhausted_bind_pure, bound_runFinalizers h]
    have hsummons : w.Summons ⟨⟨x, some service⟩, some key⟩ ↔
        (((w.service service).bindings.class? key).bind ClassBinding.finalizer?).isSome = true ∨
          ∃ e, (w.service service).payloads.entries.find? x = some e ∧
            ((w.service service).payloads.finalizer? e).isSome = true := by
      constructor
      · rintro ⟨_, _, _, heq, -, hfound⟩
        cases heq
        exact hfound
      · exact fun hfound => ⟨x, service, key, rfl, hx, hfound⟩
    have hfinalizer : ∀ e, ((w.unload ⟨x, some service⟩).service service).payloads.finalizer? e =
        (w.service service).payloads.finalizer? e := fun e =>
      congrArg (·.find? e.tag.type) (hbury.finalizers service)
    simp only [hfinalizer]
    rw [hsummons]

/-! ## Collections -/

variable {a : Address} {r : Running (World (Host η))}

theorem bound_finalizeOne (h : d.Unseen S) (dead : Dead) :
    (Machine.finalizeOne (callbacks d a) dead r).1 = .halt .exhausted ↔
      d.Barred ∧ (world a r).Summons dead := by
  let begun : Running (World (Host η)) := { r with machine := r.machine.beginFinalizer dead }
  have hrun : Machine.finalizeOne (callbacks d a) dead r =
      (Machine.callFinalizer (callbacks d a) dead >>= fun _ => Machine.update State.endFinalizer)
        begun := rfl
  have hlast : (Machine.finalizeOne (callbacks d a) dead r).1 = .halt .exhausted ↔
      (Machine.callFinalizer (callbacks d a) dead begun).1 = .halt .exhausted := by
    rw [hrun]
    exact exhausted_bind_of fun _ _ => ⟨_, _, rfl⟩
  rw [hlast]
  obtain ⟨block, key?⟩ := dead
  cases key? with
  | none =>
    refine iff_of_false (fun hend => by cases hend) ?_
    rintro ⟨-, _, _, _, heq, -⟩
    cases heq
  | some key =>
    have hcall : (Machine.callFinalizer (callbacks d a) ⟨block, some key⟩ begun).1 =
        ((Trampoline.finalize d block key).sealed (world a begun)).1 :=
      (world_atHost (a := a) (Trampoline.finalize d block key) begun).1
    rw [hcall, Run.exhausted_sealed, bound_finalize h]
    exact and_congr_right fun _ => World.summons_congr rfl _

/-- **The finalizers of swept objects reach the bound** if one of them has one that cannot be called. -/
theorem bound_finalizeAll (h : d.Unseen S) : ∀ (dead : List Dead) {r : Running (World (Host η))},
    a ∈ (world a r).natives.keys →
      ((Machine.finalizeAll (callbacks d a) dead r).1 = .halt .exhausted ↔
        d.Barred ∧ ∃ one ∈ dead, (world a r).Summons one)
  | [], _, _ => iff_of_false (fun hend => by cases hend) fun ⟨_, _, hmem, _⟩ => by cases hmem
  | one :: dead, r, hn => by
    have hone := bound_finalizeOne (a := a) (r := r) h one
    have hrun : Machine.finalizeAll (callbacks d a) (one :: dead) r =
        (Machine.finalizeOne (callbacks d a) one >>= fun _ =>
          Machine.finalizeAll (callbacks d a) dead) r := rfl
    rw [hrun, exhausted_bind, hone]
    by_cases hend : d.Barred ∧ (world a r).Summons one
    · exact iff_of_true (Or.inl hend) ⟨hend.1, one, List.mem_cons_self, hend.2⟩
    rcases lands_finalizeOne h one hn with hbound | ⟨_, t, ht, -, hbury⟩
    · exact absurd (hone.1 hbound) hend
    have hnt : a ∈ (world a t).natives.keys := by
      rw [hbury.natives]
      exact World.mem_natives_putMachine.2 hn
    have ih := bound_finalizeAll h dead hnt
    have hsame : d.Barred → ∀ other, (world a t).Summons other ↔ (world a r).Summons other := by
      intro hbarred other
      rw [hbury.summons fun hs => hend ⟨hbarred, (World.summons_congr rfl one).1 hs⟩]
      exact World.summons_congr rfl other
    constructor
    · rintro (hfirst | ⟨_, _, ht', hlast⟩)
      · exact absurd hfirst hend
      · cases ht.symm.trans ht'
        obtain ⟨hbarred, other, hother, hs⟩ := ih.1 hlast
        exact ⟨hbarred, other, List.mem_cons_of_mem _ hother, (hsame hbarred other).1 hs⟩
    · rintro ⟨hbarred, other, hother, hs⟩
      rcases List.mem_cons.1 hother with rfl | hother
      · exact absurd ⟨hbarred, hs⟩ hend
      · exact Or.inr ⟨_, t, ht, ih.2 ⟨hbarred, other, hother, (hsame hbarred other).2 hs⟩⟩

theorem bound_onMachine {x : Machine.Callbacks (World (Host η)) → Machine.Call (World (Host η)) α}
    {w : World (Host η)} (hr : Roster w) :
    (onMachine d a x w : Outcome φ α × World (Host η)).1 = .halt .exhausted ↔
      (x (callbacks d a) ⟨w.machine a, w⟩).1 = .halt .exhausted := by
  rw [onMachine_eq hr]
  exact Run.exhausted_widen (x := x (callbacks d a))

variable {w : World (Host η)}

/-- **A collection reaches the bound** if an object that it removes has a finalizer, and none can be
called. -/
theorem bound_collectGarbage (h : d.Unseen S) (hr : Roster w) (hn : a ∈ w.natives.keys) :
    (onMachine d a Machine.collectGarbage w : Outcome φ Unit × World (Host η)).1 =
        .halt .exhausted ↔ d.Barred ∧ ∃ one ∈ (w.machine a).sweep.1, w.Summons one := by
  let swept : Running (World (Host η)) := ⟨(w.machine a).sweep.2, w⟩
  have hloop := bound_finalizeAll (r := swept) h (w.machine a).sweep.1
    (World.mem_natives_putMachine.2 hn)
  exact (bound_onMachine hr).trans hloop

/-- **The end of a machine reaches the bound** if one of its objects has a finalizer, and none can be
called. -/
theorem bound_shutdown (h : d.Unseen S) (hr : Roster w) (hn : a ∈ w.natives.keys) :
    (onMachine d a Machine.shutdown w : Outcome φ Nat × World (Host η)).1 =
        .halt .exhausted ↔ d.Barred ∧ ∃ one ∈ (w.machine a).drain.1, w.Summons one := by
  let drained : Running (World (Host η)) := ⟨(w.machine a).drain.2, w⟩
  have hloop := bound_finalizeAll (r := drained) h (w.machine a).drain.1
    (World.mem_natives_putMachine.2 hn)
  have hrun : Machine.shutdown (callbacks d a) ⟨w.machine a, w⟩ =
      (Machine.finalizeAll (callbacks d a) (w.machine a).drain.1 >>= fun _ =>
        pure (w.machine a).handles.size) drained := rfl
  rw [bound_onMachine hr, hrun, exhausted_bind_pure]
  exact hloop

end

end Bridge

end ScriptHost
