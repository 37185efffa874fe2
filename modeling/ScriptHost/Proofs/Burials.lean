import ScriptHost.Proofs.Finalizers
import ScriptHost.Proofs.Joint
import ScriptHost.Proofs.Losses

/-!
# Finalizers that nothing is seen of

A finalizer that does not touch machines is a program that looks around and changes what the host keeps
for itself, in a way that a `Sight` does not see (`Program.Unseen`).  Collections with such finalizers
are described by what they leave: the machine has lost its garbage, the payloads of the objects that
were finalized have been taken out of their services (`Taken`), and nothing else has changed that is
seen (`Sight.Buries`).  The end of a machine does the same to all of its objects.
-/

namespace ScriptHost.Bridge

open Machine (State Dead Block Key Running)
open Run (Lands lands_bind lands_of_value lands_sealed lands_widen)

variable {η σ φ α β : Type} [Observer η]

/-! ## Programs that nothing is seen of -/

/-- An operation of which nothing is seen. -/
def Operation.Unseen (S : Sight η σ) : Operation η β → Prop
  | .look _ => True
  | .keep f => ∀ own, S.view (f own) = S.view own
  | _ => False

/-- A program that comes to its end, and of which nothing is seen. -/
def Program.Unseen (S : Sight η σ) : Program η α → Prop
  | .done _ => True
  | .stop _ => False
  | .perform op next => op.Unseen S ∧ ∀ outcome, (next outcome).Unseen S

/-- Whether the finalizers of `dead` take out the payload that a service has under an address. -/
def Taken (dead : List Dead) (service : ServiceId) (x : Address) : Prop :=
  x ≠ 0 ∧ ∃ d ∈ dead, d.finalize?.isSome ∧ d.block = ⟨x, some service⟩

/-- What is left behind the finalizers of `dead`, if nothing else is seen of them. -/
structure Sight.Buries (S : Sight η σ) (dead : List Dead) (w w' : World (Host η)) : Prop where
  same : ∃ services host, w' = { w with services, host }
  serviceKeys : ∀ id, id ∈ w'.services.keys ↔ id ∈ w.services.keys
  bindings : ∀ id, (w'.service id).bindings = (w.service id).bindings
  finalizers : ∀ id, (w'.service id).payloads.finalizers = (w.service id).payloads.finalizers
  gone : ∀ id x, Taken dead id x → (w'.service id).payloads.entries.find? x = none
  left : ∀ id x, ¬ Taken dead id x →
    (w'.service id).payloads.entries.find? x = (w.service id).payloads.entries.find? x
  view : S.view w'.host.own = S.view w.host.own
  handles : w'.host.handles = w.host.handles

theorem not_taken_nil (service : ServiceId) (x : Address) : ¬ Taken [] service x := by
  rintro ⟨-, d, hd, -⟩
  exact absurd hd List.not_mem_nil

theorem taken_append {l l' : List Dead} {service : ServiceId} {x : Address} :
    Taken (l ++ l') service x ↔ Taken l service x ∨ Taken l' service x := by
  constructor
  · rintro ⟨hx, d, hd, h⟩
    exact (List.mem_append.1 hd).imp (fun hd => ⟨hx, d, hd, h⟩) fun hd => ⟨hx, d, hd, h⟩
  · rintro (⟨hx, d, hd, h⟩ | ⟨hx, d, hd, h⟩)
    · exact ⟨hx, d, List.mem_append_left _ hd, h⟩
    · exact ⟨hx, d, List.mem_append_right _ hd, h⟩

theorem taken_singleton {service id : ServiceId} {x y : Address} {key : Key} (hx : x ≠ 0) :
    Taken [⟨⟨x, some service⟩, some key⟩] id y ↔ id = service ∧ y = x := by
  constructor
  · rintro ⟨-, d, hd, -, hblock⟩
    obtain rfl := List.mem_singleton.1 hd
    cases hblock
    exact ⟨rfl, rfl⟩
  · rintro ⟨rfl, rfl⟩
    exact ⟨hx, _, List.mem_singleton_self _, rfl, rfl⟩

namespace World

variable {ε : Type} (w : World ε) (service : ServiceId) {x : Address}

theorem unload_eq (hx : x ≠ 0) : w.unload ⟨x, some service⟩ = w.modifyService service fun s =>
    { s with payloads := ((w.service service).payloads.take x).2 } := by
  simp [unload, hx]

theorem service_unload_ne {id : ServiceId} {service : ServiceId} (hx : x ≠ 0) (hid : id ≠ service) :
    (w.unload ⟨x, some service⟩).service id = w.service id := by
  rw [unload_eq w service hx]
  exact service_modifyService_ne w hid _

/-- What becomes of the service, also if there is none. -/
theorem service_unload_self (hx : x ≠ 0) :
    (w.unload ⟨x, some service⟩).service service =
        { w.service service with payloads := ((w.service service).payloads.take x).2 } ∨
      (w.unload ⟨x, some service⟩).service service = w.service service ∧
        (w.service service).payloads.entries.find? x = none := by
  rw [unload_eq w service hx]
  by_cases hin : service ∈ w.services.keys
  · exact Or.inl (service_modifyService_self hin _)
  · refine Or.inr ?_
    rw [World.service, World.service, modifyService,
      Table.modify_of_none (Table.find?_eq_none_iff.2 hin), Table.find?_eq_none_iff.2 hin]
    exact ⟨rfl, rfl⟩

end World

namespace Sight.Buries

variable {S : Sight η σ} {dead dead' : List Dead} {w w' w'' : World (Host η)} {a : Address}

/-- What the host keeps may change, as far as it is not seen. -/
theorem unseen {host : Host η} (hview : S.view host.own = S.view w.host.own)
    (hhandles : host.handles = w.host.handles) : S.Buries [] w { w with host } where
  same := ⟨_, _, rfl⟩
  serviceKeys _ := Iff.rfl
  bindings _ := rfl
  finalizers _ := rfl
  gone id x h := absurd h (not_taken_nil id x)
  left _ _ _ := rfl
  view := hview
  handles := hhandles

theorem refl (S : Sight η σ) (w : World (Host η)) : S.Buries [] w w := unseen rfl rfl

theorem trans (h : S.Buries dead w w') (h' : S.Buries dead' w' w'') :
    S.Buries (dead ++ dead') w w'' where
  same := by
    obtain ⟨_, _, rfl⟩ := h.same
    obtain ⟨_, _, rfl⟩ := h'.same
    exact ⟨_, _, rfl⟩
  serviceKeys id := (h'.serviceKeys id).trans (h.serviceKeys id)
  bindings id := (h'.bindings id).trans (h.bindings id)
  finalizers id := (h'.finalizers id).trans (h.finalizers id)
  gone id x htaken := by
    by_cases hlast : Taken dead' id x
    · exact h'.gone id x hlast
    · exact (h'.left id x hlast).trans (h.gone id x ((taken_append.1 htaken).resolve_right hlast))
  left id x htaken := by
    obtain ⟨hfirst, hlast⟩ := not_or.1 (mt taken_append.2 htaken)
    exact (h'.left id x hlast).trans (h.left id x hfirst)
  view := h'.view.trans h.view
  handles := h'.handles.trans h.handles

/-- No finalizer looks at the machine. -/
theorem putMachine (h : S.Buries dead w w') (a : Address) (m : State) :
    S.Buries dead (w.putMachine a m) (w'.putMachine a m) where
  same := by
    obtain ⟨_, _, rfl⟩ := h.same
    exact ⟨_, _, rfl⟩
  serviceKeys := h.serviceKeys
  bindings := h.bindings
  finalizers := h.finalizers
  gone := h.gone
  left := h.left
  view := h.view
  handles := h.handles

theorem discarded (h : S.Buries dead w w') (a : Address) (report? : Option FreeReport) :
    S.Buries dead (w.discarded a report?) (w'.discarded a report?) where
  same := by
    obtain ⟨_, _, rfl⟩ := h.same
    exact ⟨_, _, rfl⟩
  serviceKeys := h.serviceKeys
  bindings := h.bindings
  finalizers := h.finalizers
  gone := h.gone
  left := h.left
  view := h.view
  handles := h.handles

theorem natives (h : S.Buries dead w w') : w'.natives = w.natives := by
  obtain ⟨_, _, rfl⟩ := h.same
  rfl

theorem machine (h : S.Buries dead w w') (a : Address) : w'.machine a = w.machine a := by
  rw [World.machine, World.machine, h.natives]

/-- Objects without a finalizer are buried as they are. -/
theorem of_not_taken (h : S.Buries [] w w') (hnone : ∀ id x, ¬ Taken dead id x) :
    S.Buries dead w w' :=
  { h with
    gone := fun id x htaken => absurd htaken (hnone id x)
    left := fun id x _ => h.left id x (not_taken_nil id x) }

/-- The payload of an object that has a finalizer is taken out. -/
theorem unload (S : Sight η σ) (w : World (Host η)) {service : ServiceId} {x : Address} (hx : x ≠ 0)
    (key : Key) : S.Buries [⟨⟨x, some service⟩, some key⟩] w (w.unload ⟨x, some service⟩) := by
  have hunload := World.unload_eq w service hx
  have hself := World.service_unload_self w service hx
  have hne := fun id (hid : id ≠ service) => World.service_unload_ne w hx hid
  have hsame : (w.unload ⟨x, some service⟩).host = w.host := by rw [hunload]; rfl
  refine ⟨⟨_, w.host, by rw [hunload]; rfl⟩, fun id => ?_, fun id => ?_, fun id => ?_,
    fun id y h => ?_, fun id y h => ?_, by rw [hsame], by rw [hsame]⟩
  · rw [hunload]
    exact Table.mem_keys_modify
  · by_cases hid : id = service
    · subst hid
      rcases hself with h | ⟨h, -⟩ <;> rw [h]
    · rw [hne id hid]
  · by_cases hid : id = service
    · subst hid
      rcases hself with h | ⟨h, -⟩
      · rw [h]
        rfl
      · rw [h]
    · rw [hne id hid]
  · obtain ⟨rfl, rfl⟩ := (taken_singleton hx).1 h
    rcases hself with h | ⟨h, hnone⟩
    · rw [h]
      exact Table.find?_erase_self _ _
    · rw [h]
      exact hnone
  · by_cases hid : id = service
    · subst hid
      have hy : y ≠ x := fun hy => h ((taken_singleton hx).2 ⟨rfl, hy⟩)
      rcases hself with h | ⟨h, -⟩
      · rw [h]
        exact Table.find?_erase_ne _ hy
      · rw [h]
    · rw [hne id hid]

end Sight.Buries

/-! ## Finalizers -/

section

variable {S : Sight η σ} {engines : List Address → Engine (Host η)} {active : List Address}

variable (engines active) in
/-- **A program of which nothing is seen comes to its end**, and changes nothing that is seen. -/
theorem value_of_unseen (p : Program η α) (hp : p.Unseen S) : ∀ w : World (Host η),
    ∃ v t, p.run engines active w = (.value v, t) ∧ S.Buries [] w t := by
  induction p with
  | done v => exact fun w => ⟨v, w, rfl, .refl S w⟩
  | stop halt => exact hp.elim
  | perform op next ih =>
    intro w
    obtain ⟨hop, hnext⟩ := hp
    -- the rest goes on in a world in which the host alone has changed
    have hrest : ∀ outcome {host : Host η}, S.view host.own = S.view w.host.own →
        host.handles = w.host.handles →
        ∃ v t, (next outcome).run engines active { w with host } = (.value v, t) ∧
          S.Buries [] w t := by
      intro outcome host hview hhandles
      obtain ⟨v, t, hrun, ht⟩ := ih outcome (hnext outcome) { w with host }
      exact ⟨v, t, hrun, (Sight.Buries.unseen hview hhandles).trans ht⟩
    cases op with
    | look f => exact hrest (.value (f w.watch)) rfl rfl
    | keep f => exact hrest (.value ()) (hop w.host.own) rfl
    | _ => exact hop.elim

/-- Finalizers end in one way, whatever they are called with. -/
structure Delegates.FinalizersEnd (d : Delegates (Host η)) (Q : Outcome Empty Unit → Prop) :
    Prop where
  ofClass : ∀ f object w, Q (d.classFinalizer f object w).1
  ofType : ∀ f payload w, Q (d.typedFinalizer f payload w).1

/-- Finalizers that cannot be called, since callbacks nest too deep. -/
abbrev Delegates.Barred (d : Delegates (Host η)) : Prop := d.FinalizersEnd (· = .halt .exhausted)

/-- Finalizers that do not reach the bound on callbacks. -/
abbrev Delegates.Free (d : Delegates (Host η)) : Prop := d.FinalizersEnd (· ≠ .halt .exhausted)

/-- Finalizers of which nothing is seen. -/
structure Delegates.Unseen (S : Sight η σ) (d : Delegates (Host η)) : Prop where
  ofClass : ∀ f object w, Lands (fun _ t => S.Buries [] w t) (d.classFinalizer f object) w
  ofType : ∀ f payload w, Lands (fun _ t => S.Buries [] w t) (d.typedFinalizer f payload) w
  even : d.Barred ∨ d.Free

/-- Code whose finalizers nothing is seen of. -/
structure Code.Unseen (S : Sight η σ) (code : Code η) : Prop where
  ofClass : ∀ f object, (code.classFinalizer f object).Unseen S
  ofType : ∀ f payload, (code.typedFinalizer f payload).Unseen S

/-- Where callbacks may be called at all, finalizers do not reach the bound. -/
theorem Code.Unseen.free {code : Code η} (h : code.Unseen S) (importDepth depth : Nat)
    (active : List Address) : (code.engines importDepth (depth + 1) active).delegates.Free := by
  refine ⟨fun f object w hend => ?_, fun f payload w hend => ?_⟩
  · obtain ⟨v, t, hrun, -⟩ := value_of_unseen (code.engines importDepth depth) active _
      (h.ofClass f object) w
    exact absurd ((congrArg Prod.fst hrun).symm.trans hend) (by simp)
  · obtain ⟨v, t, hrun, -⟩ := value_of_unseen (code.engines importDepth depth) active _
      (h.ofType f payload) w
    exact absurd ((congrArg Prod.fst hrun).symm.trans hend) (by simp)

theorem Code.Unseen.delegates {code : Code η} (h : code.Unseen S) (importDepth depth : Nat)
    (active : List Address) : (code.engines importDepth depth active).delegates.Unseen S := by
  cases depth with
  | zero =>
    exact ⟨fun _ _ _ => Or.inl rfl, fun _ _ _ => Or.inl rfl,
      Or.inl ⟨fun _ _ _ => rfl, fun _ _ _ => rfl⟩⟩
  | succ depth =>
    have hlands : ∀ (p : Program η Unit), p.Unseen S → ∀ w : World (Host η),
        Lands (fun _ t => S.Buries [] w t) (p.run (code.engines importDepth depth) active) w := by
      intro p hp w
      obtain ⟨v, t, hrun, ht⟩ := value_of_unseen (code.engines importDepth depth) active p hp w
      exact lands_of_value hrun ht
    exact ⟨fun f object => hlands _ (h.ofClass f object),
      fun f payload => hlands _ (h.ofType f payload), Or.inr (h.free importDepth depth active)⟩

variable {d : Delegates (Host η)} {a : Address}

/-- A computation of which nothing is seen, and another one behind it. -/
theorem lands_seq {x : Run (World (Host η)) φ α} {f : α → Run (World (Host η)) φ β}
    {w : World (Host η)} (hx : Lands (fun _ t => S.Buries [] w t) x w)
    (hf : ∀ v t, Lands (fun _ u => S.Buries [] t u) (f v) t) :
    Lands (fun _ t => S.Buries [] w t) (x >>= f) w :=
  lands_bind hx fun v t ht => (hf v t).mono fun _ _ hu => ht.trans hu

theorem lands_runFinalizers (h : d.Unseen S) (service : ServiceId) (address : Address)
    (classFinalizer? : Option Delegate) (found? : Option Entry) (w : World (Host η)) :
    Lands (fun _ t => S.Buries [] w t)
      (Trampoline.runFinalizers d service address classFinalizer? found?) w := by
  have hrest : ∀ t : World (Host η), Lands (fun _ u => S.Buries [] t u)
      (Trampoline.runFinalizers d service address none found?) t := by
    intro t
    cases found? with
    | none => exact lands_of_value rfl (.unseen (S.untracked address t.host.own) rfl)
    | some e =>
      change Lands _ (Run.gets _ >>= _) t
      refine lands_seq (lands_of_value rfl (.refl S t)) fun s u => ?_
      cases s.payloads.finalizer? e with
      | none => exact lands_of_value rfl (.refl S u)
      | some f => exact lands_seq (h.ofType f _ u) fun _ v => lands_of_value rfl (.refl S v)
  cases classFinalizer? with
  | none => exact hrest w
  | some f => exact lands_seq (h.ofClass f _ w) fun _ => hrest

/-- The finalizer of a swept object takes out the payload, and nothing else is seen of it. -/
theorem lands_finalize (h : d.Unseen S) (block : Block) (key : Key) (w : World (Host η)) :
    Lands (fun _ t => S.Buries [⟨block, some key⟩] w t) (Trampoline.finalize d block key) w := by
  obtain ⟨x, owner?⟩ := block
  by_cases hx : x = 0
  · subst hx
    refine lands_of_value (a := ()) (t := w) ?_ ((Sight.Buries.refl S w).of_not_taken ?_)
    · rw [Trampoline.finalize, if_pos rfl]
      rfl
    · rintro id y ⟨hy, e, he, -, hblock⟩
      obtain rfl := List.mem_singleton.1 he
      exact hy (congrArg Block.address hblock).symm
  cases owner? with
  | none =>
    have hrun : Trampoline.finalize d ⟨x, none⟩ key =
        log .warn ("finalizing untagged foreign object " ++ Text.Hex.address x) := by
      rw [Trampoline.finalize, if_neg hx]
    rw [hrun]
    have hlog : S.Buries [] w (w.logged .warn
        ("finalizing untagged foreign object " ++ Text.Hex.address x)) :=
      .unseen (S.untagged x w.host.own) rfl
    refine lands_of_value rfl (hlog.of_not_taken ?_)
    rintro id y ⟨-, e, he, -, hblock⟩
    obtain rfl := List.mem_singleton.1 he
    exact absurd (congrArg Block.owner? hblock) (by simp)
  | some service =>
    have hrun := Trampoline.finalize_eq (d := d) hx service key w
    rw [Lands, hrun]
    refine lands_bind (lands_runFinalizers h _ _ _ _ _) fun _ t ht => ?_
    exact lands_of_value rfl ((Sight.Buries.unload S w hx key).trans ht)

/-! ## Collections -/

omit [Observer η] in
/-- What work of the host leaves behind, in the middle of a run. -/
theorem lands_atHost {Q : α → World (Host η) → Prop} {x : Effect (Host η) α}
    {r : Running (World (Host η))} (hx : Lands Q x (world a r)) :
    Lands (fun v t => t.machine = (world a t).machine a ∧ Q v (world a t)) (atHost a x) r := by
  obtain ⟨hout, hworld⟩ := world_atHost (a := a) x r
  rcases lands_sealed hx with hx | ⟨v, w, hx, hQ⟩
  · exact Or.inl (hout.trans hx)
  · have hrun : atHost a x r = (.value v, ⟨w.machine a, w⟩) := by
      unfold atHost
      rw [show r.host.putMachine a r.machine = world a r from rfl, hx]
    refine lands_of_value hrun ?_
    rw [world_machine]
    exact ⟨rfl, hQ⟩

/-- The finalizer of an object leaves its machine alone. -/
theorem lands_callFinalizer (h : d.Unseen S) (dead : Dead) {r : Running (World (Host η))}
    (hn : a ∈ (world a r).natives.keys) :
    Lands (fun _ t => t.machine = r.machine ∧ S.Buries [dead] (world a r) (world a t))
      (Machine.callFinalizer (callbacks d a) dead) r := by
  obtain ⟨block, key?⟩ := dead
  cases key? with
  | none =>
    refine lands_of_value rfl ⟨rfl, (Sight.Buries.refl S _).of_not_taken ?_⟩
    rintro id x ⟨-, e, he, hsome, -⟩
    obtain rfl := List.mem_singleton.1 he
    exact absurd hsome (by simp)
  | some key =>
    refine (lands_atHost (lands_finalize h block key (world a r))).mono fun _ t ht => ⟨?_, ht.2⟩
    rw [ht.1, ht.2.machine, machine_world hn]

/-- One swept object is finalized. -/
theorem lands_finalizeOne (h : d.Unseen S) (dead : Dead) {r : Running (World (Host η))}
    (hn : a ∈ (world a r).natives.keys) :
    Lands (fun _ t => t.machine = (r.machine.beginFinalizer dead).endFinalizer ∧
        S.Buries [dead] ((world a r).putMachine a t.machine) (world a t))
      (Machine.finalizeOne (callbacks d a) dead) r := by
  let begun : Running (World (Host η)) := { r with machine := r.machine.beginFinalizer dead }
  have hbegun : a ∈ (world a begun).natives.keys :=
    World.mem_natives_putMachine.2 (World.mem_natives_putMachine.1 hn)
  have hrun : Machine.finalizeOne (callbacks d a) dead r =
      (Machine.callFinalizer (callbacks d a) dead >>= fun _ => Machine.update State.endFinalizer)
        begun := rfl
  rw [Lands, hrun]
  refine lands_bind (lands_callFinalizer h dead hbegun) fun _ t ht => ?_
  refine lands_of_value rfl ⟨congrArg State.endFinalizer ht.1, ?_⟩
  have hput := ht.2.putMachine a t.machine.endFinalizer
  rw [← world_put a t, ← world_put a begun] at hput
  rw [← world_put a r]
  exact hput

/-- All swept objects are finalized, one after the other. -/
theorem lands_finalizeAll (h : d.Unseen S) : ∀ (dead : List Dead) {r : Running (World (Host η))},
    a ∈ (world a r).natives.keys →
      Lands (fun _ t => t.machine = r.machine.bury dead ∧
          S.Buries dead ((world a r).putMachine a t.machine) (world a t))
        (Machine.finalizeAll (callbacks d a) dead) r
  | [], r, hn => by
    refine lands_of_value rfl ⟨rfl, ?_⟩
    have hsame : (world a r).putMachine a r.machine = world a r := by
      rw [← world_put]
    rw [hsame]
    exact .refl S _
  | one :: dead, r, hn => by
    refine lands_bind (lands_finalizeOne h one hn) fun _ t ht => ?_
    have hnt : a ∈ (world a t).natives.keys := by
      rw [ht.2.natives]
      exact World.mem_natives_putMachine.2 hn
    refine (lands_finalizeAll h dead hnt).mono fun _ u hu => ⟨?_, ?_⟩
    · rw [hu.1, ht.1]
      rfl
    · have hfirst := ht.2.putMachine a u.machine
      rw [World.putMachine_putMachine] at hfirst
      exact hfirst.trans hu.2

omit [Observer η] in
/-- A run of a machine lands where its work does. -/
theorem lands_onMachine [Observer η] {w : World (Host η)} (hr : Roster w) {Q : α → World (Host η) → Prop}
    {x : Machine.Callbacks (World (Host η)) → Machine.Call (World (Host η)) α}
    (hx : Lands (fun v t => Q v (world a t)) (x (callbacks d a)) ⟨w.machine a, w⟩) :
    Lands Q (onMachine d a x : Run (World (Host η)) φ α) w := by
  rw [Lands, onMachine_eq hr]
  rcases lands_widen (φ := φ) hx with hx | ⟨v, t, hx, hQ⟩
  · exact Or.inl hx
  · rw [hx]
    exact Or.inr ⟨v, world a t, rfl, hQ⟩

variable {w : World (Host η)}

/-- **A collection leaves the machine without its garbage**, whose payloads are gone. -/
theorem lands_collectGarbage (h : d.Unseen S) (hr : Roster w) (hn : a ∈ w.natives.keys)
    (hswept : (w.machine a).swept = []) :
    Lands (fun _ t =>
        S.Buries (w.machine a).sweep.1 (w.putMachine a (w.machine a).collected) t)
      (onMachine d a Machine.collectGarbage : Run (World (Host η)) φ Unit) w := by
  let swept : Running (World (Host η)) := ⟨(w.machine a).sweep.2, w⟩
  have hloop := lands_finalizeAll h (w.machine a).sweep.1 (r := swept)
    (World.mem_natives_putMachine.2 hn)
  refine lands_onMachine hr (hloop.mono fun _ t ht => ?_)
  rw [ht.1, State.bury_sweep hswept] at ht
  have hput : (world a swept).putMachine a (w.machine a).collected =
      w.putMachine a (w.machine a).collected := World.putMachine_putMachine _ _ _ _
  rw [hput] at ht
  exact ht.2

/-- **The end of a machine finalizes all its objects**, whose payloads are gone. -/
theorem lands_shutdown (h : d.Unseen S) (hr : Roster w) (hn : a ∈ w.natives.keys)
    (hswept : (w.machine a).swept = []) :
    Lands (fun leaked t => leaked = (w.machine a).handles.size ∧
        (t.machine a).finalized = (w.machine a).finalized + (w.machine a).heap.foreignCount ∧
        ∃ m, S.Buries (w.machine a).drain.1 (w.putMachine a m) t)
      (onMachine d a Machine.shutdown : Run (World (Host η)) φ Nat) w := by
  let drained : Running (World (Host η)) := ⟨(w.machine a).drain.2, w⟩
  have hloop := lands_finalizeAll h (w.machine a).drain.1 (r := drained)
    (World.mem_natives_putMachine.2 hn)
  have hrun : Machine.shutdown (callbacks d a) ⟨w.machine a, w⟩ =
      (Machine.finalizeAll (callbacks d a) (w.machine a).drain.1 >>= fun _ =>
        pure (w.machine a).handles.size) drained := rfl
  refine lands_onMachine hr ?_
  rw [Lands, hrun]
  refine lands_bind hloop fun _ t ht => lands_of_value rfl ⟨rfl, ?_, ?_⟩
  · have hnt : a ∈ (world a t).natives.keys := by
      rw [ht.2.natives]
      exact World.mem_natives_putMachine.2 (World.mem_natives_putMachine.2 hn)
    rw [machine_world hnt, ht.1]
    exact State.finalized_drain hswept
  · have hput : (world a drained).putMachine a t.machine = w.putMachine a t.machine :=
      World.putMachine_putMachine _ _ _ _
    exact ⟨t.machine, hput ▸ ht.2⟩

end

end ScriptHost.Bridge
