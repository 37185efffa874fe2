import ScriptHost.Proofs.Burials

/-!
# Worlds that are alike

Two machines are akin if they differ in garbage only, and in how much of it has been finalized by now
(`State.Akin`): all their modules, slots and handles are the same, and so is what can be reached from
there.  Two worlds are alike if their machines are akin, and if the host sees the same of what it keeps
for itself (`World.Alike`).  What may differ besides are the payloads of garbage, and the records of
calls into machines.

A host that looks at nothing else is discreet (`Program.Discreet`, `Code.Discreet`): it does not count
what is alive, nor what is tracked, and it does not look when finalizers run.
-/

namespace ScriptHost.Machine.State

/-- Two machines with the same roots and the same objects to be reached from there, which have finalized
as much once what is alive is counted as well. -/
structure Akin (m m' : State) : Prop where
  same : m' = { m with heap := m'.heap, finalized := m'.finalized }
  lastId : m'.heap.lastId = m.heap.lastId
  objects : ∀ id ∈ m.heap.reachable m.roots, m'.heap.get? id = m.heap.get? id
  total : m'.finalized + m'.heap.foreignCount = m.finalized + m.heap.foreignCount

theorem Akin.refl (m : State) : m.Akin m := ⟨rfl, rfl, fun _ _ => rfl, rfl⟩

/-- Machines that match are akin. -/
theorem Matches.akin {P : ObjectId → Prop} {m m' : State} (h : Matches P m m') : m.Akin m' :=
  ⟨h.same, h.heap.lastId, fun id hid => h.heap.get? id (h.reachable.2 hid), h.total⟩

end ScriptHost.Machine.State

namespace ScriptHost.Bridge

open Machine (State)

variable {η σ α β : Type} [Observer η]

/-! ## What a host may see -/

/-- Two worlds that differ in garbage, in the payloads of garbage, and in what is not seen of the
host. -/
structure World.Alike (S : Sight η σ) (w w' : World (Host η)) : Prop where
  same : ∃ natives services calls host, w' = { w with natives, services, calls, host }
  natives : ∀ a, a ∈ w'.natives.keys ↔ a ∈ w.natives.keys
  machines : ∀ a, (w.machine a).Akin (w'.machine a)
  serviceKeys : ∀ id, id ∈ w'.services.keys ↔ id ∈ w.services.keys
  bindings : ∀ id, (w'.service id).bindings = (w.service id).bindings
  finalizers : ∀ id, (w'.service id).payloads.finalizers = (w.service id).payloads.finalizers
  /-- The payloads of the objects that can be reached. -/
  entries : ∀ a id owner block, id ∈ (w.machine a).heap.reachable (w.machine a).roots →
    (w.machine a).heap.foreign? id = some (owner, block) → ∀ service,
      (w'.service service).payloads.entries.find? block.address =
        (w.service service).payloads.entries.find? block.address
  view : S.view w'.host.own = S.view w.host.own
  handles : w'.host.handles = w.host.handles

/-- **Worlds that are related are alike**, whatever one of them has lost. -/
theorem Comparison.Relates.alike {C : Comparison η σ} {active : List Address} {w w' : World (Host η)}
    (r : C.Relates active w w') : w.Alike C.sight w' where
  same := r.same
  natives := r.natives
  machines a := by
    by_cases ha : a ∈ w.natives.keys
    · exact (r.machines a ha).alike.akin
    · rw [World.machine_of_not_mem ha, World.machine_of_not_mem fun h => ha ((r.natives a).1 h)]
      exact .refl _
  serviceKeys := r.serviceKeys
  bindings id := (r.services id).bindings
  finalizers id := (r.services id).finalizers
  entries a id owner block hreach hblock service := by
    have ha : a ∈ w.natives.keys := by
      refine Decidable.byContradiction fun ha => ?_
      rw [World.machine_of_not_mem ha, State.foreign?_create] at hblock
      exact absurd hblock (by simp)
    have hm := r.machines a ha
    refine (r.services service).entries block.address fun hhidden => ?_
    exact (hm.lies.block id owner block hblock).2.1 hhidden (hm.alike.reachable.2 hreach)
  view := r.view
  handles := r.handles

/-! ## Discreet hosts -/

/-- An operation that does not look at what collections change. -/
def Operation.Discreet (S : Sight η σ) : Operation η β → Prop
  | .look f => ∀ ⦃w w' : World (Host η)⦄, w.Alike S w' → f w' = f w
  | .keep f => ∀ ⦃own own' : η⦄, S.view own' = S.view own → S.view (f own') = S.view (f own)
  | _ => True

/-- A program that does not look at what collections change. -/
def Program.Discreet (S : Sight η σ) : Program η α → Prop
  | .done _ => True
  | .stop _ => True
  | .perform op next => op.Discreet S ∧ ∀ outcome, (next outcome).Discreet S

/-- Code that does not look at what collections change.  Of its finalizers nothing is seen, so that
they do not touch machines either. -/
structure Code.Discreet (S : Sight η σ) (code : Code η) : Prop extends code.Unseen S where
  write : ∀ f vm text, (code.write f vm text).Discreet S
  error : ∀ f vm diagnostic, (code.error f vm diagnostic).Discreet S
  resolve : ∀ f vm importer name, (code.resolve f vm importer name).Discreet S
  load : ∀ f vm name, (code.load f vm name).Discreet S
  bindClass : ∀ f vm module name, (code.bindClass f vm module name).Discreet S
  bindMethod : ∀ f vm name, (code.bindMethod f vm name).Discreet S
  method : ∀ f vm, (code.method f vm).Discreet S
  allocator : ∀ f vm, (code.allocator f vm).Discreet S

end ScriptHost.Bridge
