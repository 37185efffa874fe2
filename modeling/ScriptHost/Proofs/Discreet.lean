import ScriptHost.Proofs.Alike
import ScriptHost.Proofs.BlindRuns
import ScriptHost.Proofs.Removals

/-!
# Discreet hosts are blind

A discreet operation ends alike in related worlds, if the functions that machines call back do
(`joint_operation`).  So do discreet programs (`blind_program`), and with them the functions of a
discreet host, however deep they nest (`Code.Discreet.blind`): by induction on the depth, since where it
is reached the first world has come to its end.
-/

namespace ScriptHost.Bridge

open Run (Joint joint_bind joint_get joint_gets joint_modify joint_observed joint_read)

variable {η σ φ α β : Type} [Observer η] {C : Comparison η σ} {active : List Address}
  {w w' : World (Host η)}

/-! ## Operations -/

/-- The rules for operations are the same in both worlds. -/
theorem Comparison.Relates.isPermitted (r : C.Relates active w w') (op : Operation η β) :
    op.isPermitted active w' = op.isPermitted active w := by
  have hservices : ∀ id, w'.services.contains id = w.services.contains id := fun id =>
    Bool.eq_iff_iff.2 (by rw [Table.contains_iff, Table.contains_iff, r.serviceKeys])
  cases op with
  | create service config =>
    show (w'.services.contains service &&
        (!w'.hasFault .sameVm || w'.lastVm?.all w'.registered.contains)) =
      (w.services.contains service && (!w.hasFault .sameVm || w.lastVm?.all w.registered.contains))
    rw [hservices, r.hasFault, r.lastVm?, r.registered]
  | setHandle _ h | release h | call _ h => exact congrArg (·.contains h) r.handles
  | dispose vm | drop vm =>
    show (!vm.isRoot || !(w'.vm vm.id).isAlive || !active.contains (w'.addressOf vm.id)) =
      (!vm.isRoot || !(w.vm vm.id).isAlive || !active.contains (w.addressOf vm.id))
    rw [r.vm, r.addressOf]
  | _ => rfl

/-- From now on the same is misreported in both worlds. -/
theorem Comparison.Relates.misreport (r : C.Relates active w w') {faults : List NativeFault}
    (h : faults.all NativeFault.isHonest = true) :
    C.Relates active { w with faults } { w' with faults } := by
  refine r.congr ?_ rfl (Nat.le_refl _) ?_ rfl rfl rfl rfl r.view r.handles
  · obtain ⟨_, _, _, _, rfl⟩ := r.same
    exact ⟨_, _, _, _, rfl⟩
  · exact { r.roster with honest := h }

/-- A discreet operation that keeps the rules ends alike in related worlds. -/
theorem joint_operation {engines : List Address → Engine (Host η)}
    (he : ∀ a, (engines (a :: active)).delegates.Blind C (a :: active)) {op : Operation η β}
    (hop : op.Discreet C.sight) (r : C.Relates active w w')
    (hpermitted : op.isPermitted active w = true) :
    Joint (C.Relates active) (fun _ => True) (op.run engines active) (op.run engines active) w w' := by
  have hfree : ∀ vm : Vm, vm.isRoot = true →
      (!vm.isRoot || !(w.vm vm.id).isAlive || !active.contains (w.addressOf vm.id)) = true →
      (w.vm vm.id).isAlive = true → w.addressOf vm.id ∉ active := by
    intro vm hroot h halive
    simpa [hroot, halive] using h
  have haccessor : ∀ (op : Operation η β) {acc : Accessor (Host η) β}, op.accessor? = some acc →
      C.Blind active acc.run → C.Blind active (op.run engines active) := fun _ _ h hacc =>
    Operation.run_eq h ▸ hacc
  cases op with
  | look f => exact joint_read (hop r.alike) r trivial
  | keep f => exact joint_modify (r.withHost (hop r.view) r.handles)
  | misreport faults => exact joint_modify (r.misreport hpermitted)
  | newService => exact blind_newService r
  | registerClass service binding => exact blind_registerClass service binding r
  | registerMethod service binding => exact blind_registerMethod service binding r
  | registerFinalizer service t finalizer => exact blind_registerFinalizer service t finalizer r
  | create service config =>
    obtain ⟨hservice, hlast⟩ := Bool.and_eq_true_iff.1 hpermitted
    exact joint_create r config (Table.contains_iff.1 hservice) hlast
  | lookupVm service a => exact blind_lookupVm service a r
  | listen vm f => exact blind_modifyListeners vm f r
  | access x => exact blind_access x r
  | makeCallHandle vm signature => exact blind_recordingHandle (blind_makeCallHandle vm signature) r
  | getHandle s =>
    refine blind_recordingHandle ?_ r
    refine blind_bind (blind_checked _ _) fun a => blind_bind (blind_slotHandle _) fun made? => ?_
    exact blind_adopt _ made? _
  | setHandle s h => exact blind_setHandle s h r
  | release h => exact blind_release h r
  | setNewForeignObject s cls object => exact blind_setNewForeign s cls _ (.object object) r
  | setNewForeignStruct s cls value => exact blind_setNewForeign s cls _ (.value value) r
  | setForeignStruct s value =>
    refine haccessor (.setForeignStruct s value) rfl ?_ r
    exact blind_accessor (blind_passing (blind_holding _ _ _)) trivial fun _ hb =>
      blind_assignAt s value hb
  | interpret vm module source =>
    exact joint_gets (r.addressOf vm) (joint_interpret (he _) r module source)
  | call vm h => exact joint_gets (r.addressOf vm) (joint_call (he _) r h)
  | collectGarbage vm =>
    exact joint_gets (r.addressOf vm) (blind_collectGarbage (he _).unseen vm r)
  | dispose vm =>
    refine joint_gets (r.addressOf vm.id) ?_
    unfold Vm.dispose
    split
    · next hroot => exact joint_shutdown (he _).unseen r (hfree vm hroot hpermitted)
    · exact blind_bind (blind_gets fun r => r.addressOf vm.id) (fun _ => blind_log _ _) r
  | drop vm =>
    refine joint_gets (r.addressOf vm.id) ?_
    unfold Vm.drop
    split
    · next hroot => exact joint_shutdown (he _).unseen r (hfree vm hroot hpermitted)
    · exact blind_pure () r

/-! ## Programs -/

theorem Comparison.Relates.watch (r : C.Relates active w w') : C.Relates active w.watch w'.watch :=
  r.withHost r.view r.handles

/-- A discreet program ends alike in related worlds. -/
theorem blind_program {engines : List Address → Engine (Host η)}
    (he : ∀ a, (engines (a :: active)).delegates.Blind C (a :: active)) (p : Program η α)
    (hp : p.Discreet C.sight) : C.Blind active (p.run engines active) := by
  induction p with
  | done v => exact blind_pure v
  | stop halt => exact blind_halt halt
  | perform op next ih =>
    refine blind_bind (blind_modify fun r => r.watch) fun _ w w' r => joint_get ?_
    rw [r.isPermitted]
    split
    · next hpermitted =>
      exact joint_bind (joint_observed (joint_operation he hp.1 r hpermitted)) fun outcome t t' rt _ =>
        ih outcome (hp.2 outcome) rt
    · exact blind_halt _ r

/-! ## Callbacks -/

theorem blind_delegates {code : Code η} (hcode : code.Discreet C.sight)
    {run : {α : Type} → Program η α → Effect (Host η) α}
    (h : ∀ {α : Type} (p : Program η α), p.Discreet C.sight → C.Blind active (run p))
    (hunseen : (code.delegates run).Unseen C.sight) : (code.delegates run).Blind C active where
  write _ _ _ := h _ (hcode.write _ _ _)
  error _ _ _ := h _ (hcode.error _ _ _)
  resolve _ _ _ _ := h _ (hcode.resolve _ _ _ _)
  load _ _ _ := h _ (hcode.load _ _ _)
  bindClass _ _ _ _ := h _ (hcode.bindClass _ _ _ _)
  bindMethod _ _ _ := h _ (hcode.bindMethod _ _ _)
  method _ _ := blind_bind (blind_widen (h _ (hcode.method _ _))) fun result => blind_ofExcept result
  allocator _ _ :=
    blind_bind (blind_widen (h _ (hcode.allocator _ _))) fun result => blind_ofExcept result
  unseen := hunseen

/-- **The functions of a discreet host do not see what was lost**, however deep they nest. -/
theorem Code.Discreet.blind {code : Code η} (hcode : code.Discreet C.sight) (importDepth : Nat) :
    ∀ (depth : Nat) (active : List Address),
      (code.engines importDepth depth active).delegates.Blind C active
  | 0, active => blind_delegates hcode (fun _ _ => blind_halt _)
      (hcode.toUnseen.delegates importDepth 0 active)
  | depth + 1, active => blind_delegates hcode
      (fun p hp => blind_program (fun a => Code.Discreet.blind hcode importDepth depth (a :: active)) p hp)
      (hcode.toUnseen.delegates importDepth (depth + 1) active)

end ScriptHost.Bridge
