import ScriptHost.Proofs.Aborts
import ScriptHost.Proofs.Discreet
import ScriptHost.Proofs.Losing

/-!
# Collections in between

A host may ask for collections between any two of its operations (`Program.Interspersed`).  If it is
discreet, and addresses are never used again, that makes no difference to it
(`Setting.collections_unseen`): each of its operations is performed in a world that is alike, has the
same result or the same error, and leaves a world that is alike, as does the whole program.

The worlds of the two programs are related at every moment (`Setting.Paired`).  Common operations keep
that, since discreet hosts are blind, and so do the collections of the second host alone.
-/

namespace ScriptHost.Bridge

open Run (Joint joint_observed)

variable {η σ α β : Type}

/-! ## Two programs -/

/-- The second program does what the first one does, and collects garbage in between as well. -/
inductive Program.Interspersed : Program η α → Program η α → Prop where
  | done (a : α) : Interspersed (.done a) (.done a)
  | stop (h : Halt) : Interspersed (.stop h) (.stop h)
  | perform {β : Type} (op : Operation η β) {next next' : Outcome HostError β → Program η α}
      (h : ∀ outcome, Interspersed (next outcome) (next' outcome)) :
      Interspersed (.perform op next) (.perform op next')
  | collect (vm : VmId) {p : Program η α} {next' : Outcome HostError Unit → Program η α}
      (h : ∀ outcome, Interspersed p (next' outcome)) :
      Interspersed p (.perform (.collectGarbage vm) next')

section

variable [Observer η] {engines : List Address → Engine (Host η)} {active : List Address}
  {p q q' : Program η α} {w u v : World (Host η)}

/-- A program that keeps the rules goes on behind an operation. -/
theorem Program.run_of_permitted {op : Operation η β} {next : Outcome HostError β → Program η α}
    (hop : op.isPermitted active w.watch = true) :
    (Program.perform op next).run engines active w =
      ((op.run engines active).observed >>= fun outcome => (next outcome).run engines active :
        Effect (Host η) α) w.watch := by
  have hperform : (Program.perform op next).run engines active w =
      (if op.isPermitted active w.watch = true then
        (op.run engines active).observed >>= fun outcome => (next outcome).run engines active
      else Run.halt (.fatal "broken rule") : Effect (Host η) α) w.watch := rfl
  rw [hperform, if_pos hop]

/-- A program that breaks a rule comes to its end. -/
theorem Program.run_of_not_permitted {op : Operation η β} {next : Outcome HostError β → Program η α}
    (hop : ¬ op.isPermitted active w.watch = true) :
    (Program.perform op next).run engines active w = (.halt (.fatal "broken rule"), w.watch) := by
  have hperform : (Program.perform op next).run engines active w =
      (if op.isPermitted active w.watch = true then
        (op.run engines active).observed >>= fun outcome => (next outcome).run engines active
      else Run.halt (.fatal "broken rule") : Effect (Host η) α) w.watch := rfl
  rw [hperform, if_neg hop]
  rfl

/-- An operation that reaches the bound ends the program. -/
theorem Program.exhausted_run {op : Operation η β} {next : Outcome HostError β → Program η α}
    (hop : op.isPermitted active w.watch = true)
    (hend : (op.run engines active w.watch).1 = .halt .exhausted) :
    ((Program.perform op next).run engines active w).1 = .halt .exhausted := by
  have hobserved : (((op.run engines active).observed :
      Effect (Host η) (Outcome HostError β)) w.watch).1 = .halt .exhausted := by
    unfold Run.observed
    rcases hrun : op.run engines active w.watch with ⟨o, t⟩
    obtain rfl : o = .halt .exhausted := (congrArg Prod.fst hrun).symm.trans hend
    rfl
  rw [Program.run_of_permitted hop, Run.exhausted_bind]
  exact Or.inl hobserved

theorem Program.Leads.trans (h : Leads engines active p w q u) (h' : Leads engines active q u q' v) :
    Leads engines active p w q' v := by
  induction h with
  | refl => exact h'
  | step hop hrun _ ih => exact .step hop hrun (ih h')

end

/-! ## Their worlds -/

namespace Setting

variable [Observer η] {s : Setting η} {S : Sight η σ} {w w' t t' u : World (Host η)}

/-- Worlds that two hosts come to between their operations, and that are related. -/
structure Paired (s : Setting η) (S : Sight η σ) (w w' : World (Host η)) : Prop where
  moves : Moves [] s.start w
  moves' : Moves [] s.start w'
  related : ∃ C : Comparison η σ, C.sight = S ∧ C.Relates [] w w'

theorem Paired.alike (h : s.Paired S w w') : w.Alike S w' := by
  obtain ⟨C, rfl, r⟩ := h.related
  exact r.alike

theorem Paired.isPermitted (h : s.Paired S w w') (op : Operation η β) :
    op.isPermitted [] w' = op.isPermitted [] w := by
  obtain ⟨C, rfl, r⟩ := h.related
  exact r.isPermitted op

/-- In the beginning nothing has been lost. -/
theorem paired_start {sequence : Nat → Address} (h : s.placement.Follows sequence) :
    s.Paired S s.start s.start := by
  have hrefl : Moves [] s.start s.start := (span_moves []).refl _
  refine ⟨hrefl, hrefl, ⟨S, sequence, fun _ _ => True, fun _ => False⟩, rfl, ?_⟩
  have hroster : Roster s.start := s.steady_start.sound.roster
  exact {
    same := ⟨_, _, _, _, rfl⟩
    placement := h
    roster := hroster
    managed' := hroster.managed
    natives := fun _ => Iff.rfl
    running := fun _ ha => absurd ha List.not_mem_nil
    machines := fun _ ha => absurd ha List.not_mem_nil
    serviceKeys := fun _ => Iff.rfl
    services := fun _ => ⟨rfl, rfl, fun _ _ => rfl⟩
    used := fun _ hx => absurd hx (by rintro (hx | hx) <;> exact absurd hx List.not_mem_nil)
    hidden := fun _ hx => hx.elim
    kept := fun _ _ hlost => absurd trivial hlost
    view := rfl
    handles := rfl }

omit [Observer η] in
theorem moves_watch (h : Moves [] s.start w) : Moves [] s.start w.watch :=
  (span_moves []).trans h
    (((Step.watch w).calm (Gentle.of_eq rfl rfl fun _ _ => Iff.rfl)).moves [])

/-- An operation leads from one world of rest to another. -/
theorem moves_observed (op : Operation η β) {outcome : Outcome HostError β}
    (hop : op.isPermitted [] w = true)
    (hrun : ((op.run s.engines []).observed : Effect (Host η) (Outcome HostError β)) w =
      (.value outcome, t)) (h : Moves [] s.start w) : Moves [] s.start t := by
  have hserves : Regime.free.Serves s.engines :=
    serves_engines upheld_free s.code.obeys_free s.importDepth s.depth
  have hwithin := Run.within_observed (ψ := Empty)
    (within_operation upheld_free.toSustained hserves op (Licence.permits_free op) hop)
  have hmoves := hwithin.2 (by rw [hrun]; rfl)
  rw [hrun] at hmoves
  exact (span_moves []).trans h fun hw => (hmoves hw trivial).1 hw

theorem Paired.watch (h : s.Paired S w w') : s.Paired S w.watch w'.watch := by
  obtain ⟨C, hC, r⟩ := h.related
  exact ⟨moves_watch h.moves, moves_watch h.moves', C, hC, r.watch⟩

section

variable (hcode : s.code.Discreet S)
include hcode

/-- **A common operation has the same result**, and leaves worlds that are alike. -/
theorem Paired.operation (h : s.Paired S w w') {op : Operation η β} (hop : op.Discreet S)
    (hpermitted : op.isPermitted [] w = true) (hend : (op.run s.engines [] w).1 ≠ .halt .exhausted) :
    (op.run s.engines [] w').1 = (op.run s.engines [] w).1 ∧
      (op.run s.engines [] w).2.Alike S (op.run s.engines [] w').2 := by
  obtain ⟨C, rfl, r⟩ := h.related
  have hjoint := joint_operation (fun a => hcode.blind s.importDepth s.depth [a]) hop r hpermitted
  exact (hjoint.same hend).imp_right fun ht => ht.alike

/-- Behind a common operation both hosts go on with the same result, or their processes end alike. -/
theorem Paired.observed (h : s.Paired S w w') {op : Operation η β} (hop : op.Discreet S)
    (hpermitted : op.isPermitted [] w = true) {o : Outcome Empty (Outcome HostError β)}
    (hrun : (op.run s.engines []).observed w = (o, t)) (hend : o ≠ .halt .exhausted) :
    ∃ t', (op.run s.engines []).observed w' = (o, t') ∧ t.Alike S t' ∧
      ∀ outcome, o = .value outcome → s.Paired S t t' := by
  obtain ⟨C, rfl, r⟩ := h.related
  have hjoint := joint_operation (fun a => hcode.blind s.importDepth s.depth [a]) hop r hpermitted
  have hobserved : Joint (C.Relates []) (fun _ => True) (op.run s.engines []).observed
      ((op.run s.engines []).observed : Effect (Host η) (Outcome HostError β)) w w' :=
    joint_observed hjoint
  obtain ⟨hsame, hrelated⟩ := hobserved.same (by rw [hrun]; exact hend)
  rcases hrun' : ((op.run s.engines []).observed :
    Effect (Host η) (Outcome HostError β)) w' with ⟨o', t'⟩
  rw [hrun, hrun'] at hsame hrelated
  obtain rfl : o' = o := hsame
  refine ⟨t', rfl, hrelated.alike, fun outcome ho => ?_⟩
  subst ho
  exact ⟨moves_observed op hpermitted hrun h.moves,
    moves_observed op (by rw [r.isPermitted, hpermitted]) hrun' h.moves', C, rfl, hrelated⟩

/-- **A collection in between changes nothing that is seen.** -/
theorem Paired.collects (hdepth : 0 < s.depth) (h : s.Paired S w w') (vm : VmId) :
    ∃ outcome t', (((Operation.collectGarbage vm).run s.engines []).observed :
        Effect (Host η) (Outcome HostError Unit)) w'.watch = (.value outcome, t') ∧
      s.Paired S w t' := by
  obtain ⟨C, rfl, r⟩ := h.related
  have hmoves' := moves_watch h.moves'
  have rwatch : C.Relates [] w w'.watch := r.aside _ rfl rfl
  obtain ⟨depth, hsucc⟩ := Nat.exists_eq_succ_of_ne_zero (Nat.ne_of_gt hdepth)
  have hfree : ∀ a, (s.engines [a]).delegates.Free := fun a => by
    rw [engines, hsucc]
    exact hcode.toUnseen.free s.importDepth depth [a]
  have hunseen : ∀ a, (s.engines [a]).delegates.Unseen C.sight := fun a =>
    hcode.toUnseen.delegates s.importDepth s.depth [a]
  obtain ⟨outcome, t', hcollect, C', hC', r'⟩ := rwatch.collects
    (tracking_of_steps (h.moves s.steady_start).1) (tracking_of_steps (hmoves' s.steady_start).1)
    (hunseen (w'.watch.addressOf vm)) (hfree _) vm
  have hmake : (Operation.collectGarbage vm).run s.engines [] =
      (Run.gets (fun w => w.addressOf vm) >>= fun a => Vm.collectGarbage (s.engines [a]) vm :
        Act (Host η) Unit) := rfl
  have hrun : (((Operation.collectGarbage vm).run s.engines []).observed :
      Effect (Host η) (Outcome HostError Unit)) w'.watch = (.value outcome, t') := by
    rw [← hcollect]
    unfold Run.observed
    rw [hmake, Run.gets_bind]
  exact ⟨outcome, t', hrun, h.moves, moves_observed (.collectGarbage vm) rfl hrun hmoves', C', hC',
    r'⟩

/-! ## The programs -/

variable (hdepth : 0 < s.depth)
include hdepth

/-- Both programs come to the same end. -/
theorem run_of_interspersed {p p' : Program η α} (h : p.Interspersed p') :
    ∀ {w w' : World (Host η)}, p.Discreet S → s.Paired S w w' →
      (p.run s.engines [] w).1 ≠ .halt .exhausted →
      (p'.run s.engines [] w').1 = (p.run s.engines [] w).1 ∧
        (p.run s.engines [] w).2.Alike S (p'.run s.engines [] w').2 := by
  induction h with
  | done | stop => exact fun _ hw _ => ⟨rfl, hw.alike⟩
  | @perform β op next next' _ ih =>
    intro w w' hp hw hend
    by_cases hpermitted : op.isPermitted [] w.watch = true
    · rw [Program.run_of_permitted hpermitted] at hend ⊢
      rw [Program.run_of_permitted ((hw.watch.isPermitted op).trans hpermitted)]
      rcases hrun : ((op.run s.engines []).observed :
        Effect (Host η) (Outcome HostError β)) w.watch with ⟨o, t⟩
      have ho : o ≠ .halt .exhausted := by
        rintro rfl
        rw [Run.bind_of_halt hrun] at hend
        exact hend rfl
      obtain ⟨t', hrun', halike, hpaired⟩ := hw.watch.observed hcode hp.1 hpermitted hrun ho
      cases o with
      | value outcome =>
        rw [Run.bind_of_value hrun] at hend ⊢
        rw [Run.bind_of_value hrun']
        exact ih outcome (hp.2 outcome) (hpaired outcome rfl) hend
      | fault e => exact e.elim
      | halt halt =>
        rw [Run.bind_of_halt hrun, Run.bind_of_halt hrun']
        exact ⟨rfl, halike⟩
    · rw [Program.run_of_not_permitted hpermitted,
        Program.run_of_not_permitted (hw.watch.isPermitted op ▸ hpermitted)]
      exact ⟨rfl, hw.watch.alike⟩
  | collect vm _ ih =>
    intro w w' hp hw hend
    obtain ⟨outcome, t', hrun, hpaired⟩ := hw.collects hcode hdepth vm
    rw [Program.run_perform rfl hrun]
    exact ih outcome hp hpaired hend

/-- The second program comes to the next common operation by way of collections. -/
theorem leads_of_collects {q' : Program η α} {op : Operation η β}
    {next : Outcome HostError β → Program η α} (h : (Program.perform op next).Interspersed q')
    (hw : s.Paired S u w') :
    ∃ next' t', Program.Leads s.engines [] q' w' (.perform op next') t' ∧
      (∀ outcome, (next outcome).Interspersed (next' outcome)) ∧ s.Paired S u t' := by
  generalize hq : Program.perform op next = q at h
  induction h generalizing w' with
  | done | stop => cases hq
  | perform op' hnext =>
    cases hq
    exact ⟨_, w', .refl _ _, hnext, hw⟩
  | collect vm _ ih =>
    obtain ⟨outcome, t', hrun, hpaired⟩ := hw.collects hcode hdepth vm
    obtain ⟨next', v', hleads, hnext, hv⟩ := ih outcome hpaired hq
    exact ⟨next', v', .step rfl hrun hleads, hnext, hv⟩

/-- Wherever the first program comes to, the second one comes to the same place, in a world that is
related. -/
theorem leads_of_interspersed {p q : Program η α} (h : Program.Leads s.engines [] p w q u) :
    ∀ {p' : Program η α} {w' : World (Host η)}, p.Interspersed p' → p.Discreet S →
      s.Paired S w w' → ∃ q' u', Program.Leads s.engines [] p' w' q' u' ∧ q.Interspersed q' ∧
        q.Discreet S ∧ s.Paired S u u' := by
  induction h with
  | refl => exact fun hp hdiscreet hw => ⟨_, _, .refl _ _, hp, hdiscreet, hw⟩
  | step hop hrun _ ih =>
    intro p' w' hp hdiscreet hw
    obtain ⟨next', t', hleads, hnext, ht⟩ := leads_of_collects hcode hdepth hp hw
    obtain ⟨v', hrun', -, hv⟩ := ht.watch.observed hcode hdiscreet.1 hop hrun (by simp)
    obtain ⟨q', u', hrest, hq⟩ := ih (hnext _) (hdiscreet.2 _) (hv _ rfl)
    have hop' := (ht.watch.isPermitted _).trans hop
    exact ⟨q', u', hleads.trans (.step hop' hrun' hrest), hq⟩

end

/-- Two hosts that are not told apart by what they do.  Each operation of the first one is one of the
second one, in a world that is alike; it has the same result or the same error, and leaves a world that
is alike.  So do their programs as a whole. -/
structure Agrees (s : Setting η) (S : Sight η σ) (p p' : Program η α) : Prop where
  operation : ∀ {β : Type} {op : Operation η β} {next : Outcome HostError β → Program η α}
    {u : World (Host η)}, Program.Leads s.engines [] p s.start (.perform op next) u →
    op.isPermitted [] u.watch = true → ∃ next' u',
      Program.Leads s.engines [] p' s.start (.perform op next') u' ∧
        op.isPermitted [] u'.watch = true ∧ u.Alike S u' ∧
        (op.run s.engines [] u'.watch).1 = (op.run s.engines [] u.watch).1 ∧
        (op.run s.engines [] u.watch).2.Alike S (op.run s.engines [] u'.watch).2
  outcome : (s.run p').1 = (s.run p).1
  world : (s.run p).2.Alike S (s.run p').2

/-- **Collections in between are not seen**, whatever the host does on its machines, if it is discreet,
if nothing is seen of its finalizers, and if no address is handed out twice.  They do not change the
result or the error of any operation, what programs write and report, nor any variable or slot, and even
what is reported of a machine in the end is the same. -/
theorem collections_unseen (s : Setting η) {sequence : Nat → Address}
    (hplacement : s.placement.Follows sequence) (hdepth : 0 < s.depth) (hcode : s.code.Discreet S)
    {p p' : Program η α} (hp : p.Discreet S) (h : p.Interspersed p')
    (hend : (s.run p).1 ≠ .halt .exhausted) : s.Agrees S p p' := by
  have hstart : s.Paired S s.start s.start := paired_start hplacement
  obtain ⟨houtcome, hworld⟩ := run_of_interspersed hcode hdepth h hp hstart hend
  refine ⟨fun {β op next u} hleads hop => ?_, houtcome, hworld⟩
  obtain ⟨q', v', hleads', hq, hdiscreet, hv⟩ := leads_of_interspersed hcode hdepth hleads h hp hstart
  obtain ⟨next', u', hcollects, -, hu⟩ := leads_of_collects hcode hdepth hq hv
  have hopend : (op.run s.engines [] u.watch).1 ≠ .halt .exhausted := fun hbound =>
    hend ((congrArg Prod.fst hleads.run_eq).trans (Program.exhausted_run hop hbound))
  obtain ⟨hsame, halike⟩ := hu.watch.operation hcode hdiscreet.1 hop hopend
  exact ⟨next', u', hleads'.trans hcollects, (hu.watch.isPermitted op).trans hop, hu.alike, hsame,
    halike⟩

end Setting

/-! ## A host that takes minutes -/

/-- What a host writes down: what its programs wrote, and how many finalizers have run. -/
structure Minutes where
  written : List String
  finalized : Nat
  deriving DecidableEq

instance : Observer Minutes where
  log _ _ h := h
  released _ _ h := h

/-- Sight of what was written. -/
def Sight.written : Sight Minutes (List String) where
  view := Minutes.written
  log _ _ _ _ h := h
  released _ _ _ _ h := h
  untracked _ _ := rfl
  untagged _ _ := rfl

/-- One address behind the other, as long as nothing lies there. -/
def Placement.successive : Placement where
  place serial taken := if serial + 1 ∈ taken then greatest taken + 1 else serial + 1
  place_pos serial taken := by split <;> exact Nat.succ_pos _
  place_fresh serial taken := by
    split
    · exact Placement.next.place_fresh serial taken
    · assumption

theorem Placement.follows_successive : Placement.successive.Follows (· + 1) where
  injective _ _ h := Nat.succ_inj.1 h
  place serial taken h := by
    refine if_neg fun hin => ?_
    obtain ⟨k, hk, heq⟩ := h _ hin
    exact Nat.ne_of_lt hk (Nat.succ_inj.1 heq)

namespace Program

theorem interspersed_ask {op : Operation η β} {next next' : β → Program η α}
    (h : ∀ v, (next v).Interspersed (next' v)) : (ask op next).Interspersed (ask op next') := by
  refine .perform op fun outcome => ?_
  cases outcome with
  | value v => exact h v
  | fault | halt => exact .stop _

theorem discreet_ask [Observer η] {S : Sight η σ} {op : Operation η β} {next : β → Program η α}
    (hop : op.Discreet S) (h : ∀ v, (next v).Discreet S) : (ask op next).Discreet S := by
  refine ⟨hop, fun outcome => ?_⟩
  cases outcome with
  | value v => exact h v
  | fault | halt => trivial

/-- A host that makes an object at a class with a finalizer, drops it, runs a program, and disposes of
its machine.  In between it does something else, or nothing. -/
def session (between : VmId → Program Minutes Vm → Program Minutes Vm) : Program Minutes Vm :=
  .ask .newService fun service =>
  .ask (.registerClass service ⟨1, some 2⟩) fun _ =>
  .ask (.create service ⟨none, none, none, none⟩) fun vm =>
  .ask (.listen vm.id fun l => { l with write? := some 3, bindClass? := some 4 }) fun _ =>
  .ask (.interpret vm.id "main" "foreign class F \x7b\x7d") fun _ =>
  .ask (.access (.ensureSlots vm.id 2)) fun _ =>
  .ask (.access (.getVariable vm.id "main" "F" ⟨vm.id, 0⟩)) fun _ =>
  .ask (.setNewForeignStruct ⟨vm.id, 1⟩ ⟨vm.id, 0⟩ ⟨.word, (7 : UInt32)⟩) fun _ =>
  .ask (.access (.setNull ⟨vm.id, 1⟩)) fun _ => between vm.id <|
  .ask (.interpret vm.id "main" "System.print(null)") fun _ =>
  .ask (.dispose vm) fun _ => .done vm

/-- A session in which nothing happens in between. -/
def plainSession : Program Minutes Vm := session fun _ rest => rest

/-- A session with a collection in between. -/
def tidySession : Program Minutes Vm :=
  session fun vm rest => .perform (.collectGarbage vm) fun _ => rest

end Program

namespace Setting

/-- A host that writes down what is written, and that finalizers run. -/
def minuting : Setting Minutes where
  typeNames _ := ""
  placement := .successive
  own := ⟨[], 0⟩
  code :=
    { write := fun _ _ text => .ask (.keep fun h => { h with written := text :: h.written }) .done
      error := fun _ _ _ => .done ()
      resolve := fun _ _ _ _ => .done none
      load := fun _ _ _ => .done none
      bindClass := fun _ _ _ _ => .done (some 1)
      bindMethod := fun _ _ _ => .done none
      method := fun _ _ => .done (.ok ())
      allocator := fun _ _ => .done (.ok ())
      classFinalizer := fun _ _ =>
        .perform (.keep fun h => { h with finalized := h.finalized + 1 }) fun _ => .done ()
      typedFinalizer := fun _ _ => .done () }
  importDepth := 1
  depth := 1

theorem discreet_minuting : minuting.code.Discreet .written where
  ofClass _ _ := ⟨fun _ => rfl, fun _ => trivial⟩
  ofType _ _ := trivial
  write _ _ text := Program.discreet_ask (fun _ _ h => congrArg (text :: ·) h) fun _ => trivial
  error _ _ _ := trivial
  resolve _ _ _ _ := trivial
  load _ _ _ := trivial
  bindClass _ _ _ _ := trivial
  bindMethod _ _ _ := trivial
  method _ _ := trivial
  allocator _ _ := trivial

theorem discreet_plainSession : Program.plainSession.Discreet .written := by
  refine Program.discreet_ask trivial fun _ => Program.discreet_ask trivial fun _ =>
    Program.discreet_ask trivial fun _ => Program.discreet_ask trivial fun _ => ?_
  refine Program.discreet_ask trivial fun _ => Program.discreet_ask trivial fun _ =>
    Program.discreet_ask trivial fun _ => Program.discreet_ask trivial fun _ => ?_
  exact Program.discreet_ask trivial fun _ => Program.discreet_ask trivial fun _ =>
    Program.discreet_ask trivial fun _ => trivial

theorem interspersed_tidySession : Program.plainSession.Interspersed .tidySession := by
  refine Program.interspersed_ask fun _ => Program.interspersed_ask fun _ =>
    Program.interspersed_ask fun _ => Program.interspersed_ask fun _ => ?_
  refine Program.interspersed_ask fun _ => Program.interspersed_ask fun _ =>
    Program.interspersed_ask fun _ => Program.interspersed_ask fun _ => ?_
  refine Program.interspersed_ask fun _ => .collect _ fun _ => ?_
  exact Program.interspersed_ask fun _ => Program.interspersed_ask fun _ => .done _

theorem plainSession_eq :
    ((minuting.run .plainSession).1.isFinal, (minuting.run .plainSession).2.freeReport?,
      (minuting.run .plainSession).2.host.own.written) =
        (false, some ⟨0, 1⟩, ["\n", "null"]) := by
  cbv

/-- With a collection in between the same is written, and the machine is freed with the same report. -/
theorem collections_unseen_minuting :
    minuting.placement.Follows (· + 1) ∧ 0 < minuting.depth ∧ minuting.code.Discreet .written ∧
      Program.plainSession.Discreet .written ∧ Program.plainSession.Interspersed .tidySession ∧
      (minuting.run .plainSession).1 ≠ .halt .exhausted ∧
      minuting.Agrees .written .plainSession .tidySession ∧
      (minuting.run .tidySession).2.freeReport? = some ⟨0, 1⟩ ∧
      (minuting.run .tidySession).2.host.own.written = ["\n", "null"] := by
  have hend : (minuting.run .plainSession).1 ≠ .halt .exhausted := fun hend => by
    have hfinal : (minuting.run .plainSession).1.isFinal = false := congrArg (·.1) plainSession_eq
    rw [hend] at hfinal
    cases hfinal
  have hagrees := minuting.collections_unseen Placement.follows_successive Nat.one_pos
    discreet_minuting discreet_plainSession interspersed_tidySession hend
  obtain ⟨_, _, _, _, hsame⟩ := hagrees.world.same
  have hreport : (minuting.run .tidySession).2.freeReport? =
      (minuting.run .plainSession).2.freeReport? := by rw [hsame]
  refine ⟨Placement.follows_successive, Nat.one_pos, discreet_minuting, discreet_plainSession,
    interspersed_tidySession, hend, hagrees, ?_, ?_⟩
  · exact hreport.trans (congrArg (·.2.1) plainSession_eq)
  · exact hagrees.world.view.trans (congrArg (·.2.2) plainSession_eq)

end Setting

end ScriptHost.Bridge
