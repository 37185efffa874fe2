import ScriptHost.Proofs.Reports

/-!
# Where a machine stands

A machine has one location, which each statement overwrites when it begins and nobody restores.  The
report of the place of an error reads it.  So this report names the statement that was begun last,
which need not be the one in which the error is raised: a statement that imports a module goes on
behind the module, whose statements have ended by then.

`milestones` lists the statements that a run begins and ends, in their order, and `underWay` says which
of them are under way behind it.  As long as the calls of the host do not move the machine
(`Unmoving`), these tell the end of a run (`recounted_runModule`).  An error is raised in the innermost
statement that is under way.  This is the one that was begun last, unless the statement has run a
module to its end and now misses a variable of it (`Overtaken`).
-/

namespace ScriptHost.Machine

open Script

variable {ε φ α β : Type}

/-! ## Work that does not move a machine -/

/-- A machine stands where it stood, and has the modules that it had. -/
structure Stays (s s' : State) : Prop where
  location : s'.location = s.location
  adds : Adds s s'

theorem Stays.refl (s : State) : Stays s s := ⟨rfl, .refl s⟩

theorem Stays.trans ⦃s t u : State⦄ (h : Stays s t) (h' : Stays t u) : Stays s u :=
  ⟨h'.location.trans h.location, h.adds.trans h'.adds⟩

theorem Stays.of_eq {s s' : State} (location : s'.location = s.location)
    (modules : s'.modules = s.modules) : Stays s s' :=
  ⟨location, .of_modules modules⟩

/-- Work that does not move a machine, whether it has a value or a fault, and behind which `Ok`
holds again. -/
def Still (Ok : Running ε → Prop) (x : Run (Running ε) φ α) : Prop :=
  ∀ r o t, Ok r → x r = (o, t) → (∀ w, o ≠ .halt w) → Ok t ∧ Stays r.machine t.machine

/-- A machine that runs where `Ok` holds.  Its own work leads to such runs again, and so do the
calls of its host, which do not move it. -/
structure Unmoving (Ok : Running ε → Prop) (cb : Callbacks ε) : Prop where
  work : ∀ {r m}, Ok r → Inner r.machine m → Ok { r with machine := m }
  write : ∀ text, Still Ok (cb.write text)
  report : ∀ diagnostic, Still Ok (cb.report diagnostic)
  resolve : ∀ f, cb.resolve? = some f → ∀ importer name, Still Ok (f importer name)
  load : ∀ name, Still Ok (cb.load name)
  bindClass : ∀ module className, Still Ok (cb.bindClass module className)
  bindMethod : ∀ name, Still Ok (cb.bindMethod name)
  execute : ∀ key, Still Ok (cb.execute key)
  allocate : ∀ key, Still Ok (cb.allocate key)

/-- A call that leads from where `Ok` holds to where it holds, and does not move the machine. -/
theorem still_of_leads {Ok : Running ε → Prop} {L S : Running ε → Running ε → Prop} {x : Call ε α}
    (h : Leads Ok L S Stays x) : Still Ok x := by
  intro r o t hok hx ho
  obtain ⟨-, hgoes⟩ := h r
  rw [hx] at hgoes
  cases o with
  | value a => exact (hgoes rfl hok).2
  | fault e => exact e.elim
  | halt w => exact absurd rfl (ho w)

theorem Unmoving.of_hosted {Ok : Running ε → Prop} {L S : Running ε → Running ε → Prop}
    {cb : Callbacks ε} (work : ∀ {r m}, Ok r → Inner r.machine m → Ok { r with machine := m })
    (h : Hosted (fun r t => Ok r → L r t ∧ Ok t ∧ Stays r.machine t.machine)
      (fun r t => Ok r → S r t) cb) : Unmoving Ok cb where
  work := work
  write text := still_of_leads (h.write text)
  report diagnostic := still_of_leads (h.report diagnostic)
  resolve f hf importer name := still_of_leads (h.resolve f hf importer name)
  load name := still_of_leads (h.load name)
  bindClass module className := still_of_leads (h.bindClass module className)
  bindMethod name := still_of_leads (h.bindMethod name)
  execute key := still_of_leads (h.execute key)
  allocate key := still_of_leads (h.allocate key)

section

variable {Ok : Running ε → Prop}

theorem still_pure (a : α) : Still Ok (pure a : Run (Running ε) φ α) := by
  rintro r _ _ hok ⟨⟩ _
  exact ⟨hok, .refl _⟩

theorem still_fault (e : φ) : Still Ok (Run.fault e : Run (Running ε) φ α) := by
  rintro r _ _ hok ⟨⟩ _
  exact ⟨hok, .refl _⟩

theorem still_machine : Still Ok (machine : Run (Running ε) φ State) := by
  rintro r _ _ hok ⟨⟩ _
  exact ⟨hok, .refl _⟩

theorem still_bind {x : Run (Running ε) φ α} {f : α → Run (Running ε) φ β} (hx : Still Ok x)
    (hf : ∀ a, Still Ok (f a)) : Still Ok (x >>= f) := by
  intro r o u hok h ho
  rcases hxr : x r with ⟨a | e | w, t⟩
  · rw [Run.bind_of_value hxr] at h
    obtain ⟨hok', hstays⟩ := hx r _ t hok hxr (by simp)
    exact (hf a t o u hok' h ho).imp_right hstays.trans
  · cases (Run.bind_of_fault hxr f).symm.trans h
    exact hx r _ u hok hxr (by simp)
  · cases (Run.bind_of_halt hxr f).symm.trans h
    exact absurd rfl (ho w)

theorem still_widen {x : Call ε α} (hx : Still Ok x) : Still Ok (x.widen : Eval ε α) := by
  intro r o t hok h ho
  rcases hxr : x r with ⟨a | e | w, u⟩
  · rw [Run.widen, hxr] at h
    cases h
    exact hx r _ _ hok hxr (by simp)
  · exact e.elim
  · rw [Run.widen, hxr] at h
    cases h
    exact absurd rfl (ho w)

variable {cb : Callbacks ε} (p : Unmoving Ok cb)
include p

theorem Unmoving.inner {r : Running ε} {m : State} (hok : Ok r) (h : Inner r.machine m)
    (location : m.location = r.machine.location) (modules : m.modules = r.machine.modules) :
    Ok { r with machine := m } ∧ Stays r.machine m :=
  ⟨p.work hok h, .of_eq location modules⟩

theorem still_own {f : State → State} (hf : ∀ s, Own s (f s))
    (location : ∀ s, (f s).location = s.location) :
    Still Ok (update f : Run (Running ε) φ Unit) := by
  rintro r _ _ hok ⟨⟩ _
  exact ⟨p.work hok (hf r.machine).inner, location r.machine, (hf r.machine).adds⟩

theorem still_alloc {o : Object} (ho : ∀ s : State, Own s (s.alloc o).2) :
    Still Ok (updateGet fun s => s.alloc o : Run (Running ε) φ ObjectId) := by
  rintro r _ _ hok ⟨⟩ _
  exact ⟨p.work hok (ho r.machine).inner, rfl, (ho r.machine).adds⟩

theorem still_pin (values : List Value) :
    Still Ok (update fun s => { s with pins := values ++ s.pins } : Run (Running ε) φ Unit) := by
  rintro r _ _ hok ⟨⟩ _
  exact p.inner hok (r.machine.inner_pin _) rfl rfl

theorem still_withPins {x : Eval ε α} (hx : Still Ok x) : Still Ok (withPins x) := by
  intro r o t hok h ho
  have hrun : withPins x r = x.andFinally
      (fun t => { t with machine := t.machine.unpinTo r.machine.pins.length }) r := rfl
  rw [hrun, Run.andFinally] at h
  have hunpin : ∀ {u}, Ok u ∧ Stays r.machine u.machine →
      Ok { u with machine := u.machine.unpinTo r.machine.pins.length } ∧
        Stays r.machine (u.machine.unpinTo r.machine.pins.length) := fun {u} hu =>
    (p.inner hu.1 (u.machine.inner_pin (u.machine.unpinTo r.machine.pins.length).pins)
      rfl rfl).imp_right hu.2.trans
  rcases hxr : x r with ⟨a | e | w, u⟩ <;> rw [hxr] at h <;> cases h
  · exact hunpin (hx r _ u hok hxr (by simp))
  · exact hunpin (hx r _ u hok hxr (by simp))
  · exact absurd rfl (ho w)

theorem still_withPinned {x : Eval ε α} (hx : Still Ok x) (values : List Value) :
    Still Ok (withPinned values x) :=
  still_withPins p (still_bind (still_pin p values.reverse) fun _ => hx)

theorem still_callForeign {function : Call ε Unit} (hf : Still Ok function) (frame : List Value) :
    Still Ok (callForeign function frame) := by
  have henter : Still Ok (update fun s => s.enterFrame frame : Eval ε Unit) := by
    rintro r _ _ hok ⟨⟩ _
    exact p.inner hok (r.machine.inner_enterFrame frame) rfl rfl
  have hleave : Still Ok (update State.leaveFrame : Eval ε Unit) := by
    rintro r _ _ hok ⟨⟩ _
    exact p.inner hok r.machine.inner_leaveFrame rfl rfl
  refine still_bind henter fun _ => still_bind (still_widen hf) fun _ => ?_
  refine still_bind still_machine fun s => still_bind hleave fun _ => ?_
  split
  · exact still_pure _
  · exact still_pure _
  · exact still_fault _

theorem still_invoke (signature : String) (frame : List Value) :
    Still Ok (invoke cb signature frame) := by
  unfold invoke
  refine still_bind still_machine fun s => ?_
  split
  · exact still_bind (still_widen (p.write _)) fun _ =>
      still_bind (still_widen (p.write _)) fun _ => still_pure _
  · exact still_bind (still_widen (p.write _)) fun _ => still_pure _
  · exact still_fault _
  · exact still_bind (still_alloc p fun s => s.own_alloc rfl) fun _ => still_pure _
  · split
    · exact still_fault _
    · refine still_bind (still_callForeign p (p.allocate _) frame) fun _ =>
        still_bind still_machine fun s => ?_
      split
      · exact still_pure _
      · exact still_fault _
  · exact still_callForeign p (p.execute _) frame
  · exact still_fault _

end

mutual

theorem still_eval {Ok : Running ε → Prop} {cb : Callbacks ε} (p : Unmoving Ok cb)
    (module : String) : ∀ e : Expr, Still Ok (eval cb module e)
  | .null | .bool _ | .number _ | .text _ => by
    rw [eval]
    exact still_pure _
  | .variable name _ => by
    rw [eval]
    refine still_bind still_machine fun s => ?_
    split
    · exact still_pure _
    · exact still_fault _
  | .list items => by
    rw [eval]
    exact still_bind (still_withPins p (still_evalAll p module items)) fun values =>
      still_bind (still_alloc p fun s => s.own_alloc rfl) fun _ => still_pure _
  | .getter receiver name => by
    rw [eval]
    refine still_bind (still_withPins p ?_) fun frame =>
      still_withPinned p (still_invoke p _ _) _
    exact still_bind (still_evalPinned p module receiver) fun _ => still_pure _
  | .call receiver name arguments => by
    rw [eval]
    refine still_bind (still_withPins p ?_) fun frame =>
      still_withPinned p (still_invoke p _ _) _
    exact still_bind (still_evalPinned p module receiver) fun _ =>
      still_bind (still_evalAll p module arguments) fun _ => still_pure _

theorem still_evalPinned {Ok : Running ε → Prop} {cb : Callbacks ε} (p : Unmoving Ok cb)
    (module : String) : ∀ e : Expr, Still Ok (evalPinned cb module e)
  | e => by
    rw [evalPinned]
    exact still_bind (still_eval p module e) fun v =>
      still_bind (still_pin p [v]) fun _ => still_pure _

theorem still_evalAll {Ok : Running ε → Prop} {cb : Callbacks ε} (p : Unmoving Ok cb)
    (module : String) : ∀ es : List Expr, Still Ok (evalAll cb module es)
  | [] => by
    rw [evalAll]
    exact still_pure _
  | e :: rest => by
    rw [evalAll]
    exact still_bind (still_evalPinned p module e) fun _ =>
      still_bind (still_evalAll p module rest) fun _ => still_pure _

end

section

variable {Ok : Running ε → Prop} {cb : Callbacks ε} (p : Unmoving Ok cb)
include p

theorem still_bindMethods (module className : String) (methods : List MethodDecl) :
    ∀ c : Class, Still Ok (bindMethods cb module className methods c) := by
  induction methods with
  | nil => exact fun c => still_pure c
  | cons m rest ih =>
    intro c
    rw [bindMethods]
    refine still_bind (still_widen (p.bindMethod _)) fun bound => ?_
    split
    · exact still_fault _
    · exact ih _

theorem still_declareClass (module : String) (decl : ClassDecl) :
    Still Ok (declareClass cb module decl) := by
  have hdefine : ∀ c : Class, Still Ok (do
      let c ← bindMethods cb module decl.name decl.methods c
      update fun s => s.declare module decl.name c : Eval ε Unit) := fun c =>
    still_bind (still_bindMethods p _ _ _ c) fun c =>
      still_own p (fun s => s.own_declare module decl.name c) fun _ => rfl
  unfold declareClass
  dsimp only
  split
  · exact still_bind (still_widen (p.bindClass _ _)) fun keys => hdefine _
  · exact still_bind (still_pure _) fun keys => hdefine _

theorem still_resolveModule (importer name : String) :
    Still Ok (resolveModule cb importer name) := by
  unfold resolveModule
  split
  · exact still_pure _
  · next f hf =>
    refine still_bind (still_widen (p.resolve f hf _ _)) fun answer => ?_
    split
    · exact still_pure _
    · exact still_fault _

theorem still_loadModule (name : String) : Still Ok (loadModule cb name) := by
  unfold loadModule
  refine still_bind (still_widen (p.load _)) fun answer => ?_
  split
  · exact still_pure _
  · exact still_fault _

theorem still_refuseModule (module : String) (e : CompileError) :
    Still Ok (refuseModule cb module e) :=
  still_bind (still_widen (p.report _)) fun _ => still_fault _

theorem still_importNames (importer source : String) (names : List String) :
    Still Ok (importNames importer source names : Eval ε Unit) := by
  induction names with
  | nil => exact still_pure ()
  | cons name rest ih =>
    rw [importNames]
    refine still_bind still_machine fun s => ?_
    split
    · exact still_bind (still_own p (fun s => s.own_define importer name _) fun _ => rfl)
        fun _ => ih
    · exact still_fault _

theorem still_compile (module source : String) : Still Ok (compile module source : Eval ε _) := by
  unfold compile
  split
  · exact still_fault _
  · refine still_bind (still_own p (fun s => s.own_addModule module) fun s => ?_) fun _ =>
      still_bind still_machine fun s => ?_
    · rw [State.addModule_eq]
    · split
      · exact still_fault _
      · exact still_pure _

end

/-! ## Milestones -/

/-- A statement that a run begins or ends. -/
inductive Milestone where
  | began (place : Location)
  | ended (place : Location)
  deriving DecidableEq, Repr

namespace Milestone

/-- The statements under way behind a milestone, the innermost one first. -/
def pass (under : List Location) : Milestone → List Location
  | began place => place :: under
  | ended _ => under.tail

/-- The statement that was begun last. -/
def reach (last : Location) : Milestone → Location
  | began place => place
  | ended _ => last

end Milestone

/-- The statements that are under way behind milestones. -/
def underWay (under : List Location) (passed : List Milestone) : List Location :=
  passed.foldl Milestone.pass under

/-- The statement that was begun last, `start` if there is none. -/
def lastBegun (start : Location) (passed : List Milestone) : Location :=
  passed.foldl Milestone.reach start

section

variable (cb : Callbacks ε) (run : String → String → Eval ε Unit)
  (nested : String → String → Running ε → List Milestone)

/-- The milestones inside the import of a module: those of the module, if it is not there. -/
def milestonesOfImport (importer name : String) (r : Running ε) : List Milestone :=
  match resolveModule cb importer name r with
  | (.value found, s) =>
    if s.machine.hasModule found then []
    else
      match loadModule cb found s with
      | (.value source, t) => nested found source t
      | _ => []
  | _ => []

/-- The milestones inside a statement. -/
def milestonesOf (module : String) (st : Statement) (r : Running ε) : List Milestone :=
  match st.action with
  | .importModule name _ => milestonesOfImport cb nested module name r
  | _ => []

/-- A run at a statement. -/
def Running.at (r : Running ε) (place : Location) : Running ε :=
  { r with machine := { r.machine with location := place } }

/-- The milestones of statements that are executed one after the other. -/
def milestonesOfAll (module : String) : List Statement → Running ε → List Milestone
  | [], _ => []
  | st :: rest, r =>
    let place : Location := ⟨module, st.line⟩
    .began place :: milestonesOf cb nested module st (r.at place) ++
      match exec cb run module st (r.at place) with
      | (.value _, t) => .ended place :: milestonesOfAll module rest t
      | _ => []

end

/-- **The milestones of a run**, those of the modules that it imports included. -/
def milestones (cb : Callbacks ε) : Nat → String → String → Running ε → List Milestone
  | 0, _, _, _ => []
  | depth + 1, module, source, r =>
    match compile module source r with
    | (.value statements, s) =>
      milestonesOfAll cb (runModule cb depth) (milestones cb depth) module statements s
    | _ => []

section

variable {passed later : List Milestone}

theorem underWay_append (under : List Location) :
    underWay under (passed ++ later) = underWay (underWay under passed) later :=
  List.foldl_append

theorem lastBegun_append (start : Location) :
    lastBegun start (passed ++ later) = lastBegun (lastBegun start passed) later :=
  List.foldl_append

theorem getLast?_append_of {m : Milestone} (h : later.getLast? = some m) (passed : List Milestone) :
    (passed ++ later).getLast? = some m := by
  rw [List.getLast?_append, h]
  rfl

/-- Once a statement has begun, the last one does not depend on the start. -/
theorem lastBegun_of_mem {place : Location} (h : .began place ∈ passed) :
    ∃ latest, .began latest ∈ passed ∧ ∀ start, lastBegun start passed = latest := by
  induction passed using List.reverseRecOn with
  | nil => cases h
  | append_singleton earlier m ih =>
    cases m with
    | began later =>
      exact ⟨later, List.mem_append_right _ List.mem_cons_self, fun start => lastBegun_append start⟩
    | ended _ =>
      have hearlier : .began place ∈ earlier := by simpa using h
      obtain ⟨latest, hin, hlatest⟩ := ih hearlier
      exact ⟨latest, List.mem_append_left _ hin, fun start =>
        (lastBegun_append start).trans (hlatest start)⟩

theorem lastBegun_of_getLast {place : Location} (h : passed.getLast? = some (.began place))
    (start : Location) : lastBegun start passed = place := by
  obtain ⟨earlier, rfl⟩ := List.getLast?_eq_some_iff.1 h
  exact lastBegun_append start

/-- A run that passes anything begins with a statement that begins. -/
theorem begins_milestones (cb : Callbacks ε) (depth : Nat) (module source : String)
    (r : Running ε) : milestones cb depth module source r = [] ∨
      ∃ place, .began place ∈ milestones cb depth module source r := by
  cases depth with
  | zero => exact .inl rfl
  | succ depth =>
    rw [milestones]
    split
    · next statements s _ =>
      cases statements with
      | nil => exact .inl rfl
      | cons st rest => exact .inr ⟨⟨module, st.line⟩, List.mem_cons_self⟩
    · exact .inl rfl

end

/-! ## What milestones tell -/

/-- An error about a variable that a module does not define whose last statement has just ended. -/
def Overtaken (passed : List Milestone) (e : RuntimeError) : Prop :=
  ∃ last name, passed.getLast? = some (.ended last) ∧ e = .missingVariable name last.module

/-- Where an error is raised: in the innermost statement that is under way.  Either it is the one
that was begun last, or it has run a module to its end, of which it misses a variable.  Then the
statement that was begun last is one of another module. -/
inductive Raised (passed : List Milestone) (e : RuntimeError) (innermost : Location) : Prop where
  | within (h : passed.getLast? = some (.began innermost))
  | behind {latest : Location} (h : Overtaken passed e)
      (hlatest : ∀ start, lastBegun start passed = latest) (hne : latest.module ≠ innermost.module)

theorem Overtaken.append {passed : List Milestone} {e : RuntimeError} (h : Overtaken passed e)
    (earlier : List Milestone) : Overtaken (earlier ++ passed) e := by
  obtain ⟨last, name, hlast, he⟩ := h
  exact ⟨last, name, getLast?_append_of hlast earlier, he⟩

/-- The innermost statement is the one that was begun last, unless another one has overtaken it. -/
theorem Raised.lastBegun_eq_iff {passed : List Milestone} {e : RuntimeError} {innermost : Location}
    (h : Raised passed e innermost) (start : Location) :
    lastBegun start passed = innermost ↔ ¬ Overtaken passed e := by
  cases h with
  | within h =>
    refine iff_of_true (lastBegun_of_getLast h start) ?_
    rintro ⟨last, name, hlast, -⟩
    exact absurd (h.symm.trans hlast) (by simp)
  | behind h hlatest hne =>
    refine iff_of_false (fun heq => hne ?_) (not_not_intro h)
    rw [← hlatest start, heq]

theorem Raised.append {passed : List Milestone} {e : RuntimeError} {innermost : Location}
    (h : Raised passed e innermost) (earlier : List Milestone) :
    Raised (earlier ++ passed) e innermost := by
  cases h with
  | within h => exact .within (getLast?_append_of h _)
  | behind h hlatest hne =>
    refine .behind (h.append earlier) (fun start => ?_) hne
    rw [lastBegun_append]
    exact hlatest _

/-- The statements that milestones leave under way, whatever was under way before. -/
def LeavesUnder (passed : List Milestone) (under : List Location) : Prop :=
  ∀ outer, underWay outer passed = under ++ outer

/-- Places to which a run comes that begins at `r`: they are in modules that are not there yet, and
whose names have no NULs. -/
def Fresh (r : Running ε) (place : Location) : Prop :=
  r.machine.hasModule place.module = false ∧ Text.strip place.module = place.module

theorem Fresh.of_adds {r s : Running ε} {place : Location} (h : Fresh s place)
    (hadds : Adds r.machine s.machine) : Fresh r place := by
  refine ⟨Bool.eq_false_iff.2 fun hthere => ?_, h.2⟩
  exact absurd (h.1.symm.trans (hadds _ hthere)) (by simp)

/-- What the milestones of a run tell of its end. -/
structure Recounts (module : String) (r : Running ε) (passed : List Milestone)
    (o : Outcome Fault Unit) (t : Running ε) : Prop where
  location : t.machine.location = lastBegun r.machine.location passed
  adds : Adds r.machine t.machine
  visits : ∀ place, .began place ∈ passed → place.module = module ∨ Fresh r place
  value : o = .value () → LeavesUnder passed [] ∧
    (passed = [] ∨ ∃ last, passed.getLast? = some (.ended last) ∧ last.module = module)
  raised : ∀ e, o = .fault (.runtime e) →
    ∃ innermost outer, LeavesUnder passed (innermost :: outer) ∧ Raised passed e innermost
  refused : ∀ e, o = .fault (.compile e) → passed = []

/-- What the milestones inside a statement tell of its end.  An error behind them is one about a
variable that the module misses which they have run. -/
structure Inside (r : Running ε) (passed : List Milestone) (o : Outcome Fault Unit)
    (t : Running ε) : Prop where
  location : t.machine.location = lastBegun r.machine.location passed
  adds : Adds r.machine t.machine
  begins : passed = [] ∨ ∃ place, .began place ∈ passed
  visits : ∀ place, .began place ∈ passed → Fresh r place
  value : o = .value () → LeavesUnder passed []
  raised : ∀ e, o = .fault (.runtime e) →
    passed = [] ∨
    (∃ innermost outer, LeavesUnder passed (innermost :: outer) ∧ Raised passed e innermost) ∨
    LeavesUnder passed [] ∧ Overtaken passed e

section

variable {Ok : Running ε → Prop} {cb : Callbacks ε} {r t : Running ε} {o : Outcome Fault Unit}

theorem run_bind_congr {x y : Run (Running ε) φ α} {u : Running ε} (h : x r = y u)
    (f : α → Run (Running ε) φ β) : (x >>= f) r = (y >>= f) u := by
  change Run.bind x f r = Run.bind y f u
  rw [Run.bind, Run.bind, h]

/-- A statement in which no other begins. -/
theorem inside_of_stays (h : Stays r.machine t.machine) : Inside r [] o t where
  location := h.location
  adds := h.adds
  begins := .inl rfl
  visits _ hin := absurd hin List.not_mem_nil
  value _ _ := rfl
  raised _ _ := .inl rfl

/-- Only a variable that is missing keeps the variables of a module from being imported. -/
theorem missing_of_importNames {importer found : String} : ∀ {names : List String} {r t : Running ε}
    {e : Fault}, importNames importer found names r = (.fault e, t) →
      ∃ name, e = .runtime (.missingVariable name found)
  | [], _, _, _, h => absurd (congrArg Prod.fst h) (by simp [importNames, Pure.pure, Run.pure])
  | name :: rest, r, t, e, h => by
    rw [importNames, machine_bind] at h
    cases hv : r.machine.global? found name with
    | none =>
      rw [hv] at h
      cases h
      exact ⟨name, rfl⟩
    | some v =>
      have hdefine : (update fun s => s.define importer name v : Eval ε Unit) r =
          (.value (), { r with machine := r.machine.define importer name v }) := rfl
      rw [hv] at h
      exact missing_of_importNames ((Run.bind_of_value hdefine _).symm.trans h)

theorem recounts_nil {module : String} (r : Running ε) : Recounts module r [] (.value ()) r where
  location := rfl
  adds := .refl _
  visits _ hin := absurd hin List.not_mem_nil
  value _ := ⟨fun _ => rfl, .inl rfl⟩
  raised _ he := absurd he (by simp)
  refused _ he := absurd he (by simp)

section

variable {module : String} {place : Location} {inner later : List Milestone} {s : Running ε}

/-- A statement ends, and others follow. -/
theorem Recounts.behind (h : Recounts module s later o t)
    (hinside : Inside (r.at place) inner (.value ()) s) (hplace : place.module = module)
    (ho : ∀ e, o ≠ .fault (.compile e)) :
    Recounts module r (.began place :: inner ++ .ended place :: later) o t := by
  have hleaves : ∀ {under}, LeavesUnder later under →
      LeavesUnder (.began place :: inner ++ .ended place :: later) under := by
    intro under hlater outer
    have hinner : underWay (place :: outer) inner = place :: outer := hinside.value rfl _
    rw [underWay_append]
    change underWay (underWay (place :: outer) inner).tail later = _
    rw [hinner]
    exact hlater outer
  refine ⟨?_, hinside.adds.trans h.adds, fun x hin => ?_, fun hvalue => ?_, fun e he => ?_,
    fun e he => absurd he (ho e)⟩
  · rw [h.location, hinside.location, lastBegun_append]
    rfl
  · simp only [List.cons_append, List.mem_cons, List.mem_append, reduceCtorEq, false_or,
      Milestone.began.injEq] at hin
    rcases hin with rfl | hin | hin
    · exact .inl hplace
    · exact .inr (hinside.visits x hin)
    · exact (h.visits x hin).imp_right fun hfresh => hfresh.of_adds hinside.adds
  · obtain ⟨hlater, hlast⟩ := h.value hvalue
    refine ⟨hleaves hlater, .inr ?_⟩
    rcases hlast with rfl | ⟨last, hlast, heq⟩
    · exact ⟨place, List.getLast?_concat .., hplace⟩
    · refine ⟨last, ?_, heq⟩
      rw [List.append_cons]
      exact getLast?_append_of hlast _
  · obtain ⟨innermost, outer, hlater, hraised⟩ := h.raised e he
    refine ⟨innermost, outer, hleaves hlater, ?_⟩
    rw [List.append_cons]
    exact hraised.append _

/-- A statement fails: it is the innermost one, unless it has brought a module that fails. -/
theorem Inside.fails {e : RuntimeError} (h : Inside (r.at place) inner (.fault (.runtime e)) t)
    (hthere : r.machine.hasModule place.module = true) :
    Recounts place.module r (.began place :: inner) (.fault (.runtime e)) t := by
  have hunder : ∀ {under}, LeavesUnder inner under →
      LeavesUnder (.began place :: inner) (under ++ [place]) := by
    intro under hinner outer
    rw [List.append_assoc]
    exact hinner (place :: outer)
  refine ⟨h.location, h.adds, fun x hin => ?_, fun hvalue => absurd hvalue (by simp),
    fun e' he => ?_, fun e' he => absurd he (by simp)⟩
  · rcases List.mem_cons.1 hin with heq | hin
    · cases heq
      exact .inl rfl
    · exact .inr (h.visits x hin)
  · rcases h.raised e' he with rfl | ⟨innermost, outer, hinner, hraised⟩ | ⟨hinner, hbehind⟩
    · exact ⟨place, [], fun _ => rfl, .within rfl⟩
    · refine ⟨innermost, outer ++ [place], hunder hinner, ?_⟩
      exact hraised.append [.began place]
    · -- the module has run to its end, and so it has begun
      have hne : inner ≠ [] := by
        rintro rfl
        obtain ⟨_, _, hlast, -⟩ := hbehind
        exact absurd hlast (by simp)
      obtain ⟨first, hfirst⟩ := h.begins.resolve_left hne
      obtain ⟨latest, hin, hlatest⟩ := lastBegun_of_mem hfirst
      refine ⟨place, [], hunder hinner, .behind (hbehind.append [.began place])
        (fun start => hlatest _) fun heq => ?_⟩
      have hnew := (h.visits latest hin).1
      rw [heq] at hnew
      exact absurd (hnew.symm.trans hthere) (by simp)

end

section

variable {run : String → String → Eval ε Unit}
  {nested : String → String → Running ε → List Milestone} {module : String} {st : Statement}
  {rest : List Statement} {s : Running ε}

theorem milestonesOfAll_of_value
    (h : exec cb run module st (r.at ⟨module, st.line⟩) = (.value (), s)) :
    milestonesOfAll cb run nested module (st :: rest) r =
      .began ⟨module, st.line⟩ :: milestonesOf cb nested module st (r.at ⟨module, st.line⟩) ++
        .ended ⟨module, st.line⟩ :: milestonesOfAll cb run nested module rest s := by
  rw [milestonesOfAll]
  simp only [h]

theorem milestonesOfAll_of_fault {e : Fault}
    (h : exec cb run module st (r.at ⟨module, st.line⟩) = (.fault e, s)) :
    milestonesOfAll cb run nested module (st :: rest) r =
      .began ⟨module, st.line⟩ :: milestonesOf cb nested module st (r.at ⟨module, st.line⟩) := by
  rw [milestonesOfAll]
  simp only [h, List.append_nil]

end

variable (p : Unmoving Ok cb) {run : String → String → Eval ε Unit}
  {nested : String → String → Running ε → List Milestone}

/-- Runs of modules of whose ends milestones tell. -/
structure Recounted (Ok : Running ε → Prop) (run : String → String → Eval ε Unit)
    (nested : String → String → Running ε → List Milestone) : Prop where
  begins : ∀ module source r, nested module source r = [] ∨
    ∃ place, .began place ∈ nested module source r
  ends : ∀ {module source r o t}, Ok r → run module source r = (o, t) → (∀ w, o ≠ .halt w) →
    Ok t ∧ Recounts module r (nested module source r) o t

variable (h : Recounted Ok run nested)
include p h

/-- **The milestones inside an import are those of the module that it brings.**  A module that does
not compile has none, and one that fails is not behind an error about its variables. -/
theorem inside_bring {importer found source : String} {names : List String} {s : Running ε}
    (hfound : r.machine.hasModule found = false ∧ Text.strip found = found)
    (hstart : Stays r.machine s.machine) (hok : Ok s)
    (hrun : (recover (run found source) (refuseModule cb found) >>= fun _ =>
      importNames importer found names) s = (o, t)) (ho : ∀ w, o ≠ .halt w) :
    Ok t ∧ Inside r (nested found source s) o t := by
  have hinside : ∀ {o' u}, Recounts found s (nested found source s) o' u →
      u.machine.location = lastBegun r.machine.location (nested found source s) ∧
        Adds r.machine u.machine ∧
          ∀ place, .began place ∈ nested found source s → Fresh r place := by
    intro o' u hends
    refine ⟨?_, hstart.adds.trans hends.adds, fun place hin => ?_⟩
    · rw [hends.location, hstart.location]
    · refine (hends.visits place hin).elim (fun heq => ?_) fun hfresh => hfresh.of_adds hstart.adds
      rwa [Fresh, heq]
  rcases hbody : run found source s with ⟨_ | (e | e) | w, u⟩
  · -- the module has run to its end, and its variables are taken
    obtain ⟨hu, hends⟩ := h.ends hok hbody (by simp)
    obtain ⟨hlocation, hadds, hvisits⟩ := hinside hends
    have hvalue : recover (run found source) (refuseModule cb found) s = (.value (), u) := by
      rw [recover, Run.bind_of_value (Run.attempt_of_value hbody)]
      rfl
    rw [Run.bind_of_value hvalue] at hrun
    obtain ⟨ht, hstays⟩ := still_importNames p importer found names u o t hu hrun ho
    obtain ⟨hleaves, hlast⟩ := hends.value rfl
    refine ⟨ht, hstays.location.trans hlocation, hadds.trans hstays.adds,
      h.begins found source s, hvisits, fun _ => hleaves, ?_⟩
    rintro e rfl
    obtain ⟨name, hname⟩ := missing_of_importNames hrun
    cases hname
    refine hlast.imp_right fun hlast => .inr ?_
    obtain ⟨last, hlast, rfl⟩ := hlast
    exact ⟨hleaves, last, name, hlast, rfl⟩
  · -- the module does not compile, and nothing of it has begun
    obtain ⟨hu, hends⟩ := h.ends hok hbody (by simp)
    obtain ⟨hlocation, hadds, -⟩ := hinside hends
    have hrefuse : recover (run found source) (refuseModule cb found) s =
        refuseModule cb found e u := by
      rw [recover, Run.bind_of_value (Run.attempt_of_fault hbody)]
    have hnone : nested found source s = [] := hends.refused e rfl
    rw [hnone] at hlocation ⊢
    obtain ⟨ht, hstays⟩ := still_bind (still_refuseModule p found e)
      (fun _ => still_importNames p importer found names) u o t hu
      ((run_bind_congr hrefuse _).symm.trans hrun) ho
    have hmid : Stays r.machine u.machine := ⟨hlocation, hadds⟩
    exact ⟨ht, inside_of_stays (hmid.trans hstays)⟩
  · -- the module fails, and so does the statement
    obtain ⟨hu, hends⟩ := h.ends hok hbody (by simp)
    obtain ⟨hlocation, hadds, hvisits⟩ := hinside hends
    have hfault : recover (run found source) (refuseModule cb found) s =
        (.fault (.runtime e), u) := by
      rw [recover, Run.bind_of_value (Run.attempt_of_fault hbody)]
      rfl
    rw [Run.bind_of_fault hfault] at hrun
    cases hrun
    exact ⟨hu, hlocation, hadds, h.begins found source s, hvisits,
      fun h => absurd h (by simp), fun e' he' => .inr (.inl (hends.raised e' he'))⟩
  · have hhalt : recover (run found source) (refuseModule cb found) s = (.halt w, u) := by
      have hattempt : ((run found source).attempt : Eval ε (Except Fault Unit)) s =
          (.halt w, u) := by
        rw [Run.attempt, hbody]
      exact Run.bind_of_halt hattempt _
    rw [Run.bind_of_halt hhalt] at hrun
    cases hrun
    exact absurd rfl (ho w)

theorem inside_import (hres : ∃ f, cb.resolve? = some f) {importer name : String}
    {names : List String} (hok : Ok r)
    (hrun : importWith cb (bringModule cb run) importer name names r = (o, t))
    (ho : ∀ w, o ≠ .halt w) :
    Ok t ∧ Inside r (milestonesOfImport cb nested importer name r) o t := by
  obtain ⟨f, hf⟩ := hres
  unfold importWith at hrun
  unfold milestonesOfImport
  rcases hresolve : resolveModule cb importer name r with ⟨found | e | w, s⟩
  · obtain ⟨hs, hresolved⟩ := still_resolveModule p importer name r _ s hok hresolve (by simp)
    rw [Run.bind_of_value hresolve, whenAbsent, bind_assoc, machine_bind] at hrun
    cases hthere : s.machine.hasModule found with
    | true =>
      rw [hthere] at hrun
      simp only [hthere, if_true]
      obtain ⟨ht, hstays⟩ := still_importNames p importer found names s o t hs hrun ho
      exact ⟨ht, inside_of_stays (hresolved.trans hstays)⟩
    | false =>
      have hfound : r.machine.hasModule found = false ∧ Text.strip found = found := by
        refine ⟨Bool.eq_false_iff.2 fun hold => ?_, strip_of_resolveModule hf hresolve⟩
        exact absurd (hthere.symm.trans (hresolved.adds found hold)) (by simp)
      simp only [hthere, Bool.not_false, Bool.false_eq_true, if_true, if_false, bringModule,
        bind_assoc] at hrun ⊢
      rcases hload : loadModule cb found s with ⟨source | e | w, u⟩
      · obtain ⟨hu, hloaded⟩ := still_loadModule p found s _ u hs hload (by simp)
        rw [Run.bind_of_value hload] at hrun
        exact inside_bring p h hfound (hresolved.trans hloaded) hu hrun ho
      · obtain ⟨hu, hloaded⟩ := still_loadModule p found s _ u hs hload (by simp)
        cases (Run.bind_of_fault hload _).symm.trans hrun
        exact ⟨hu, inside_of_stays (hresolved.trans hloaded)⟩
      · cases (Run.bind_of_halt hload _).symm.trans hrun
        exact absurd rfl (ho w)
  · obtain ⟨hs, hresolved⟩ := still_resolveModule p importer name r _ s hok hresolve (by simp)
    cases (Run.bind_of_fault hresolve _).symm.trans hrun
    exact ⟨hs, inside_of_stays hresolved⟩
  · cases (Run.bind_of_halt hresolve _).symm.trans hrun
    exact absurd rfl (ho w)

/-- **The milestones inside a statement tell of its end.** -/
theorem inside_exec (hres : ∃ f, cb.resolve? = some f) {module : String} {st : Statement}
    (hok : Ok r) (hrun : exec cb run module st r = (o, t)) (ho : ∀ w, o ≠ .halt w) :
    Ok t ∧ Inside r (milestonesOf cb nested module st r) o t := by
  have hplain : ∀ {x : Eval ε Unit}, Still Ok x → x r = (o, t) → Ok t ∧ Inside r [] o t :=
    fun hx hxr => (hx r o t hok hxr ho).imp_right inside_of_stays
  have hdefine : ∀ name value, Still Ok (do
      let v ← eval cb module value
      update fun s => s.define module name v : Eval ε Unit) := fun name value =>
    still_bind (still_eval p module value) fun v =>
      still_own p (fun s => s.own_define module name v) fun _ => rfl
  rw [exec_with] at hrun
  unfold execWith at hrun
  unfold milestonesOf
  cases haction : st.action with
  | importModule name names =>
    rw [haction] at hrun
    exact inside_import p h hres hok hrun ho
  | define name value =>
    rw [haction] at hrun
    exact hplain (hdefine name value) hrun
  | assign name value =>
    rw [haction] at hrun
    exact hplain (hdefine name value) hrun
  | declare decl =>
    rw [haction] at hrun
    exact hplain (still_declareClass p module decl) hrun
  | evaluate value =>
    rw [haction] at hrun
    exact hplain (still_bind (still_eval p module value) fun _ => still_pure _) hrun

/-- **Statements that are executed one after the other**, in a module that is registered. -/
theorem recounts_execAll (hres : ∃ f, cb.resolve? = some f) {module : String} :
    ∀ {sts : List Statement} {r t : Running ε} {o : Outcome Fault Unit}, Ok r →
      r.machine.hasModule module = true → execAll cb run module sts r = (o, t) →
        (∀ w, o ≠ .halt w) →
          Ok t ∧ Recounts module r (milestonesOfAll cb run nested module sts r) o t
  | [], r, t, o, hok, _, hrun, _ => by
    cases hrun
    exact ⟨hok, recounts_nil r⟩
  | st :: rest, r, t, o, hok, hthere, hrun, ho => by
    have hlocate : Own r.machine (r.at ⟨module, st.line⟩).machine := r.machine.own_locate _
    have hat : Ok (r.at ⟨module, st.line⟩) := p.work hok hlocate.inner
    have hgo : (exec cb run module st >>= fun _ => execAll cb run module rest)
        (r.at ⟨module, st.line⟩) = (o, t) := hrun
    rcases hexec : exec cb run module st (r.at ⟨module, st.line⟩) with ⟨_ | (e | e) | w, s⟩
    · -- the statement ends, and the others follow
      obtain ⟨hs, hinside⟩ := inside_exec p h hres hat hexec (by simp)
      rw [Run.bind_of_value hexec] at hgo
      have hcompiled : ∀ e, o ≠ .fault (.compile e) := by
        rintro e rfl
        exact compiled_execAll cb run module rest s e t hgo
      obtain ⟨ht, hrest⟩ :=
        recounts_execAll hres hs ((hlocate.adds.trans hinside.adds) module hthere) hgo ho
      rw [milestonesOfAll_of_value hexec]
      exact ⟨ht, hrest.behind hinside rfl hcompiled⟩
    · cases (Run.bind_of_fault hexec _).symm.trans hgo
      exact absurd hrun (compiled_execAll cb run module (st :: rest) r e t)
    · -- the statement fails, and so does the module
      obtain ⟨ht, hinside⟩ := inside_exec p h hres hat hexec (by simp)
      cases (Run.bind_of_fault hexec _).symm.trans hgo
      rw [milestonesOfAll_of_fault hexec]
      exact ⟨ht, hinside.fails hthere⟩
    · cases (Run.bind_of_halt hexec _).symm.trans hgo
      exact absurd rfl (ho w)

omit h in
/-- **The milestones of a run tell of its end.** -/
theorem recounted_runModule (hres : ∃ f, cb.resolve? = some f) : ∀ depth : Nat,
    Recounted Ok (runModule cb depth) (milestones cb depth)
  | 0 => ⟨begins_milestones cb 0, fun _ hrun ho => absurd (congrArg Prod.fst hrun).symm (ho _)⟩
  | depth + 1 => by
    refine ⟨begins_milestones cb (depth + 1), fun {module source r o t} hok hrun ho => ?_⟩
    rw [runModule] at hrun
    rcases compile_cases module source r with ⟨e, u, href, hrefused⟩ | ⟨sts, defined, -, haccepted⟩
    · obtain ⟨hu, hstays⟩ := still_compile p module source r _ u hok hrefused (by simp)
      cases (Run.bind_of_fault hrefused _).symm.trans hrun
      have hnone : milestones cb (depth + 1) module source r = [] := by
        rw [milestones, hrefused]
      rw [hnone]
      exact ⟨hu, hstays.location, hstays.adds, fun _ hin => absurd hin List.not_mem_nil,
        fun h => absurd h (by simp), fun _ h => absurd h (by simp), fun _ _ => rfl⟩
    · obtain ⟨hu, hstays⟩ := still_compile p module source r _ _ hok haccepted (by simp)
      rw [Run.bind_of_value haccepted] at hrun
      rw [milestones, haccepted]
      obtain ⟨ht, hends⟩ := recounts_execAll p (recounted_runModule hres depth) hres hu
        (hasModule_addModule_self r.machine module) hrun ho
      refine ⟨ht, ?_, hstays.adds.trans hends.adds, fun place hin => ?_, hends.value, hends.raised,
        hends.refused⟩
      · rw [hends.location, hstays.location]
      · exact (hends.visits place hin).imp_right fun hfresh => hfresh.of_adds hstays.adds

end

/-! ## Reports of places -/

/-- The place that a report names. -/
def placeReport (place : Location) : Diagnostic :=
  ⟨.stackTrace, some place.module, place.line, "(script)"⟩

/-- A run from `r` that ends with an error, at `t`.  The report of its place is the last one, and
names the statement that was begun last.  This is the innermost one that is under way, unless the
error is about a variable of a module that this statement has run to its end. -/
inductive Placed (cb : Callbacks ε) (depth : Nat) (module source : String) (r t : Running ε) :
    Prop where
  | intro {e : RuntimeError} {u : Running ε} {reported innermost : Location} {outer : List Location}
      (hrun : runModule cb depth module source r = (.fault (.runtime e), u))
      (hunder : underWay [] (milestones cb depth module source r) = innermost :: outer)
      (hlast : lastBegun r.machine.location (milestones cb depth module source r) = reported)
      (hreports : (cb.report (Bridge.runtimeReport e.message) >>= fun _ =>
        cb.report (placeReport reported)) u = (.value (), t))
      (hplace : reported = innermost ↔ ¬ Overtaken (milestones cb depth module source r) e)

theorem interpret_of_fault {cb : Callbacks ε} {depth : Nat} {module source : String}
    {r u : Running ε} {e : RuntimeError}
    (h : runModule cb depth module source r = (.fault (.runtime e), u)) :
    interpret cb depth module source r = reported cb e.message u := by
  unfold interpret
  rw [Run.bind_of_value (Run.attempt_of_fault h)]
  rfl

/-- A host that takes two reports takes those of an error. -/
theorem reported_of_reports {cb : Callbacks ε} {u : Running ε}
    (h : ∀ d d', ((cb.report d >>= fun _ => cb.report d') u).1 = .value ()) (text : String) :
    ∃ t, reported cb text u = (.value .runtimeError, t) := by
  have hall := h (Bridge.runtimeReport text)
  rcases hfirst : cb.report (Bridge.runtimeReport text) u with ⟨_ | e | w, v⟩
  · have hlast := hall (traceReport v.machine.location)
    rw [Run.bind_of_value hfirst] at hlast
    have hreport : reportRuntime cb text u = cb.report (traceReport v.machine.location) v :=
      Run.bind_of_value hfirst _
    rcases hrest : cb.report (traceReport v.machine.location) v with ⟨_ | e | w, t⟩
    · exact ⟨t, Run.bind_of_value (hreport.trans hrest) _⟩
    · exact e.elim
    · rw [hrest] at hlast
      exact absurd hlast (by simp)
  · exact e.elim
  · have hhalt := hall (traceReport u.machine.location)
    rw [Run.bind_of_halt hfirst] at hhalt
    exact absurd hhalt (by simp)

/-- **The report of the place of an error names the statement that was begun last.** -/
theorem placed_interpret {Ok : Running ε → Prop} {cb : Callbacks ε} (p : Unmoving Ok cb)
    (hres : ∃ f, cb.resolve? = some f) {depth : Nat} {module source : String}
    (hstrip : Text.strip module = module) {r t : Running ε} (hok : Ok r)
    (h : interpret cb depth module source r = (.value .runtimeError, t)) :
    Placed cb depth module source r t := by
  unfold interpret at h
  obtain ⟨result, u, hattempt, h⟩ := Run.value_of_bind h
  rcases hrun : runModule cb depth module source r with ⟨_ | (e | e) | w, u'⟩
  · cases (Run.attempt_of_value hrun).symm.trans hattempt
    exact absurd (congrArg Prod.fst h) (by simp [Pure.pure, Run.pure])
  · cases (Run.attempt_of_fault hrun).symm.trans hattempt
    obtain ⟨_, _, -, h⟩ := Run.value_of_bind h
    exact absurd (congrArg Prod.fst h) (by simp [Pure.pure, Run.pure])
  · cases (Run.attempt_of_fault hrun).symm.trans hattempt
    obtain ⟨hu, hends⟩ := (recounted_runModule p hres depth).ends hok hrun (by simp)
    obtain ⟨innermost, outer, hleaves, hraised⟩ := hends.raised e rfl
    obtain ⟨_, v, hreported, hend⟩ := Run.value_of_bind h
    cases hend
    have hunder : underWay [] (milestones cb depth module source r) = innermost :: outer := by
      rw [hleaves [], List.append_nil]
    refine .intro hrun hunder rfl ?_ (hraised.lastBegun_eq_iff _)
    -- the place is one of the module that is run, or of one that a resolver has named
    have hbegins := (begins_milestones cb depth module source r).resolve_left fun hnone => by
      rw [hnone] at hunder
      exact absurd hunder (by simp [underWay])
    obtain ⟨first, hfirst⟩ := hbegins
    obtain ⟨latest, hin, hlatest⟩ := lastBegun_of_mem hfirst
    have hname : Text.strip latest.module = latest.module :=
      (hends.visits latest hin).elim (fun heq => heq ▸ hstrip) And.right
    obtain ⟨_, v, htext, hrest⟩ := Run.value_of_bind hreported
    obtain ⟨-, hstays⟩ := p.report _ u _ v hu htext (by simp)
    refine (Run.bind_of_value htext _).trans ?_
    rw [hlatest]
    rw [machine_bind, hstays.location, hends.location, hlatest, hname] at hrest
    exact hrest
  · rw [Run.attempt, hrun] at hattempt
    exact absurd (congrArg Prod.fst hattempt) (by simp)

end ScriptHost.Machine
