import ScriptHost.Proofs.Journals
import ScriptHost.Proofs.Rendering

/-!
# Imports come to an end

An import runs a module, which imports others, and nothing about the programs bounds how deep this
nests.  It ends since a module is registered before its body starts: an import that goes deeper has
found a module that was not there, and which is there from then on.  So the measure of a run are the
modules for which the host has a source and that are not registered (`State.missing`), and a run that
may nest deeper than this never finds out how deep it may nest (`runsEnd`).
-/

namespace ScriptHost

namespace Script

/-- The module that a statement imports. -/
def Statement.imported? (st : Statement) : Option String :=
  match st.action with
  | .importModule name _ => some name
  | _ => none

/-- The modules that a program imports, by the names that it uses. -/
def imports (source : String) : List String :=
  match parse source with
  | .ok statements => statements.filterMap Statement.imported?
  | .error _ => []

theorem mem_imports {source : String} {statements : List Statement}
    (h : parse source = .ok statements) {st : Statement} (hst : st ∈ statements) {name : String}
    {names : List String} (himport : st.action = .importModule name names) :
    name ∈ imports source := by
  rw [imports, h]
  refine List.mem_filterMap.2 ⟨st, hst, ?_⟩
  rw [Statement.imported?, himport]

end Script

namespace Machine

open Script

variable {ε α β : Type} {s s' : State} {journal : List Notice}

/-! ## What may be brought -/

/-- How many of some modules are not registered. -/
def State.missing (s : State) (modules : List String) : Nat :=
  modules.countP fun module => !s.hasModule module

theorem missing_le (h : Adds s s') (modules : List String) :
    s'.missing modules ≤ s.missing modules := by
  refine List.countP_mono_left fun module _ hmissing => ?_
  simp only [Bool.not_eq_true'] at hmissing ⊢
  exact Bool.eq_false_iff.2 fun hthere => Bool.eq_false_iff.1 hmissing (h module hthere)

theorem missing_lt (h : Adds s s') {modules : List String} {module : String}
    (hin : module ∈ modules) (hnew : s.hasModule module = false)
    (hthere : s'.hasModule module = true) : s'.missing modules < s.missing modules := by
  obtain ⟨before, behind, rfl⟩ := List.append_of_mem hin
  have hbefore : s'.missing before ≤ s.missing before := missing_le h before
  have hbehind : s'.missing behind ≤ s.missing behind := missing_le h behind
  unfold State.missing at hbefore hbehind ⊢
  simp only [List.countP_append, List.countP_cons, hnew, hthere, Bool.not_true, Bool.not_false,
    if_true, Bool.false_eq_true, if_false]
  omega

/-- A host that has sources for finitely many names.  Without a resolver, names that differ in their
NULs are different modules for which the host has the same sources, which are finitely many, then. -/
structure Supplies (cb : Callbacks ε) (names sources : List String) : Prop where
  names : ∀ name r source t, cb.load name r = (.value (some source), t) → name ∈ names
  sources : cb.resolve? = none → ∀ name r source t, cb.load name r = (.value (some source), t) →
    Text.cutText source ∈ sources

/-- The modules that some programs of a host may bring: those that it has sources for, as its resolver
names them, or as the programs do. -/
def Callbacks.importable (cb : Callbacks ε) (names programs : List String) : List String :=
  match cb.resolve? with
  | some _ => names
  | none => programs.flatMap imports

/-- A program each of whose imports ends in one of some modules, or in one without a source. -/
def Confined (cb : Callbacks ε) (modules : List String) (source : String) : Prop :=
  ∀ name ∈ imports source, ∀ importer r module u,
    resolveModule cb importer name r = (.value module, u) →
      module ∈ modules ∨ ∀ r' text t, cb.load (Text.strip module) r' ≠ (.value (some text), t)

theorem strip_cutText (s : String) : Text.strip (Text.cutText s) = Text.cutText s := by
  rw [Text.strip, Text.cutText, String.toList_ofList]
  refine congrArg String.ofList (List.filter_eq_self.2 fun c hc => ?_)
  exact List.mem_takeWhile_imp (p := fun c => c != '\x00') hc

/-- What a resolver answers is a name without NULs. -/
theorem strip_of_resolveModule {cb : Callbacks ε} {f : String → String → Call ε (Option String)}
    (hres : cb.resolve? = some f) {importer name module : String} {r u : Running ε}
    (h : resolveModule cb importer name r = (.value module, u)) : Text.strip module = module := by
  unfold resolveModule at h
  rw [hres] at h
  obtain ⟨resolved, s, -, h⟩ := Run.value_of_bind h
  cases resolved with
  | none => exact absurd (congrArg Prod.fst h) (by simp [raise, Run.fault])
  | some text =>
    cases h
    exact strip_cutText text

/-- Programs are confined to the modules that they may bring. -/
theorem Supplies.confined {cb : Callbacks ε} {names sources : List String}
    (hs : Supplies cb names sources) {programs : List String} {source : String}
    (hsource : source ∈ programs ∨ ∃ f, cb.resolve? = some f) :
    Confined cb (cb.importable names programs) source := by
  intro name hname importer r module u hresolve
  unfold Callbacks.importable
  cases hres : cb.resolve? with
  | none =>
    have hmodule : resolveModule cb importer name r = (.value name, r) := by
      unfold resolveModule
      rw [hres]
      rfl
    cases hmodule.symm.trans hresolve
    refine Or.inl (List.mem_flatMap.2 ⟨source, hsource.resolve_right fun ⟨f, hf⟩ => ?_, hname⟩)
    exact absurd (hres.symm.trans hf) (by simp)
  | some f =>
    rw [strip_of_resolveModule hres hresolve]
    by_cases hin : module ∈ names
    · exact Or.inl hin
    · exact Or.inr fun r' text t hload => hin (hs.names module r' text t hload)

/-- So are the sources that the host has for modules. -/
theorem Supplies.confined_load {cb : Callbacks ε} {names sources programs : List String}
    (hs : Supplies cb names sources) (hprograms : sources ⊆ programs) {name text : String}
    {r t : Running ε} (hload : cb.load name r = (.value (some text), t)) :
    Confined cb (cb.importable names programs) (Text.cutText text) := by
  refine hs.confined ?_
  cases hres : cb.resolve? with
  | none => exact Or.inl (hprograms (hs.sources hres name r text t hload))
  | some f => exact Or.inr ⟨f, rfl⟩

/-! ## The nesting of imports -/

/-- Work that comes to an end, and does the same with a journal, wherever at most `depth` of some
modules are missing. -/
def MeetsWithin (modules : List String) (depth : Nat) ⦃α : Type⦄ (x : Eval ε α)
    (y : Eval (Noted ε) α) : Prop :=
  ∀ r journal, Chronicle r.machine journal → r.machine.missing modules ≤ depth → Meets x y r journal

theorem meetsWithin_bind {modules : List String} {depth : Nat} {x : Eval ε α} {y : Eval (Noted ε) α}
    {f : α → Eval ε β} {g : α → Eval (Noted ε) β} (h : MeetsWithin modules depth x y)
    (hf : ∀ a, MeetsWithin modules depth (f a) (g a)) :
    MeetsWithin modules depth (x >>= f) (y >>= g) := fun r journal hc hmissing =>
  meets_bind (h r journal hc hmissing) fun a t journal' _ hadds hc' =>
    hf a t journal' hc' ((missing_le hadds modules).trans hmissing)

/-- **The pieces of an evaluation come to an end**, and do the same with a journal. -/
theorem paired_meets {cb : Callbacks ε} (p : Answering cb) (modules : List String) (depth : Nat) :
    Paired (MeetsWithin modules depth) (MeetsWithin modules depth) (fun _ _ => True) cb cb.noted where
  pure a _ _ hc _ := meets_pure hc a
  raise e _ _ _ hc _ := meets_fault hc _
  bind := meetsWithin_bind
  machine _ _ hc _ := meets_machine hc
  own hf _ _ hc _ := meets_update hc (hf _).modules
  declared module name c _ _ hc _ := meets_update hc (State.own_declare _ module name c).modules
  reading module name _ _ _ hc _ := by
    refine meets_bind (meets_machine hc) fun s t _ _ _ hc => ?_
    split
    · exact meets_pure hc _
    · exact meets_fault hc _
  pinning h := h
  bindPinning := meetsWithin_bind
  pin _ _ _ hc _ := meets_update hc fun _ h => h
  withPins h r journal hc hmissing := meets_withPins (h r journal hc hmissing)
  write text _ _ hc _ := meets_call (p.write text) hc
  resolve importer name _ _ hc _ := meets_resolveModule p hc importer name
  load name _ _ hc _ := meets_call (p.load name) hc
  bindClass module className _ _ hc _ := meets_call (p.bindClass module className) hc
  bindMethod name _ _ hc _ := meets_call (p.bindMethod name) hc
  execute key frame _ _ hc _ := meets_callForeign (p.execute key) hc frame
  allocate key frame _ _ hc _ := meets_callForeign (p.allocate key) hc frame

section

variable {cb : Callbacks ε} {modules : List String}

/-- Programs come to an end, and do the same with a journal, if runs may nest deeper than modules are
missing behind the registration of their own. -/
def RunsEnd (cb : Callbacks ε) (modules : List String) (missing : Nat) : Prop :=
  ∀ depth depth', missing ≤ depth → missing ≤ depth' →
    ∀ module source, Confined cb modules source → ∀ r journal, Chronicle r.machine journal →
      (r.machine.addModule module).missing modules = missing →
        Meets (runModule cb (depth + 1) module source) (runNoting cb (depth' + 1) module source) r journal

variable (p : Answering cb)
  (hload : ∀ name r text t, cb.load name r = (.value (some text), t) →
    Confined cb modules (Text.cutText text))
include p hload

/-- **A module that is brought leaves less to be brought.**  It is loaded and run only if it was not
there, and so was not started either, and it is there once its body starts. -/
theorem meets_bring {bound depth depth' : Nat} (ih : ∀ missing < bound, RunsEnd cb modules missing)
    (hdepth : bound ≤ depth) (hdepth' : bound ≤ depth') {module : String}
    (hmodule : module ∈ modules ∨
      ∀ r text t, cb.load (Text.strip module) r ≠ (.value (some text), t))
    {r : Running ε} (hc : Chronicle r.machine journal) (hbound : r.machine.missing modules ≤ bound) :
    Meets (whenAbsent module (bringModule cb (runModule cb depth) module))
      (whenAbsent module (bringNoting cb (runNoting cb depth') module)) r journal := by
  refine meets_whenAbsent hc fun hnew => ?_
  -- what has started is registered, and this module is not
  have hstart : Notice.start module ∉ journal := fun hin => by simp [hc.started module hin] at hnew
  refine meets_note (meets_loaded p (hc.bring hstart (Or.inl rfl)) fun text t hrun hadds => ?_)
  have ht : Chronicle t.machine (journal ++ [.load module]) :=
    (hc.bring hstart (Or.inl rfl)).mono hadds
  refine meets_note (meets_recover ?_ fun e u journal' hc' => meets_refuseModule p hc' module e)
  have hin : module ∈ modules := hmodule.resolve_right fun hnone => hnone r text t hrun
  -- its body runs behind its registration, so that one module less is missing then
  have hless : (t.machine.addModule module).missing modules < r.machine.missing modules :=
    missing_lt (hadds.trans (adds_addModule t.machine module)) hin hnew
      (hasModule_addModule_self t.machine module)
  obtain ⟨depth, rfl⟩ : ∃ d, depth = d + 1 := ⟨depth - 1, by omega⟩
  obtain ⟨depth', rfl⟩ : ∃ d, depth' = d + 1 := ⟨depth' - 1, by omega⟩
  exact ih _ (hless.trans_le hbound) depth depth' (by omega) (by omega) module _
    (hload _ r text t hrun) t _ (ht.bring (by simpa using hstart) (Or.inr rfl)) rfl

/-- **Programs come to an end**, by induction on the number of modules that are missing. -/
theorem runsEnd (missing : Nat) : RunsEnd cb modules missing := by
  induction missing using Nat.strong_induction_on with
  | _ missing ih =>
    intro depth depth' hdepth hdepth' module source hsource r journal hc hmissing
    rw [runModule, runNoting]
    refine meets_accepted hc fun statements hparse => ?_
    have hadd : Adds r.machine (r.withModule module).machine := adds_addModule r.machine module
    have hthere : (r.withModule module).machine.hasModule module = true :=
      hasModule_addModule_self r.machine module
    refine meets_note ?_
    rw [execAll_with]
    -- the statements nest as deep as the modules that are missing now, and no import adds to these
    refine paired_execAllWith (paired_meets p modules missing).assembled module statements ?_
      (fun _ _ _ _ => trivial) _ _ ((hc.mono hadd).start hthere) (le_of_eq hmissing)
    intro st hst name names himport u journal₁ hu hbound
    refine meets_bind (meets_resolveModule p hu module name) fun found v journal₂ hres hadds hv => ?_
    have hfound := hsource name (mem_imports hparse hst himport) module u found v hres
    have hbound' : v.machine.missing modules ≤ missing := (missing_le hadds modules).trans hbound
    refine meets_bind (meets_bring p hload ih hdepth hdepth' hfound hv hbound')
      fun _ w journal₃ _ hadds' hw => ?_
    exact paired_importNames (paired_meets p modules missing).assembled module found names w journal₃ hw
      ((missing_le hadds' modules).trans hbound')

theorem meets_interpret {depth depth' : Nat} {module source : String}
    (hsource : Confined cb modules source) {r : Running ε} (hc : Chronicle r.machine journal)
    (hdepth : r.machine.missing modules < depth) (hdepth' : r.machine.missing modules < depth') :
    Meets (interpret cb depth module source) (interpretNoting cb depth' module source) r journal := by
  have hle : (r.machine.addModule module).missing modules ≤ r.machine.missing modules :=
    missing_le (adds_addModule r.machine module) modules
  obtain ⟨depth, rfl⟩ : ∃ d, depth = d + 1 := ⟨depth - 1, by omega⟩
  obtain ⟨depth', rfl⟩ : ∃ d, depth' = d + 1 := ⟨depth' - 1, by omega⟩
  have hrun := runsEnd p hload _ depth depth' (by omega) (by omega) module source hsource r journal
    hc rfl
  refine meets_bind (meets_attempt hrun) fun result t _ _ _ ht => ?_
  split
  · exact meets_pure ht _
  · exact meets_bind (meets_reportCompile p ht _ _) fun _ _ _ _ _ hu => meets_pure hu _
  · exact meets_bind (meets_reportRuntime p ht _) fun _ _ _ _ _ hu => meets_pure hu _

theorem meets_interpretAll {depth depth' : Nat} : ∀ {jobs : List (Job ε)},
    (∀ job ∈ jobs, Returns job.before ∧ Confined cb modules job.source) →
      ∀ {r : Running ε} {journal : List Notice}, Chronicle r.machine journal →
        r.machine.missing modules < depth → r.machine.missing modules < depth' →
          Meets (interpretAll cb depth jobs) (interpretAllNoting cb depth' jobs) r journal
  | [], _, _, _, hc, _, _ => meets_pure hc _
  | job :: rest, hjobs, r, journal, hc, hdepth, hdepth' => by
    obtain ⟨hbefore, hsource⟩ := hjobs job List.mem_cons_self
    have hrest := fun job' hin => hjobs job' (List.mem_cons_of_mem job hin)
    refine meets_bind (meets_unnoted hbefore hc) fun _ t _ _ hadds ht => ?_
    have hless := missing_le hadds modules
    refine meets_bind (meets_interpret p hload hsource ht (by omega) (by omega))
      fun result u _ _ hadds' hu => ?_
    have hless' := missing_le hadds' modules
    exact meets_bind (meets_interpretAll hrest hu (by omega) (by omega))
      fun results _ _ _ _ hv => meets_pure hv _

end

/-- A run with a journal tells what the run without is. -/
theorem noted_inj {r r' : Running ε} {journal journal' : List Notice}
    (h : r.noted journal = r'.noted journal') : r = r' := by
  obtain ⟨m, host⟩ := r
  obtain ⟨m', host'⟩ := r'
  cases h
  rfl

/-- Runs that come to an end at any two depths have one result, which does not depend on the depth. -/
theorem settled_of_meets {x : Nat → Call ε α} {y : Nat → Call (Noted ε) α} {bound : Nat}
    {r : Running ε} (h : ∀ depth depth', bound < depth → bound < depth' →
      Meets (x depth) (y depth') r journal) :
    ∃ a t, ∀ depth, bound < depth → x depth r = (.value a, t) ∧
      ∃ journal', y depth (r.noted journal) = (.value a, t.noted journal') ∧
        Chronicle t.machine journal' := by
  have hleast : bound < bound + 1 := Nat.lt_succ_self bound
  -- runs without a journal agree with one that has it, and those with a journal with one that has none
  cases h _ _ hleast hleast with
  | fault e => exact e.elim
  | value a t journal₁ hx hy _ _ =>
    refine ⟨a, t, fun depth hdepth => ⟨?_, ?_⟩⟩
    · cases h _ _ hdepth hleast with
      | fault e => exact e.elim
      | value b u journal₂ hx' hy' _ _ =>
        have hsame := hy'.symm.trans hy
        obtain rfl : b = a := Outcome.value.inj (congrArg Prod.fst hsame)
        obtain rfl : u = t := noted_inj (congrArg Prod.snd hsame)
        exact hx'
    · cases h _ _ hleast hdepth with
      | fault e => exact e.elim
      | value b u journal₂ hx' hy' _ hc =>
        cases hx'.symm.trans hx
        exact ⟨journal₂, hy', hc⟩

/-- **Imports come to an end, and do not start a module again.**  A host whose calls return, and that
has sources for finitely many names, has a result for every program: any two runs that may nest deeper
than modules are missing are the same.  With a journal, such runs do what they do without, and the
journal of any sequence of programs notes no import that loads or runs what has started.

Nothing in these runs is cut short but the text of values that contain themselves. -/
theorem imports_settle {cb : Callbacks ε} {names sources : List String} (p : Answering cb)
    (hs : Supplies cb names sources) :
    (∀ module source r, ∃ result t, ∀ depth,
      r.machine.missing (cb.importable names (source :: sources)) < depth →
        interpret cb depth module source r = (.value result, t)) ∧
    (∀ (jobs : List (Job ε)), (∀ job ∈ jobs, Returns job.before) → ∀ r, ∃ results t, ∀ depth,
      r.machine.missing (cb.importable names (jobs.map Job.source ++ sources)) < depth →
        interpretAll cb depth jobs r = (.value results, t) ∧
        ∃ journal, interpretAllNoting cb depth jobs (r.noted []) =
            (.value results, t.noted journal) ∧ journal.Pairwise Notice.Allows) ∧
    ∀ (h : Heap) (v : Value), h.Acyclic v → ∀ depth, h.objects.size < depth →
      h.textWithin depth v = h.text v := by
  have hload (programs : List String) (hprograms : sources ⊆ programs) : ∀ name r text t,
      cb.load name r = (.value (some text), t) →
        Confined cb (cb.importable names programs) (Text.cutText text) :=
    fun _ _ _ _ => hs.confined_load hprograms
  refine ⟨fun module source r => ?_, fun jobs hjobs r => ?_, fun h v hv depth => Heap.textWithin_eq hv⟩
  · have hsource : Confined cb (cb.importable names (source :: sources)) source :=
      hs.confined (Or.inl List.mem_cons_self)
    have hmeets : ∀ depth depth',
        r.machine.missing (cb.importable names (source :: sources)) < depth →
        r.machine.missing (cb.importable names (source :: sources)) < depth' →
          Meets (interpret cb depth module source) (interpretNoting cb depth' module source) r [] :=
      fun _ _ => meets_interpret p (hload _ (List.subset_cons_self source sources)) hsource
        (chronicle_nil r.machine)
    obtain ⟨result, t, hruns⟩ := settled_of_meets hmeets
    exact ⟨result, t, fun depth hdepth => (hruns depth hdepth).1⟩
  · have hjob : ∀ job ∈ jobs, Returns job.before ∧
        Confined cb (cb.importable names (jobs.map Job.source ++ sources)) job.source := fun job hin =>
      ⟨hjobs job hin, hs.confined (Or.inl (List.mem_append_left _ (List.mem_map_of_mem hin)))⟩
    obtain ⟨results, t, hruns⟩ := settled_of_meets fun depth depth' =>
      meets_interpretAll p (hload _ (List.subset_append_right _ _)) hjob (chronicle_nil r.machine)
    refine ⟨results, t, fun depth hdepth => ⟨(hruns depth hdepth).1, ?_⟩⟩
    obtain ⟨journal, hjournal, hc⟩ := (hruns depth hdepth).2
    exact ⟨journal, hjournal, hc.allowed⟩

/-- A host with two modules that import each other. -/
def circle : Callbacks Unit :=
  { mirror with
    load := fun name => pure
      (if name = "left" then some "import \"right\""
        else if name = "right" then some "import \"left\"" else none) }

theorem answering_circle : Answering circle where
  write _ r := ⟨(), r, rfl, .refl _⟩
  report _ r := ⟨(), r, rfl, .refl _⟩
  resolve _ hf := absurd hf (by simp [circle, mirror])
  load _ r := ⟨_, r, rfl, .refl _⟩
  bindClass _ _ r := ⟨_, r, rfl, .refl _⟩
  bindMethod _ r := ⟨_, r, rfl, .refl _⟩
  execute _ r := ⟨(), _, rfl, fun _ h => h⟩
  allocate _ r := ⟨(), _, rfl, fun _ h => h⟩

theorem supplies_circle :
    Supplies circle ["left", "right"] ["import \"right\"", "import \"left\""] := by
  have hload : ∀ name r source t, circle.load name r = (.value (some source), t) →
      (name = "left" ∧ source = "import \"right\"") ∨ (name = "right" ∧ source = "import \"left\"") := by
    intro name r source t h
    have hsource := Outcome.value.inj (congrArg Prod.fst h)
    split at hsource
    · next hname => exact Or.inl ⟨hname, (Option.some.inj hsource).symm⟩
    · split at hsource
      · next hname => exact Or.inr ⟨hname, (Option.some.inj hsource).symm⟩
      · exact absurd hsource (by simp)
  refine ⟨fun name r source t h => ?_, fun _ name r source t h => ?_⟩
  · rcases hload name r source t h with ⟨rfl, -⟩ | ⟨rfl, -⟩ <;> simp
  · rcases hload name r source t h with ⟨-, rfl⟩ | ⟨-, rfl⟩
    · rw [show Text.cutText "import \"right\"" = "import \"right\"" by decide]
      simp
    · rw [show Text.cutText "import \"left\"" = "import \"left\"" by decide]
      simp

/-- A program that imports one of them, run twice. -/
def circling : List (Job Unit) :=
  List.replicate 2 ⟨pure (), "main", "import \"left\""⟩

/-- Both runs succeed at every depth that suffices. -/
theorem imports_settle_circle :
    let r : Running Unit := ⟨State.create 0, ()⟩
    ∃ t, ∀ depth, 4 < depth →
      interpretAll circle depth circling r = (.value [.success, .success], t) ∧
        ∃ journal, interpretAllNoting circle depth circling (r.noted []) =
            (.value [.success, .success], t.noted journal) ∧ journal.Pairwise Notice.Allows := by
  intro r
  have hbefore : ∀ job ∈ circling, Returns job.before := by
    intro job hin r
    rw [List.eq_of_mem_replicate hin]
    exact ⟨(), r, rfl, .refl _⟩
  have hmissing : r.machine.missing (circle.importable ["left", "right"]
      (circling.map Job.source ++ ["import \"right\"", "import \"left\""])) = 4 := by cbv
  have hsuccess : (interpretAll circle 5 circling r).1 = .value [.success, .success] := by cbv
  obtain ⟨results, t, hruns⟩ :=
    (imports_settle answering_circle supplies_circle).2.1 circling hbefore r
  rw [hmissing] at hruns
  rw [(hruns 5 (by decide)).1] at hsuccess
  cases hsuccess
  exact ⟨t, hruns⟩

example : (interpretAllNoting circle 5 circling (Running.noted ⟨State.create 0, ()⟩ [])).2.host.journal =
    [.start "main", .load "left", .run "left", .start "left", .load "right", .run "right",
      .start "right", .start "main"] := by
  cbv

end Machine

end ScriptHost
