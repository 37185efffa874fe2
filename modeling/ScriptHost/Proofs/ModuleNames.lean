import ScriptHost.Proofs.Reports

/-!
# The names that a resolver answers with

The answer of a resolver crosses into the machine as a terminated text and is cut at its first NUL,
where other texts of a host with a NUL are refused: sources of modules are, and so are the names and
programs that it runs.  Here there is nothing to see of what was cut off.  The import goes on under
what is left of the name (`importModule_of_answer`), so it is an import under the answer itself only
if this has no NUL, and two answers are told apart only in front of their first NULs
(`indistinct_iff`).  A host might as well cut the answers of its resolver itself
(`interpret_cutting`).
-/

namespace ScriptHost

namespace Text

/-- What is left of a text is the text itself if it has no NUL. -/
theorem cutText_eq_self_iff {s : String} : cutText s = s ↔ '\x00' ∉ s.toList := by
  have htext : cutText s = s ↔ s.toList.takeWhile (· != '\x00') = s.toList := by
    rw [← String.toList_inj, cutText, String.toList_ofList]
  rw [htext, List.takeWhile_eq_self_iff]
  exact ⟨fun h hin => by simpa using h _ hin, fun h c hc => by
    rw [bne_iff_ne]
    rintro rfl
    exact h hc⟩

theorem cutText_cutText (s : String) : cutText (cutText s) = cutText s := by
  refine cutText_eq_self_iff.2 fun hin => ?_
  rw [cutText, String.toList_ofList] at hin
  simpa using List.mem_takeWhile_imp (p := fun c => c != '\x00') hin

end Text

namespace Machine

open Script

variable {ε : Type}

/-! ## Imports under a name -/

/-- An import under a name: a module of this name is looked up, and unless it is there its source is
loaded and run under this name.  Then its variables are taken. -/
def importUnder (cb : Callbacks ε) (run : String → String → Eval ε Unit) (importer : String)
    (names : List String) (found : String) : Eval ε Unit := do
  whenAbsent found (bringModule cb run found)
  importNames importer found names

/-- **An import goes on under what is left of the answer of the resolver.** -/
theorem importModule_of_answer {cb : Callbacks ε}
    {resolve : String → String → Call ε (Option String)} (hresolve : cb.resolve? = some resolve)
    {importer name s : String} {r t : Running ε}
    (hs : resolve (Text.strip importer) (Text.strip name) r = (.value (some s), t))
    (run : String → String → Eval ε Unit) (names : List String) :
    importModule cb run importer name names r =
      importUnder cb run importer names (Text.cutText s) t := by
  have hfound : resolveModule cb importer name r = (.value (Text.cutText s), t) := by
    have hwiden : ((resolve (Text.strip importer) (Text.strip name)).widen :
        Eval ε (Option String)) r = (.value (some s), t) := by
      rw [Run.widen, hs]
    unfold resolveModule
    rw [hresolve]
    exact Run.bind_of_value hwiden _
  rw [importModule_with, importWith, Run.bind_of_value hfound]
  rfl

/-! ## Answers that are told apart -/

/-- A host whose resolver has one answer to everything. -/
def Callbacks.answering (cb : Callbacks ε) (s : String) : Callbacks ε :=
  { cb with resolve? := some fun _ _ => pure (some s) }

/-- No import tells two answers of a resolver apart. -/
def Indistinct (s s' : String) : Prop :=
  ∀ {ε : Type} (cb : Callbacks ε) (run : String → String → Eval ε Unit) (importer name : String)
    (names : List String),
    importModule (cb.answering s) run importer name names =
      importModule (cb.answering s') run importer name names

theorem importModule_answering (cb : Callbacks ε) (s : String) (run : String → String → Eval ε Unit)
    (importer name : String) (names : List String) :
    importModule (cb.answering s) run importer name names =
      importUnder cb run importer names (Text.cutText s) :=
  have hresolve : (cb.answering s).resolve? = some fun _ _ => pure (some s) := rfl
  funext fun _ => importModule_of_answer hresolve rfl run names

/-- **Answers are told apart by what is in front of their first NULs**, and by nothing else. -/
theorem indistinct_iff {s s' : String} : Indistinct s s' ↔ Text.cutText s = Text.cutText s' := by
  refine ⟨fun h => ?_, fun h ε cb run importer name names => ?_⟩
  · -- a machine without modules and a host without sources name the module that was not found
    let blank : Running Unit := ⟨{ State.create 0 with modules := .empty }, ()⟩
    have hmissing : ∀ text,
        importModule (mirror.answering text) (fun _ _ => pure ()) "" "" [] blank =
        (.fault (.runtime (.missingModule (Text.cutText text))), blank) := fun text => by
      rw [importModule_answering]
      rfl
    have hsame := (hmissing s).symm.trans
      ((congrFun (h mirror _ "" "" []) blank).trans (hmissing s'))
    have hfault := Outcome.fault.inj (congrArg Prod.fst hsame)
    exact RuntimeError.missingModule.inj (Fault.runtime.inj hfault)
  · rw [importModule_answering, importModule_answering, h]

/-! ## Hosts that cut -/

/-- What an import goes on with is told by what is left of the answer. -/
theorem resolveModule_eq {cb : Callbacks ε} {resolve : String → String → Call ε (Option String)}
    (hresolve : cb.resolve? = some resolve) (importer name : String) (r : Running ε) :
    resolveModule cb importer name r =
      match (Option.map Text.cutText <$> resolve (Text.strip importer) (Text.strip name)) r with
      | (.value (some found), t) => (.value found, t)
      | (.value none, t) => (.fault (.runtime (.unresolvedModule name importer)), t)
      | (.halt h, t) => (.halt h, t) := by
  unfold resolveModule
  rw [hresolve, map_eq_pure_bind]
  rcases hrun : resolve (Text.strip importer) (Text.strip name) r with ⟨answer | e | h, t⟩
  · have hwiden : ((resolve (Text.strip importer) (Text.strip name)).widen :
        Eval ε (Option String)) r = (.value answer, t) := by
      rw [Run.widen, hrun]
    rw [Run.bind_of_value hrun]
    dsimp only
    rw [Run.bind_of_value hwiden]
    cases answer <;> rfl
  · exact e.elim
  · have hwiden : ((resolve (Text.strip importer) (Text.strip name)).widen :
        Eval ε (Option String)) r = (.halt h, t) := by
      rw [Run.widen, hrun]
    rw [Run.bind_of_halt hrun]
    dsimp only
    rw [Run.bind_of_halt hwiden]

/-- Resolvers whose answers are cut to the same lead to the same runs. -/
theorem interpret_congr {cb cb' : Callbacks ε}
    {resolve resolve' : String → String → Call ε (Option String)} (hcb : cb.resolve? = some resolve)
    (hcb' : cb' = { cb with resolve? := some resolve' })
    (hcut : ∀ importer name, Option.map Text.cutText <$> resolve' importer name =
      Option.map Text.cutText <$> resolve importer name) : interpret cb' = interpret cb := by
  subst hcb'
  let cb' : Callbacks ε := { cb with resolve? := some resolve' }
  have p : PairedRuns (fun _ x y => x = y) (fun _ x y => x = y) cb' cb :=
    { pure := fun _ => rfl
      raise := fun _ _ => rfl
      bind := fun hx hf => by rw [hx, funext hf]
      machine := rfl
      own := fun _ => rfl
      reading := fun _ _ _ => rfl
      pinning := id
      bindPinning := fun hx hf => by rw [hx, funext hf]
      pin := fun _ => rfl
      withPins := fun h => by rw [h]
      resolve := fun importer name => funext fun r => by
        have hcb' : cb'.resolve? = some resolve' := rfl
        rw [resolveModule_eq hcb', resolveModule_eq hcb, hcut]
      load := fun _ => rfl
      declared := fun _ _ _ => rfl
      write := fun _ => rfl
      bindClass := fun _ _ => rfl
      bindMethod := fun _ => rfl
      execute := fun _ _ => rfl
      allocate := fun _ _ => rfl
      refuse := fun _ => rfl
      exhausted := rfl
      report := fun _ => rfl
      recover := fun hx hf => by rw [hx, funext hf] }
  funext depth module source
  unfold interpret
  rw [paired_runModule p.assembled depth module source]
  rfl

end Machine

namespace Bridge

open Machine (Callbacks Call Running resolveModule importUnder importModule Indistinct)

variable {η : Type} [Observer η]

/-- A host that cuts the answers of its resolver. -/
def Delegates.cutting (d : Delegates η) : Delegates η :=
  { d with resolve := fun listener vm importer name =>
      Option.map Text.cutText <$> d.resolve listener vm importer name }

/-- The name itself, which is the answer without a resolver, is cut by neither. -/
theorem resolve_cutting (d : Delegates η) (a : Address) (importer? name? : Option String) :
    Option.map Text.cutText <$> Trampoline.resolve d.cutting a importer? name? =
      Option.map Text.cutText <$> Trampoline.resolve d a importer? name? := by
  have hcut : Option.map Text.cutText ∘ Option.map Text.cutText = Option.map Text.cutText := by
    rw [Option.map_comp_map]
    exact congrArg Option.map (funext Text.cutText_cutText)
  cases name? with
  | none => rfl
  | some name =>
    unfold Trampoline.resolve
    simp only [map_bind]
    refine congrArg _ (funext fun vm? => ?_)
    cases vm? with
    | none => rfl
    | some vm =>
      simp only [map_bind]
      refine congrArg _ (funext fun listeners => ?_)
      cases listeners.resolve? with
      | none => rfl
      | some listener =>
        dsimp only [Delegates.cutting]
        rw [← comp_map, hcut]

omit [Observer η] in
theorem atHost_map {α β : Type} (a : Address) (f : α → β) (x : Effect η α) :
    atHost a (f <$> x) = f <$> atHost a x := by
  funext r
  have hmap : ∀ {σ φ : Type} (y : Run σ φ α) (u : σ), (f <$> y) u = match y u with
      | (.value v, t) => (.value (f v), t)
      | (.fault e, t) => (.fault e, t)
      | (.halt h, t) => (.halt h, t) := fun y u => by
    rw [map_eq_pure_bind]
    rcases hy : y u with ⟨v | e | h, t⟩
    · exact Run.bind_of_value hy _
    · exact Run.bind_of_fault hy _
    · exact Run.bind_of_halt hy _
  rw [hmap]
  unfold atHost Run.sealed
  rw [hmap]
  rcases x (r.host.putMachine a r.machine) with ⟨v | e | h, t⟩
  · rfl
  · rfl
  · cases h <;> rfl

/-- **Nothing that a program does depends on what is cut off.** -/
theorem interpret_cutting (d : Delegates η) (a : Address) :
    Machine.interpret (callbacks d.cutting a) = Machine.interpret (callbacks d a) :=
  Machine.interpret_congr rfl rfl fun importer name => by
    rw [← atHost_map, ← atHost_map, resolve_cutting]

namespace Vm

/-- A service whose host cuts the answers of its resolver runs programs as it does otherwise. -/
theorem interpret_cutting (d : Delegates η) (depth : Nat) :
    Vm.interpret ⟨d.cutting, depth⟩ = Vm.interpret ⟨d, depth⟩ := by
  have hmachine : ∀ a module source, (onMachine d.cutting a fun cb =>
      Machine.interpret cb depth module source : Act η InterpretResult) =
        onMachine d a fun cb => Machine.interpret cb depth module source := by
    intro a module source
    funext w
    have hrun : Machine.interpret (callbacksOf d.cutting w a) =
        Machine.interpret (callbacksOf d w a) := by
      unfold callbacksOf
      split
      · split
        · exact Bridge.interpret_cutting d a
        · rfl
      · exact Bridge.interpret_cutting d a
    simp only [onMachine, hrun]
  funext vm module source
  unfold Vm.interpret
  simp only [hmachine]

end Vm

namespace Trampoline

/-- **An import is one under the answer of the resolver as it is up to its first NUL.**  So it is
one under the answer itself exactly if this has no NUL, no import tells two answers apart that are
the same up to there, and a host that cuts its answers is the same as one that does not.

Whatever comes of such an import, the NUL is no reason for it to fail. -/
theorem imports_cut {d : Delegates η} {a : Address} {vm : VmId} {listener : Delegate}
    {importer name s : String} {r : Running (World η)} {w : World η}
    (hreg : (world a r).registered.find? a = some vm)
    (hlistener : ((world a r).vm vm).listeners.resolve? = some listener)
    (hs : d.resolve listener vm (Text.strip importer) (Text.strip name) (world a r) =
      (.value (some s), w)) :
    (∀ run names, importModule (callbacks d a) run importer name names r =
      importUnder (callbacks d a) run importer names (Text.cutText s) ⟨w.machine a, w⟩) ∧
    (Text.cutText s = s ↔ '\x00' ∉ s.toList) ∧
    (∀ s', Indistinct s s' ↔ Text.cutText s = Text.cutText s') ∧
    ∀ depth, Vm.interpret ⟨d.cutting, depth⟩ = Vm.interpret ⟨d, depth⟩ := by
  refine ⟨fun run names => ?_, Text.cutText_eq_self_iff, fun _ => Machine.indistinct_iff,
    Vm.interpret_cutting d⟩
  have hresolve : Trampoline.resolve d a (some (Text.strip importer)) (some (Text.strip name))
      (world a r) = (.value (some s), w) := by
    simp only [Trampoline.resolve, Trampoline.lookup_bind hreg, Vm.listeners_bind, hlistener]
    exact hs
  have hcall : atHost a (Trampoline.resolve d a (some (Text.strip importer))
      (some (Text.strip name))) r = (.value (some s), ⟨w.machine a, w⟩) := by
    have hsealed : (Trampoline.resolve d a (some (Text.strip importer))
        (some (Text.strip name))).sealed (world a r) = (.value (some s), w) := by
      rw [Run.sealed, hresolve]
    unfold atHost
    rw [show r.host.putMachine a r.machine = world a r from rfl, hsealed]
  have hlooks : (callbacks d a).resolve? = some fun importer name =>
      atHost a (Trampoline.resolve d a (some importer) (some name)) := rfl
  exact Machine.importModule_of_answer hlooks hcall run names

end Trampoline

namespace Setting

/-- A host whose resolver answers with a NUL. -/
def naming : Setting Unit :=
  { silent with
    importDepth := 2
    code := { silent.code with
      resolve := fun _ _ _ _ => .done (some "a\x00b")
      load := fun _ _ _ => .done (some "var X = null") } }

/-- A host that makes a machine, and finds and loads modules for it. -/
def christening : Program Unit Vm :=
  .ask .newService fun service =>
  .ask (.create service ⟨none, none, none, none⟩) fun vm =>
  .ask (.listen vm.id fun l => { l with resolve? := some 5, load? := some 6 }) fun _ => .done vm

/-- The world of the machine. -/
def christened : World (Host Unit) := (naming.run christening).2

/-- A module is asked for under the name in front of the NUL, and is there under this name. -/
theorem imports_cut_christened :
    let e := naming.code.engines 2 1 [2]
    let cb := callbacks e.delegates 2
    let r : Running (World (Host Unit)) := ⟨christened.machine 2, christened⟩
    (∃ t, ∀ run, importModule cb run "main" "m" ["X"] r =
        importUnder cb run "main" ["X"] "a" t) ∧
      Text.cutText "a\x00b" ≠ "a\x00b" ∧ Indistinct "a\x00b" "a\x00c" ∧
      (Vm.interpret e 1 "main" "import \"m\" for X" christened).1 = .value .success ∧
      ((Vm.interpret e 1 "main" "import \"m\" for X" christened).2.machine 2).modules.keys =
        ["core", "main", "a"] := by
  intro e cb r
  have hreg : (world 2 r).registered.find? 2 = some 1 := by cbv
  have hlistener : ((world 2 r).vm 1).listeners.resolve? = some 5 := by cbv
  obtain ⟨w, hs⟩ : ∃ w, e.delegates.resolve 5 1 (Text.strip "main") (Text.strip "m") (world 2 r) =
      (.value (some "a\x00b"), w) := ⟨_, rfl⟩
  obtain ⟨himport, hself, hindistinct, -⟩ := Trampoline.imports_cut hreg hlistener hs
  refine ⟨⟨_, fun run => himport run ["X"]⟩, ?_, ?_, ?_, ?_⟩
  · exact fun h => absurd (hself.1 h) (by decide)
  · exact (hindistinct _).2 (by decide +kernel)
  · cbv
  · cbv

end Setting

end Bridge

end ScriptHost
