import ScriptHost.Proofs.Encoding
import ScriptHost.Proofs.Lasting

/-!
# Runs that stop where a host function fails

A host function that fails cannot raise an error by itself: it asks for one, and comes back.  To see
what becomes of its error, the callbacks of a machine are given an alarm, a panic that is raised in
the state in which the failing function comes back (`Callbacks.alarmed`).  A run that hears no alarm is
the same without it.  A run that hears one is at its end, and without the alarm it is too: it leaves
the frame of the function, forgets its pins, and has the text of the alarm as its error (`Heard`).
Nothing else is evaluated or executed in between, however deep expressions and imports are nested.
-/

namespace ScriptHost.Machine

open Script

variable {ε φ α β : Type}

/-- A run whose host function has come back, with the pins that are left. -/
def Running.returned (r : Running ε) (pins : List Value) : Running ε :=
  { r with machine := { r.machine.leaveFrame with pins } }

/-- What the end `p` of a part of a run among alarms says of its end `q` without them, `A` being the
texts of alarms.  Instead of an alarm there is a runtime error with its text; everything else is the
same. -/
def Heard (A : String → Prop) (p q : Outcome Fault α × Running ε) : Prop :=
  match p with
  | (.halt (.panic text), u) =>
    A text ∧ ∃ pins, q = (.fault (.runtime (.aborted text)), u.returned pins)
  | _ => q = p

/-- Callbacks that raise alarms behind methods and allocators, and are the same otherwise, where `Ok`
holds. -/
structure Warned (A : String → Prop) (Ok : Running ε → Prop) (cb' cb : Callbacks ε) : Prop where
  write : ∀ text r, Ok r → cb'.write text r = cb.write text r
  report : ∀ diagnostic r, Ok r → cb'.report diagnostic r = cb.report diagnostic r
  resolve : ∀ importer name r, Ok r →
    resolveModule cb' importer name r = resolveModule cb importer name r
  load : ∀ name r, Ok r → cb'.load name r = cb.load name r
  bindClass : ∀ module className r, Ok r →
    cb'.bindClass module className r = cb.bindClass module className r
  bindMethod : ∀ name r, Ok r → cb'.bindMethod name r = cb.bindMethod name r
  execute : ∀ key frame r, Ok r →
    Heard A (callForeign (cb'.execute key) frame r) (callForeign (cb.execute key) frame r)
  allocate : ∀ key frame r, Ok r →
    Heard A (callForeign (cb'.allocate key) frame r) (callForeign (cb.allocate key) frame r)

/-! ## Failing functions -/

/-- A host function with an alarm behind it, which is raised if it comes back with an error. -/
def alarm (error? : Running ε → Option String) (function : Call ε Unit) : Call ε Unit := fun r =>
  match error? r with
  | none => function r
  | some text => (.halt (.panic text), (function r).2)

/-- Callbacks with alarms behind methods and allocators, which come back with the errors that
`methods` and `allocators` tell. -/
def Callbacks.alarmed (cb : Callbacks ε) (methods allocators : Key → Running ε → Option String) :
    Callbacks ε :=
  { cb with
    execute := fun key => alarm (methods key) (cb.execute key)
    allocate := fun key => alarm (allocators key) (cb.allocate key) }

/-- The text of a value is the text that it was made of. -/
theorem text_ofText (h : Heap) (text : String) : h.text (.ofText text) = text := by
  have hwithin : h.text (.ofText text) = Text.Utf8.decodeLossy (Text.Utf8.encode text) := rfl
  rw [hwithin, Text.Utf8.decodeLossy_encode]

/-- **A host function that asks to abort with a text ends its call with this text.** -/
theorem heard_alarm {error? : Running ε → Option String} {function : Call ε Unit}
    {frame : List Value} {r : Running ε}
    (herror : ∀ text, error? (r.entered frame) = some text → ∃ t,
      function (r.entered frame) = (.value (), t) ∧ t.machine.abortRequest? = some (.ofText text))
    (hfunction : error? (r.entered frame) = none →
      Heard (fun _ => True) (callForeign function frame r) (callForeign function frame r)) :
    Heard (fun _ => True) (callForeign (alarm error? function) frame r) (callForeign function frame r) := by
  cases hcome : error? (r.entered frame) with
  | none =>
    have halarm : alarm error? function (r.entered frame) = function (r.entered frame) := by
      rw [alarm, hcome]
    have hcall : callForeign (alarm error? function) frame r = callForeign function frame r := by
      rcases hrun : function (r.entered frame) with ⟨_ | e | w, t⟩
      · rw [callForeign_of_value hrun, callForeign_of_value (halarm.trans hrun)]
      · exact e.elim
      · rw [callForeign_of_halt hrun, callForeign_of_halt (halarm.trans hrun)]
    rw [hcall]
    exact hfunction hcome
  | some text =>
    obtain ⟨t, hrun, habort⟩ := herror text hcome
    have halarm : alarm error? function (r.entered frame) = (.halt (.panic text), t) := by
      rw [alarm, hcome, hrun]
    have hanswer : t.machine.answer = .fault (.runtime (.aborted text)) := by
      rw [State.answer, habort]
      exact congrArg (fun text => Outcome.fault (Fault.runtime (.aborted text))) (text_ofText _ text)
    rw [callForeign_of_halt halarm, callForeign_of_value hrun, hanswer]
    exact ⟨trivial, t.machine.pins, rfl⟩

section

variable {Ok : Running ε → Prop} {L S : Running ε → Running ε → Prop} {K M U : State → State → Prop}
  {F : Fault → Prop} {A : String → Prop} {r : Running ε}

/-! ## Alarms on the way -/

theorem Heard.of_panic {p q : Outcome Fault α × Running ε} {text : String} {u : Running ε}
    (hp : p = (.halt (.panic text), u)) (ha : A text) {pins : List Value}
    (hq : q = (.fault (.runtime (.aborted text)), u.returned pins)) : Heard A p q := by
  subst hp
  exact ⟨ha, pins, hq⟩

/-- What is said of two ends at once: an alarm is heard, or none is, and they are the same. -/
theorem Heard.cases {p q : Outcome Fault α × Running ε} (h : Heard A p q) :
    (∃ text u pins, p = (.halt (.panic text), u) ∧ A text ∧
      q = (.fault (.runtime (.aborted text)), u.returned pins)) ∨ q = p := by
  rcases p with ⟨a | e | w, u⟩
  · exact Or.inr h
  · exact Or.inr h
  · cases w with
    | panic text =>
      obtain ⟨ha, pins, hq⟩ := h
      exact Or.inl ⟨text, u, pins, rfl, ha, hq⟩
    | fatal | exhausted => exact Or.inr h

/-- Work that no panic leaves is heard as it is. -/
theorem heard_self {x : Eval ε α} (h : Lasting Ok L S K F x r) : Heard A (x r) (x r) := by
  rcases hx : x r with ⟨a | e | w, t⟩
  · rfl
  · rfl
  · have hfinal := (h.halt w t hx).1
    cases w with
    | panic => exact absurd hfinal (by simp [Outcome.isFinal])
    | fatal | exhausted => rfl

theorem heard_of_eq {x y : Eval ε α} (h : Lasting Ok L S K F y r) (hxy : x r = y r) :
    Heard A (x r) (y r) := by
  rw [hxy]
  exact heard_self h

theorem heard_bind {x y : Eval ε α} {f g : α → Eval ε β} (hy : Lasting Ok L S K F y r)
    (hx : Heard A (x r) (y r)) (hf : ∀ a t, Ok t → Heard A (f a t) (g a t)) :
    Heard A ((x >>= f) r) ((y >>= g) r) := by
  rcases hx.cases with ⟨text, u, pins, hp, ha, hq⟩ | hsame
  · exact .of_panic (Run.bind_of_halt hp f) ha (Run.bind_of_fault hq g)
  · rcases hyr : y r with ⟨a | e | w, t⟩
    · rw [Run.bind_of_value (hsame.symm.trans hyr), Run.bind_of_value hyr]
      exact hf a t (hy.value a t hyr).2.1
    · rw [Run.bind_of_fault (hsame.symm.trans hyr), Run.bind_of_fault hyr]
      rfl
    · rw [Run.bind_of_halt (hsame.symm.trans hyr), Run.bind_of_halt hyr]
      have hfinal := (hy.halt w t hyr).1
      cases w with
      | panic => exact absurd hfinal (by simp [Outcome.isFinal])
      | fatal | exhausted => rfl

/-- Pins are forgotten, alarm or not. -/
theorem heard_withPins {x y : Eval ε α} (h : Heard A (x r) (y r)) :
    Heard A (withPins x r) (withPins y r) := by
  have hx : withPins x r = x.andFinally
      (fun t => { t with machine := t.machine.unpinTo r.machine.pins.length }) r := rfl
  have hy : withPins y r = y.andFinally
      (fun t => { t with machine := t.machine.unpinTo r.machine.pins.length }) r := rfl
  rcases h.cases with ⟨text, u, pins, hp, ha, hq⟩ | hsame
  · rw [Run.andFinally, hp] at hx
    rw [Run.andFinally, hq] at hy
    exact .of_panic hx ha hy
  · rw [Run.andFinally, hsame] at hy
    rw [Run.andFinally] at hx
    rw [hx, hy]
    rcases hxr : x r with ⟨a | e | w, t⟩
    · rfl
    · rfl
    · rw [hxr] at h hsame
      cases w with
      | panic text =>
        obtain ⟨-, pins, hq⟩ := h
        exact absurd (congrArg Prod.fst (hq.symm.trans hsame)) (by simp)
      | fatal | exhausted => rfl

/-- The error of an alarm is not one that a module does not compile. -/
theorem heard_recover {x y : Eval ε Unit} {refused refused' : CompileError → Eval ε Unit}
    (hy : Lasting Ok L S K F y r) (h : Heard A (x r) (y r))
    (hrefused : ∀ e t, Ok t → Heard A (refused e t) (refused' e t)) :
    Heard A (recover x refused r) (recover y refused' r) := by
  rcases h.cases with ⟨text, u, pins, hp, ha, hq⟩ | hsame
  · have hattempt : (x.attempt : Eval ε (Except Fault Unit)) r = (.halt (.panic text), u) := by
      rw [Run.attempt, hp]
    exact .of_panic (Run.bind_of_halt hattempt _) ha (Run.bind_of_value (Run.attempt_of_fault hq) _)
  · have hx : (x.attempt : Eval ε (Except Fault Unit)) r = y.attempt r := by
      rw [Run.attempt, Run.attempt, hsame]
    refine heard_bind (lasting_attempt (G := F) hy) (heard_of_eq (lasting_attempt (G := F) hy) hx)
      fun result t hok => ?_
    rcases result with (e | e) | _
    · exact hrefused e t hok
    · rfl
    · rfl

/-! ## Evaluations and runs -/

variable {cb cb' : Callbacks ε} (p : Steered Ok L S K M U cb) (a : Warned A Ok cb' cb)
include p a

/-- **An alarm is heard through a whole run**: from any part of it that it ends. -/
theorem pairedRuns_heard :
    PairedRuns
      (fun _ x y => ∀ r, Ok r → Lasting Ok L S K (fun _ => True) y r ∧ Heard A (x r) (y r))
      (fun _ x y => ∀ r, Ok r → Lasting Ok L S U (fun _ => True) y r ∧ Heard A (x r) (y r))
      cb' cb := by
  have l := pairedRuns_lasting p
  have hhost : ∀ {γ : Type} {x y : Call ε γ}, (∀ r, Ok r → x r = y r) →
      (∀ r, Ok r → Lasting Ok L S K (fun _ => True) (y.widen : Eval ε γ) r) → ∀ r, Ok r →
        Lasting Ok L S K (fun _ => True) (y.widen : Eval ε γ) r ∧
          Heard A ((x.widen : Eval ε γ) r) (y.widen r) := by
    refine fun hxy hy r hok => ⟨hy r hok, heard_of_eq (hy r hok) ?_⟩
    rw [Run.widen, Run.widen, hxy r hok]
  exact
    { pure := fun v r hok => ⟨l.pure v r hok, heard_self (l.pure v r hok)⟩
      raise := fun e he r hok => ⟨l.raise e he r hok, heard_self (l.raise e he r hok)⟩
      bind := fun hx hf r hok =>
        ⟨lasting_bind p.span p.balanced.trans (hx r hok).1 fun v t _ hok => (hf v t hok).1,
          heard_bind (hx r hok).1 (hx r hok).2 fun v t hok => (hf v t hok).2⟩
      machine := fun r hok => ⟨l.machine r hok, heard_self (l.machine r hok)⟩
      own := fun hf r hok => ⟨l.own hf r hok, heard_self (l.own hf r hok)⟩
      declared := fun module name c r hok =>
        ⟨l.declared module name c r hok, heard_self (l.declared module name c r hok)⟩
      reading := fun module name h r hok =>
        ⟨l.reading module name h r hok, heard_self (l.reading module name h r hok)⟩
      pinning := fun hx r hok =>
        ⟨(hx r hok).1.mono p.balanced.pinning fun _ h => h, (hx r hok).2⟩
      bindPinning := fun hx hf r hok =>
        ⟨lasting_bind p.span p.balanced.transPinning (hx r hok).1 fun v t _ hok => (hf v t hok).1,
          heard_bind (hx r hok).1 (hx r hok).2 fun v t hok => (hf v t hok).2⟩
      pin := fun values r hok => ⟨l.pin values r hok, heard_self (l.pin values r hok)⟩
      withPins := fun hx r hok =>
        ⟨lasting_withPins p (hx r hok).1, heard_withPins (hx r hok).2⟩
      write := fun text => hhost (a.write text) (l.write text)
      resolve := fun importer name r hok =>
        ⟨l.resolve importer name r hok,
          heard_of_eq (l.resolve importer name r hok) (a.resolve importer name r hok)⟩
      load := fun name => hhost (a.load name) (l.load name)
      bindClass := fun module className => hhost (a.bindClass module className) (l.bindClass module className)
      bindMethod := fun name => hhost (a.bindMethod name) (l.bindMethod name)
      execute := fun key frame r hok => ⟨l.execute key frame r hok, a.execute key frame r hok⟩
      allocate := fun key frame r hok => ⟨l.allocate key frame r hok, a.allocate key frame r hok⟩
      refuse := fun e r hok => ⟨l.refuse e r hok, heard_self (l.refuse e r hok)⟩
      exhausted := fun r hok => ⟨l.exhausted r hok, heard_self (l.exhausted r hok)⟩
      report := fun diagnostic => hhost (a.report diagnostic) (l.report diagnostic)
      recover := fun hx hrefused r hok =>
        ⟨lasting_recover p (hx r hok).1 fun e t hok => (hrefused e t hok).1,
          heard_recover (hx r hok).1 (hx r hok).2 fun e t hok => (hrefused e t hok).2⟩ }

/-! ## Runs by the host -/

omit p a

/-- A call of a handle is none if the handle is unknown, is refused if there are too few slots, and
invokes its method otherwise. -/
theorem callHandle_cases (address : Nat) (r : Running ε) :
    (∀ cb, callHandle cb address r = (.value .runtimeError, r)) ∨
      (∃ signature, ∀ cb, callHandle cb address r = refuseCall cb signature r) ∨
      ∃ signature frame, ∀ cb, callHandle cb address r =
        ((invoke cb signature frame).attempt >>= settleCall cb) r.called := by
  rcases hfind : r.machine.handles.find? address with _ | _ | ⟨signature, arity⟩
  · refine Or.inl fun cb => ?_
    rw [callHandle, machine_bind, hfind]
    rfl
  · refine Or.inl fun cb => ?_
    rw [callHandle, machine_bind, hfind]
    rfl
  · by_cases hshort : r.machine.slots.length < arity + 1
    · refine Or.inr (Or.inl ⟨signature, fun cb => ?_⟩)
      rw [callHandle_of_method hfind, callMethod_of_short hshort]
    · refine Or.inr (Or.inr ⟨signature, r.machine.slots.take (arity + 1), fun cb => ?_⟩)
      rw [callHandle_of_method hfind, callMethod_of_slots (Nat.le_of_not_lt hshort)]

/-- The report of an error, and the result behind it. -/
def reported (cb : Callbacks ε) (text : String) : Call ε InterpretResult := do
  reportRuntime cb text
  return .runtimeError

/-- What the end `p` of a run by the host among alarms says of its end `q` without them: instead of an
alarm there is a report of its text. -/
def HeardByHost (A : String → Prop) (Ok : Running ε → Prop) (cb : Callbacks ε)
    (p q : Outcome Empty InterpretResult × Running ε) : Prop :=
  match p with
  | (.halt (.panic text), u) =>
    A text ∧ ∃ pins, Ok (u.returned pins) ∧ q = reported cb text (u.returned pins)
  | _ => q = p

theorem HeardByHost.of_panic {p q : Outcome Empty InterpretResult × Running ε} {text : String}
    {u : Running ε} (hp : p = (.halt (.panic text), u)) (ha : A text) {pins : List Value}
    (hok : Ok (u.returned pins)) (hq : q = reported cb text (u.returned pins)) :
    HeardByHost A Ok cb p q := by
  subst hp
  exact ⟨ha, pins, hok, hq⟩

/-- Where no text is one of an alarm, none is heard. -/
theorem HeardByHost.eq {p q : Outcome Empty InterpretResult × Running ε}
    (h : HeardByHost (fun _ => False) Ok cb p q) : q = p := by
  rcases p with ⟨v | e | w, t⟩
  · exact h
  · exact h
  · cases w with
    | panic => exact h.1.elim
    | fatal | exhausted => exact h

/-- Work that no panic leaves is heard as it is. -/
theorem HeardByHost.of_eq {p q : Outcome Empty InterpretResult × Running ε} (hpq : p = q)
    (h : ∀ w, q.1 = .halt w → (Outcome.halt w : Outcome Empty Unit).isFinal = true) :
    HeardByHost A Ok cb p q := by
  subst hpq
  rcases p with ⟨v | e | w, t⟩
  · rfl
  · rfl
  · have hfinal := h w rfl
    cases w with
    | panic => exact absurd hfinal (by simp [Outcome.isFinal])
    | fatal | exhausted => rfl

/-- Work goes on alike behind the same work. -/
theorem bind_eq {x y : Call ε α} {f g : α → Call ε β} (hy : Lasting Ok L S K (fun _ => True) y r)
    (hxy : x r = y r) (hf : ∀ v t, Ok t → f v t = g v t) : (x >>= f) r = (y >>= g) r := by
  rcases hyr : y r with ⟨v | e | w, t⟩
  · rw [Run.bind_of_value (hxy.trans hyr), Run.bind_of_value hyr]
    exact hf v t (hy.value v t hyr).2.1
  · exact e.elim
  · rw [Run.bind_of_halt (hxy.trans hyr), Run.bind_of_halt hyr]

include p a

theorem reported_eq (hok : Ok r) (text : String) : reported cb' text r = reported cb text r := by
  have hreport : ∀ diagnostic r, Ok r → Lasting Ok L S K (fun _ => True) (cb.report diagnostic) r :=
    fun diagnostic r hok => lasting_call (p.report diagnostic) (p.contained.report diagnostic) hok
  have hruntime : reportRuntime cb' text r = reportRuntime cb text r := by
    refine bind_eq (hreport _ r hok) (a.report _ r hok) fun _ t hok => ?_
    exact bind_eq (lasting_machine p hok) rfl fun _ t hok => a.report _ t hok
  exact bind_eq (lasting_reportRuntime p hok text) hruntime fun _ _ _ => rfl

/-- **A run of a program that hears an alarm reports its text**, and one that hears none is as it is
without alarms. -/
theorem heard_interpret (hok : Ok r) (depth : Nat) (module source : String) :
    HeardByHost A Ok cb (interpret cb' depth module source r) (interpret cb depth module source r) := by
  obtain ⟨hlasting, hheard⟩ := paired_runModule (pairedRuns_heard p a).assembled depth module source r hok
  rcases hheard.cases with ⟨text, u, pins, hp, ha, hq⟩ | hsame
  · have hattempt : ((runModule cb' depth module source).attempt :
        Call ε (Except Fault Unit)) r = (.halt (.panic text), u) := by
      rw [Run.attempt, hp]
    exact .of_panic (Run.bind_of_halt hattempt _) ha (hlasting.fault _ _ hq).1.2.1
      (Run.bind_of_value (Run.attempt_of_fault hq) _)
  · have hattempt : ((runModule cb' depth module source).attempt :
        Call ε (Except Fault Unit)) r = (runModule cb depth module source).attempt r := by
      rw [Run.attempt, Run.attempt, hsame]
    have hinterpret := lasting_interpret p hok depth module source
    refine .of_eq ?_ fun w hw => (isFinal_halt w).trans (hinterpret.halt w _ (Prod.ext hw rfl)).1
    refine bind_eq (lasting_attempt hlasting) hattempt fun result t hok => ?_
    rcases result with (e | e) | _
    · exact bind_eq (lasting_call (p.report _) (p.contained.report _) hok) (a.report _ t hok)
        fun _ _ _ => rfl
    · exact reported_eq p a hok e.message
    · rfl

/-- **A call of a method that hears an alarm reports its text**, and one that hears none is as it is
without alarms. -/
theorem heard_callHandle (hok : Ok r) (address : Nat) :
    HeardByHost A Ok cb (callHandle cb' address r) (callHandle cb address r) := by
  have hcalled := called_callHandle p hok address
  have hsame : callHandle cb' address r = callHandle cb address r →
      HeardByHost A Ok cb (callHandle cb' address r) (callHandle cb address r) :=
    fun heq => .of_eq heq fun w hw => (hcalled.halt w hw).1
  rcases callHandle_cases address r with hnone | ⟨signature, hshort⟩ | ⟨signature, frame, hcall⟩
  · exact hsame ((hnone cb').trans (hnone cb).symm)
  · refine hsame ?_
    rw [hshort, hshort]
    exact reported_eq p a hok _
  · have hlocate : Own r.machine r.called.machine := State.own_locate _ _
    have hok' : Ok r.called := (p.work hok hlocate.inner).2
    obtain ⟨hlasting, hheard⟩ := paired_invoke (pairedRuns_heard p a).toPaired signature frame _ hok'
    rcases hheard.cases with ⟨text, u, pins, hp, ha, hq⟩ | hinvoke
    · have hattempt : ((invoke cb' signature frame).attempt : Call ε (Except Fault Value)) r.called =
          (.halt (.panic text), u) := by
        rw [Run.attempt, hp]
      rw [hcall, hcall]
      exact .of_panic (Run.bind_of_halt hattempt _) ha (hlasting.fault _ _ hq).1.2.1
        (Run.bind_of_value (Run.attempt_of_fault hq) _)
    · have hattempt : ((invoke cb' signature frame).attempt : Call ε (Except Fault Value)) r.called =
          (invoke cb signature frame).attempt r.called := by
        rw [Run.attempt, Run.attempt, hinvoke]
      refine hsame ?_
      rw [hcall, hcall]
      refine bind_eq (lasting_attempt hlasting) hattempt fun result t hok => ?_
      cases result with
      | ok v => rfl
      | error e => exact reported_eq p a hok e.message

omit a

/-! ## Where the host is called -/

/-- Callbacks that are the same where `Ok` holds. -/
structure Agree (Ok : Running ε → Prop) (cb' cb : Callbacks ε) : Prop where
  write : ∀ text r, Ok r → cb'.write text r = cb.write text r
  report : ∀ diagnostic r, Ok r → cb'.report diagnostic r = cb.report diagnostic r
  resolve : ∀ importer name r, Ok r →
    resolveModule cb' importer name r = resolveModule cb importer name r
  load : ∀ name r, Ok r → cb'.load name r = cb.load name r
  bindClass : ∀ module className r, Ok r →
    cb'.bindClass module className r = cb.bindClass module className r
  bindMethod : ∀ name r, Ok r → cb'.bindMethod name r = cb.bindMethod name r
  execute : ∀ key r, Ok r → cb'.execute key r = cb.execute key r
  allocate : ∀ key r, Ok r → cb'.allocate key r = cb.allocate key r

omit p in
theorem Agree.mono {Ok' : Running ε → Prop} (h : Agree Ok cb' cb) (hOk : ∀ r, Ok' r → Ok r) :
    Agree Ok' cb' cb where
  write text r hr := h.write text r (hOk r hr)
  report diagnostic r hr := h.report diagnostic r (hOk r hr)
  resolve importer name r hr := h.resolve importer name r (hOk r hr)
  load name r hr := h.load name r (hOk r hr)
  bindClass module className r hr := h.bindClass module className r (hOk r hr)
  bindMethod name r hr := h.bindMethod name r (hOk r hr)
  execute key r hr := h.execute key r (hOk r hr)
  allocate key r hr := h.allocate key r (hOk r hr)

variable (h : Agree Ok cb' cb)
include h

/-- Callbacks that are the same are the same as without alarms. -/
theorem Agree.warned : Warned (fun _ => False) Ok cb' cb := by
  have l := pairedRuns_lasting p
  have hcall : ∀ {function' function : Call ε Unit}, (∀ r, Ok r → function' r = function r) →
      ∀ frame r, Ok r → callForeign function' frame r = callForeign function frame r := by
    intro function' function hsame frame r hok
    have hentered : Ok (r.entered frame) :=
      (p.work hok (r.machine.inner_enterFrame frame)).2
    have hrun := hsame (r.entered frame) hentered
    rcases hend : function (r.entered frame) with ⟨_ | e | w, t⟩
    · rw [callForeign_of_value hend, callForeign_of_value (hrun.trans hend)]
    · exact e.elim
    · rw [callForeign_of_halt hend, callForeign_of_halt (hrun.trans hend)]
  exact
    { write := h.write
      report := h.report
      resolve := h.resolve
      load := h.load
      bindClass := h.bindClass
      bindMethod := h.bindMethod
      execute := fun key frame r hok =>
        heard_of_eq (l.execute key frame r hok) (hcall (h.execute key) frame r hok)
      allocate := fun key frame r hok =>
        heard_of_eq (l.allocate key frame r hok) (hcall (h.allocate key) frame r hok) }

/-- **Only where `Ok` holds does a run of a program call its host**: elsewhere, the callbacks may be
any. -/
theorem interpret_of_agree (hok : Ok r) (depth : Nat) (module source : String) :
    interpret cb' depth module source r = interpret cb depth module source r :=
  (heard_interpret p (h.warned p) hok depth module source).eq.symm

/-- **Only where `Ok` holds does a call of a method call the host.** -/
theorem callHandle_of_agree (hok : Ok r) (address : Nat) :
    callHandle cb' address r = callHandle cb address r :=
  (heard_callHandle p (h.warned p) hok address).eq.symm

end

end ScriptHost.Machine
