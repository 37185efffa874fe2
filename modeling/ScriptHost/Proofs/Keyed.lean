import ScriptHost.Proofs.Evaluation
import ScriptHost.Proofs.Pairing
import ScriptHost.Proofs.Signatures

/-!
# Runs call known keys only

A machine calls a host function by a key, which a class on its heap keeps since the class was
declared.  If the host answers a declaration with known keys only, and known keys stay known, then a
run never calls any other key: a host that differs in what it does at unknown keys is the same for the
run (`Keyed`, `follows_interpret`, `follows_callHandle`).  The keys of a declared class are those that
the host answered with (`keys_of_declareClass`).
-/

namespace ScriptHost.Machine

open Script
open Run (Within within_pure within_fault within_halt within_gets within_modify within_bind
  within_widen within_attempt within_andFinally)

variable {ε φ ψ α β : Type}

/-! ## What a call of a method means -/

/-- The key of a method of a class. -/
def Class.method? (c : Class) (isStatic : Bool) (signature : String) : Option Key :=
  if isStatic then c.statics.find? signature else c.methods.find? signature

/-- Some method of a class is bound to a key. -/
def Class.HasMethod (c : Class) (key : Key) : Prop :=
  ∃ isStatic signature, c.method? isStatic signature = some key

/-- A class without methods has no keys of methods. -/
theorem Class.method?_eq_none {c : Class} (hmethods : c.methods = .empty)
    (hstatics : c.statics = .empty) (isStatic : Bool) (signature : String) :
    c.method? isStatic signature = none := by
  rw [Class.method?, hmethods, hstatics, Table.find?_empty, ite_self]

/-- A foreign method is one of a class on the heap. -/
theorem Heap.hasMethod_of_target {h : Heap} {receiver : Value} {signature : String} {key : Key}
    (ht : h.target receiver signature = .foreign key) :
    ∃ id c, h.class? id = some c ∧ c.HasMethod key := by
  have hinstance : ∀ owner, instanceTarget h owner signature = .foreign key →
      ∃ id c, h.class? id = some c ∧ c.HasMethod key := by
    intro owner hi
    unfold instanceTarget at hi
    split at hi
    · next key' hkey =>
      cases hi
      obtain ⟨c, hc, hmethod⟩ := Option.bind_eq_some_iff.1 hkey
      exact ⟨owner, c, hc, false, signature, hmethod⟩
    · exact absurd hi (by simp)
  unfold Heap.target at ht
  split at ht
  · exact absurd ht (by simp)
  · next id _ =>
    split at ht
    · next c hget =>
      refine ⟨id, c, Heap.class?_eq_some.2 hget, true, signature, ?_⟩
      unfold classTarget at ht
      split at ht
      · repeat' split at ht
        all_goals exact absurd ht (by simp)
      · split at ht
        · exact absurd ht (by simp)
        · split at ht
          · split at ht <;> exact absurd ht (by simp)
          · split at ht
            · next hkey =>
              cases ht
              exact hkey
            · exact absurd ht (by simp)
    · exact hinstance _ ht
    · exact hinstance _ ht
    · exact absurd ht (by simp)

/-- The allocator of a construction is that of the class. -/
theorem Heap.allocate_of_target {h : Heap} {receiver : Value} {signature : String}
    {owner : ObjectId} {allocate? : Option Key}
    (ht : h.target receiver signature = .constructForeign owner allocate?) :
    ∃ c, h.class? owner = some c ∧ c.allocate? = allocate? := by
  have hinstance : ∀ id, instanceTarget h id signature ≠ .constructForeign owner allocate? := by
    intro id
    unfold instanceTarget
    split <;> simp
  unfold Heap.target at ht
  split at ht
  · exact absurd ht (by simp)
  · next id _ =>
    split at ht
    · next c hget =>
      unfold classTarget at ht
      split at ht
      · repeat' split at ht
        all_goals exact absurd ht (by simp)
      · split at ht
        · exact absurd ht (by simp)
        · split at ht
          · split at ht
            · cases ht
              exact ⟨c, Heap.class?_eq_some.2 hget, rfl⟩
            · exact absurd ht (by simp)
          · split at ht <;> exact absurd ht (by simp)
    · exact absurd ht (hinstance _)
    · exact absurd ht (hinstance _)
    · exact absurd ht (by simp)

section

variable {cb cb' : Callbacks ε} {signature : String} {frame : List Value} {r : Running ε} {key : Key}

/-- An invocation of a foreign method is a call of its key. -/
theorem invoke_of_foreign (ht : r.machine.heap.target (frame.headD .null) signature = .foreign key) :
    invoke cb signature frame r = callForeign (cb.execute key) frame r := by
  unfold invoke
  dsimp only
  rw [machine_bind, ht]

/-- A construction depends on the call of the key of its class. -/
theorem invoke_of_constructForeign {owner : ObjectId}
    (ht : r.machine.heap.target (frame.headD .null) signature = .constructForeign owner (some key))
    (h : callForeign (cb'.allocate key) frame r = callForeign (cb.allocate key) frame r) :
    invoke cb' signature frame r = invoke cb signature frame r := by
  unfold invoke
  dsimp only
  rw [machine_bind, machine_bind, ht]
  change Run.bind _ _ r = Run.bind _ _ r
  rw [Run.bind, Run.bind, h]

end

/-! ## Runs that do the same -/

/-- From `r`, the run `x` does what `y` does, which stays within relations. -/
structure Follows (R S : Running ε → Running ε → Prop) (x y : Run (Running ε) φ α)
    (r : Running ε) : Prop where
  same : x r = y r
  within : Within R S y r

section

variable {R S : Running ε → Running ε → Prop} {x y : Run (Running ε) φ α}
  {f g : α → Run (Running ε) φ β} {r : Running ε}

theorem Follows.self (h : Within R S x r) : Follows R S x x r := ⟨rfl, h⟩

theorem Follows.of_value (h : Follows R S x y r) {a : α} {t : Running ε}
    (hy : y r = (.value a, t)) : R r t := by
  have hwithin := h.within.2
  rw [hy] at hwithin
  exact hwithin rfl

theorem follows_bind (span : Span R S) (hx : Follows R S x y r)
    (hf : ∀ a t, y r = (.value a, t) → R r t → Follows R S (f a) (g a) t) :
    Follows R S (x >>= f) (y >>= g) r := by
  refine ⟨?_, within_bind span hx.within fun a t hy => (hf a t hy (hx.of_value hy)).within⟩
  rcases hy : y r with ⟨a | e | w, t⟩
  · rw [Run.bind_of_value hy, Run.bind_of_value (hx.same.trans hy)]
    exact (hf a t hy (hx.of_value hy)).same
  · rw [Run.bind_of_fault hy, Run.bind_of_fault (hx.same.trans hy)]
  · rw [Run.bind_of_halt hy, Run.bind_of_halt (hx.same.trans hy)]

theorem follows_widen {x y : Call ε α} (h : Follows R S x y r) :
    Follows R S (x.widen : Run (Running ε) φ α) y.widen r :=
  ⟨by rw [Run.widen, Run.widen, h.same], within_widen h.within⟩

theorem follows_attempt (h : Follows R S x y r) :
    Follows R S (x.attempt : Run (Running ε) ψ (Except φ α)) y.attempt r :=
  ⟨by rw [Run.attempt, Run.attempt, h.same], within_attempt h.within⟩

end

/-! ## Keys that are known -/

/-- The keys that a class keeps are known. -/
structure Class.Known (methods classes : Key → Prop) (c : Class) : Prop where
  method : ∀ key, c.HasMethod key → methods key
  allocator : ∀ key, c.allocate? = some key → classes key
  finalizer : ∀ key, c.finalize? = some key → classes key

/-- Where `Ok` holds, the host `cb'` does what `cb` does, apart from keys that are not known, and `cb`
answers declarations with known keys.  Known keys stay known, and the own work of a machine keeps
`R` as long as no class with other keys is declared. -/
structure Keyed (Ok : Running ε → Prop) (R S : Running ε → Running ε → Prop)
    (methods classes : Running ε → Key → Prop) (cb' cb : Callbacks ε) : Prop where
  span : Span R S
  keeps : ∀ {r t}, Ok r → R r t → Ok t
  keepsMethod : ∀ {r t key}, Ok r → R r t → methods r key → methods t key
  keepsClass : ∀ {r t key}, Ok r → R r t → classes r key → classes t key
  own : ∀ {r m}, Frame r.machine m → State.OldClasses r.machine m → R r { r with machine := m }
  declared : ∀ {r c}, Ok r → c.Known (methods r) (classes r) → ∀ module name,
    R r { r with machine := r.machine.declare module name c }
  known : ∀ {r id c}, Ok r → r.machine.heap.class? id = some c → c.Known (methods r) (classes r)
  write : ∀ text r, Ok r → Follows R S (cb'.write text) (cb.write text) r
  report : ∀ diagnostic r, Ok r → Follows R S (cb'.report diagnostic) (cb.report diagnostic) r
  resolve : ∀ importer name r, Ok r →
    Follows R S (resolveModule cb' importer name) (resolveModule cb importer name) r
  load : ∀ name r, Ok r → Follows R S (cb'.load name) (cb.load name) r
  bindClass : ∀ module className r, Ok r →
    Follows R S (cb'.bindClass module className) (cb.bindClass module className) r ∧
    ∀ keys t, cb.bindClass module className r = (.value keys, t) → ∀ key,
      keys.allocate? = some key ∨ keys.finalize? = some key → classes t key
  bindMethod : ∀ name r, Ok r → Follows R S (cb'.bindMethod name) (cb.bindMethod name) r ∧
    ∀ key t, cb.bindMethod name r = (.value (some key), t) → methods t key
  execute : ∀ key r, Ok r → methods r key → Follows R S (cb'.execute key) (cb.execute key) r
  allocate : ∀ key r, Ok r → classes r key → Follows R S (cb'.allocate key) (cb.allocate key) r

/-- Callbacks that are the same where `Ok` holds, apart from keys that are not known. -/
structure AgreeOnKnown (Ok : Running ε → Prop) (methods classes : Running ε → Key → Prop)
    (cb' cb : Callbacks ε) : Prop where
  write : ∀ text r, Ok r → cb'.write text r = cb.write text r
  report : ∀ diagnostic r, Ok r → cb'.report diagnostic r = cb.report diagnostic r
  resolve : ∀ importer name r, Ok r →
    resolveModule cb' importer name r = resolveModule cb importer name r
  load : ∀ name r, Ok r → cb'.load name r = cb.load name r
  bindClass : ∀ module className r, Ok r →
    cb'.bindClass module className r = cb.bindClass module className r
  bindMethod : ∀ name r, Ok r → cb'.bindMethod name r = cb.bindMethod name r
  execute : ∀ key r, Ok r → methods r key → cb'.execute key r = cb.execute key r
  allocate : ∀ key r, Ok r → classes r key → cb'.allocate key r = cb.allocate key r

section

variable {Ok : Running ε → Prop} {R S : Running ε → Running ε → Prop}
  {methods classes : Running ε → Key → Prop} {cb' cb : Callbacks ε}
  (p : Keyed Ok R S methods classes cb' cb) {r : Running ε}
include p

omit p in
/-- A host may be replaced by one that differs at keys that are not known. -/
theorem Keyed.of_agree (p : Keyed Ok R S methods classes cb cb)
    (h : AgreeOnKnown Ok methods classes cb' cb) : Keyed Ok R S methods classes cb' cb :=
  { p with
    write := fun text r hok => ⟨h.write text r hok, (p.write text r hok).within⟩
    report := fun diagnostic r hok =>
      ⟨h.report diagnostic r hok, (p.report diagnostic r hok).within⟩
    resolve := fun importer name r hok =>
      ⟨h.resolve importer name r hok, (p.resolve importer name r hok).within⟩
    load := fun name r hok => ⟨h.load name r hok, (p.load name r hok).within⟩
    bindClass := fun module className r hok =>
      (p.bindClass module className r hok).imp_left fun hf =>
        ⟨h.bindClass module className r hok, hf.within⟩
    bindMethod := fun name r hok => (p.bindMethod name r hok).imp_left fun hf =>
      ⟨h.bindMethod name r hok, hf.within⟩
    execute := fun key r hok hkey =>
      ⟨h.execute key r hok hkey, (p.execute key r hok hkey).within⟩
    allocate := fun key r hok hkey =>
      ⟨h.allocate key r hok hkey, (p.allocate key r hok hkey).within⟩ }

theorem follows_pure (a : α) (r : Running ε) :
    Follows R S (pure a : Run (Running ε) φ α) (pure a) r :=
  .self (within_pure p.span a r)

theorem follows_fault (e : φ) (r : Running ε) :
    Follows R S (Run.fault e : Run (Running ε) φ α) (Run.fault e) r :=
  .self (within_fault p.span e r)

theorem follows_machine (r : Running ε) :
    Follows R S (machine : Run (Running ε) φ State) machine r :=
  .self (within_gets p.span _ r)

theorem follows_update {f : State → State} (hf : Frame r.machine (f r.machine))
    (hold : State.OldClasses r.machine (f r.machine)) :
    Follows R S (update f : Run (Running ε) φ Unit) (update f) r :=
  .self (within_modify p.span (p.own hf hold))

omit p in
/-- What goes on with the machine as it is. -/
theorem follows_machine_bind {f g : State → Run (Running ε) φ α}
    (h : Follows R S (f r.machine) (g r.machine) r) :
    Follows R S (machine >>= f) (machine >>= g) r :=
  ⟨h.same, h.within⟩

theorem follows_withPins {x y : Eval ε α} (h : Follows R S x y r) :
    Follows R S (withPins x) (withPins y) r := by
  let last : Running ε → Running ε := fun t =>
    { t with machine := t.machine.unpinTo r.machine.pins.length }
  have hx : withPins x r = x.andFinally last r := rfl
  have hy : withPins y r = y.andFinally last r := rfl
  refine ⟨by rw [hx, hy, Run.andFinally, Run.andFinally, h.same], ?_⟩
  rw [Within, hy]
  exact within_andFinally p.span h.within fun t => p.own (State.frame_pin _ _) (.of_heap rfl)

/-- A host function does the same in a frame of its own. -/
theorem follows_callForeign {function' function : Call ε Unit} {frame : List Value} (hok : Ok r)
    (h : Ok (r.entered frame) → R r (r.entered frame) →
      Follows R S function' function (r.entered frame)) :
    Follows R S (callForeign function' frame) (callForeign function frame) r := by
  have hentered : R r (r.entered frame) := p.own (State.frame_enterFrame _ frame) (.of_heap rfl)
  unfold callForeign
  refine follows_bind p.span (follows_update p (State.frame_enterFrame _ frame) (.of_heap rfl)) ?_
  rintro _ _ ⟨⟩ _
  refine follows_bind p.span (follows_widen (h (p.keeps hok hentered) hentered)) fun _ t _ _ => ?_
  refine follows_machine_bind ?_
  refine follows_bind p.span (follows_update p (State.frame_leaveFrame _) (.of_heap rfl)) ?_
  intro _ t _ _
  split
  · exact follows_pure p _ _
  · exact follows_pure p _ _
  · exact follows_fault p _ _

/-! ## Invocations and declarations -/

/-- **An invocation calls a key that a class on the heap keeps.** -/
theorem follows_invoke (signature : String) (frame : List Value) (hok : Ok r) :
    Follows R S (invoke cb' signature frame) (invoke cb signature frame) r := by
  unfold invoke
  refine follows_machine_bind ?_
  split
  · refine follows_bind p.span (follows_widen (p.write _ r hok)) fun _ t _ ht => ?_
    refine follows_bind p.span (follows_widen (p.write _ t (p.keeps hok ht))) fun _ t _ _ => ?_
    exact follows_pure p _ t
  · refine follows_bind p.span (follows_widen (p.write _ r hok)) fun _ t _ _ => ?_
    exact follows_pure p _ t
  · exact follows_fault p _ r
  · refine .self (Run.within_seq p.span (Run.within_modifyGet p.span (p.own ?_ ?_)) fun _ t => ?_)
    · exact State.frame_alloc _ rfl
    · exact State.oldClasses_alloc _ fun _ => by simp
    · exact within_pure p.span _ t
  · next owner allocate? htarget =>
    split
    · exact follows_fault p _ r
    · next key =>
      obtain ⟨c, hc, hkey⟩ := Heap.allocate_of_target htarget
      have hknown := (p.known hok hc).allocator key hkey
      refine follows_bind p.span (follows_callForeign p hok fun hok' hr =>
        p.allocate key _ hok' (p.keepsClass hok hr hknown)) fun created t _ _ => ?_
      refine follows_machine_bind ?_
      split
      · exact follows_pure p _ t
      · exact follows_fault p _ t
  · next key htarget =>
    obtain ⟨id, c, hc, hmethod⟩ := Heap.hasMethod_of_target htarget
    have hknown := (p.known hok hc).method key hmethod
    exact follows_callForeign p hok fun hok' hr =>
      p.execute key _ hok' (p.keepsMethod hok hr hknown)
  · exact follows_fault p _ r

omit p in
/-- What is known stays known. -/
theorem Class.Known.mono {methods methods' classes classes' : Key → Prop} {c : Class}
    (h : c.Known methods classes) (hm : ∀ key, methods key → methods' key)
    (hc : ∀ key, classes key → classes' key) : c.Known methods' classes' where
  method key hk := hm key (h.method key hk)
  allocator key hk := hc key (h.allocator key hk)
  finalizer key hk := hc key (h.finalizer key hk)

omit p in
/-- A class with the key of one more method. -/
def Class.bind (c : Class) (m : MethodDecl) (key : Key) : Class :=
  if m.isStatic then { c with statics := c.statics.insert m.signature key }
  else { c with methods := c.methods.insert m.signature key }

omit p in
theorem Class.method?_bind (c : Class) (m : MethodDecl) (key : Key) (isStatic : Bool)
    (signature : String) : (c.bind m key).method? isStatic signature =
      if isStatic = m.isStatic ∧ signature = m.signature then some key
      else c.method? isStatic signature := by
  unfold Class.bind Class.method?
  by_cases hs : signature = m.signature
  · subst hs
    cases m.isStatic <;> cases isStatic <;> simp [Table.find?_insert_self]
  · cases m.isStatic <;> cases isStatic <;> simp [hs, Table.find?_insert_ne]

omit p in
theorem Class.known_bind {methods classes : Key → Prop} {c : Class} {key : Key}
    (h : c.Known methods classes) (hkey : methods key) (m : MethodDecl) :
    (c.bind m key).Known methods classes := by
  refine ⟨fun key' hmethod => ?_, fun key' halloc => h.allocator key' ?_,
    fun key' hfinal => h.finalizer key' ?_⟩
  · obtain ⟨isStatic, signature, hfind⟩ := hmethod
    rw [Class.method?_bind] at hfind
    split at hfind
    · cases hfind
      exact hkey
    · exact h.method key' ⟨isStatic, signature, hfind⟩
  · unfold Class.bind at halloc
    split at halloc <;> exact halloc
  · unfold Class.bind at hfinal
    split at hfinal <;> exact hfinal

theorem follows_bindMethods (module className : String) (methodDecls : List MethodDecl) :
    ∀ (c : Class) (r : Running ε), Ok r → c.Known (methods r) (classes r) →
      Follows R S (do
        let c ← bindMethods cb' module className methodDecls c
        update fun s => s.declare module className c : Eval ε Unit) (do
        let c ← bindMethods cb module className methodDecls c
        update fun s => s.declare module className c) r := by
  induction methodDecls with
  | nil =>
    intro c r hok hknown
    exact .self (within_modify p.span (p.declared hok hknown module className))
  | cons m rest ih =>
    intro c r hok hknown
    rw [bindMethods, bindMethods]
    simp only [bind_assoc]
    obtain ⟨hfollows, hanswer⟩ := p.bindMethod
      ⟨Text.strip module, Text.strip className, m.isStatic, Text.strip m.signature⟩ r hok
    refine follows_bind p.span (follows_widen hfollows) fun bound t hbound ht => ?_
    split
    · refine follows_bind p.span (follows_fault p _ t) fun _ _ hfault => ?_
      exact absurd (congrArg Prod.fst hfault) (by simp [raise, Run.fault])
    · next key =>
      refine ih (c.bind m key) t (p.keeps hok ht) (Class.known_bind ?_ ?_ m)
      · exact hknown.mono (fun _ => p.keepsMethod hok ht) fun _ => p.keepsClass hok ht
      · exact hanswer key t (Run.value_of_widen hbound)

/-- **A declaration makes a class with known keys.** -/
theorem follows_declareClass (module : String) (decl : ClassDecl) (hok : Ok r) :
    Follows R S (declareClass cb' module decl) (declareClass cb module decl) r := by
  have hnew : ∀ {c : Class} {t : Running ε}, c.methods = .empty → c.statics = .empty →
      (∀ key, c.allocate? = some key ∨ c.finalize? = some key → classes t key) →
        c.Known (methods t) (classes t) := by
    intro c t hmethods hstatics hkeys
    refine ⟨fun key hmethod => ?_, fun key h => hkeys key (Or.inl h),
      fun key h => hkeys key (Or.inr h)⟩
    obtain ⟨isStatic, signature, hfind⟩ := hmethod
    rw [Class.method?_eq_none hmethods hstatics] at hfind
    exact absurd hfind (by simp)
  unfold declareClass
  dsimp only
  split
  · obtain ⟨hfollows, hanswer⟩ := p.bindClass (Text.strip module) (Text.strip decl.name) r hok
    refine follows_bind p.span (follows_widen hfollows) fun keys t hkeys ht => ?_
    refine follows_bindMethods p module decl.name decl.methods _ t (p.keeps hok ht) ?_
    exact hnew rfl rfl (hanswer keys t (Run.value_of_widen hkeys))
  · refine follows_bind p.span (follows_pure p _ r) ?_
    rintro _ _ ⟨⟩ _
    refine follows_bindMethods p module decl.name decl.methods _ r hok (hnew rfl rfl ?_)
    rintro key (h | h) <;> exact absurd h (by simp [ClassKeys.unbound])

/-! ### Where the keys of a class come from -/

omit p in
/-- What the host is asked about a method of a class that is declared. -/
def nameOf (module className : String) (m : MethodDecl) : MethodName :=
  ⟨Text.strip module, Text.strip className, m.isStatic, Text.strip m.signature⟩

omit p in
/-- On the way from `r` to `t` the host answers with a key for a method. -/
def Answered (Ok : Running ε → Prop) (R : Running ε → Running ε → Prop) (cb : Callbacks ε)
    (name : MethodName) (key : Key) (r t : Running ε) : Prop :=
  ∃ u v, Ok u ∧ R r u ∧ cb.bindMethod name u = (.value (some key), v) ∧ R v t

/-- Answers are known. -/
theorem Answered.known {name : MethodName} {key : Key} {t : Running ε}
    (h : Answered Ok R cb name key r t) : methods t key := by
  obtain ⟨u, v, hu, -, hcall, hvt⟩ := h
  obtain ⟨hfollows, hanswer⟩ := p.bindMethod name u hu
  exact p.keepsMethod (p.keeps hu (hfollows.of_value hcall)) hvt (hanswer key v hcall)

theorem Answered.trans {name : MethodName} {key : Key} {s t u : Running ε} (hrs : R r s)
    (h : Answered Ok R cb name key s t) (htu : R t u) : Answered Ok R cb name key r u := by
  obtain ⟨v, v', hv, hsv, hcall, hvt⟩ := h
  exact ⟨v, v', hv, p.span.trans hrs hsv, hcall, p.span.trans hvt htu⟩

/-- The keys of methods are those that the host has answered with. -/
theorem keys_of_bindMethods (module className : String) (decls : List MethodDecl) :
    ∀ (c₀ c : Class) (r t : Running ε), Ok r →
      bindMethods cb module className decls c₀ r = (.value c, t) →
      R r t ∧ c.allocate? = c₀.allocate? ∧ c.finalize? = c₀.finalize? ∧
      ∀ isStatic signature key, c.method? isStatic signature = some key →
        c₀.method? isStatic signature = some key ∨
        ∃ m ∈ decls, m.isStatic = isStatic ∧ m.signature = signature ∧
          Answered Ok R cb (nameOf module className m) key r t := by
  induction decls with
  | nil =>
    intro c₀ c r t _ hrun
    cases hrun
    exact ⟨p.span.refl r, rfl, rfl, fun _ _ _ h => Or.inl h⟩
  | cons m rest ih =>
    intro c₀ c r t hok hrun
    rw [bindMethods] at hrun
    obtain ⟨bound, u, hbound, hrun⟩ := Run.value_of_bind hrun
    have hcall := Run.value_of_widen hbound
    have hru : R r u := (p.bindMethod (nameOf module className m) r hok).1.of_value hcall
    cases bound with
    | none => exact absurd (congrArg Prod.fst hrun) (by simp [raise, Run.fault])
    | some key =>
      obtain ⟨hut, halloc, hfinal, hkeys⟩ := ih (c₀.bind m key) c u t (p.keeps hok hru) hrun
      have hsame : (c₀.bind m key).allocate? = c₀.allocate? ∧
          (c₀.bind m key).finalize? = c₀.finalize? := by
        unfold Class.bind
        split <;> exact ⟨rfl, rfl⟩
      refine ⟨p.span.trans hru hut, halloc.trans hsame.1, hfinal.trans hsame.2,
        fun isStatic signature key' hkey' => ?_⟩
      rcases hkeys isStatic signature key' hkey' with hold | ⟨m', hm', hs, hsig, hanswer⟩
      · rw [Class.method?_bind] at hold
        split at hold
        · next hself =>
          cases hold
          refine Or.inr ⟨m, List.mem_cons_self, hself.1.symm, hself.2.symm, ?_⟩
          exact ⟨r, u, hok, p.span.refl r, hcall, hut⟩
        · exact Or.inl hold
      · refine Or.inr ⟨m', List.mem_cons_of_mem m hm', hs, hsig, ?_⟩
        exact hanswer.trans p hru (p.span.refl t)

/-- A class that had no methods is made with methods that the host has answered for. -/
theorem keys_of_bindMethods_declare {module : String} {decl : ClassDecl} {c₀ : Class}
    {t : Running ε} (hok : Ok r) (hmethods : c₀.methods = .empty) (hstatics : c₀.statics = .empty)
    (hclasses : ∀ key, c₀.allocate? = some key ∨ c₀.finalize? = some key → classes r key)
    (hrun : (do
      let c ← bindMethods cb module decl.name decl.methods c₀
      update fun s => s.declare module decl.name c : Eval ε Unit) r = (.value (), t)) :
    R r t ∧ ∃ id c, t.machine.global? module decl.name = some (.object id) ∧
      t.machine.heap.class? id = some c ∧ c.allocate? = c₀.allocate? ∧
      c.finalize? = c₀.finalize? ∧
      ∀ isStatic signature key, c.method? isStatic signature = some key →
        ∃ m ∈ decl.methods, m.isStatic = isStatic ∧ m.signature = signature ∧
          Answered Ok R cb (nameOf module decl.name m) key r t := by
  obtain ⟨c, u, hbind, hlast⟩ := Run.value_of_bind hrun
  obtain ⟨hru, halloc, hfinal, hkeys⟩ :=
    keys_of_bindMethods p module decl.name decl.methods c₀ c r u hok hbind
  have hasked : ∀ isStatic signature key, c.method? isStatic signature = some key →
      ∃ m ∈ decl.methods, m.isStatic = isStatic ∧ m.signature = signature ∧
        Answered Ok R cb (nameOf module decl.name m) key r u := by
    intro isStatic signature key hkey
    refine (hkeys isStatic signature key hkey).resolve_left fun hold => ?_
    rw [Class.method?_eq_none hmethods hstatics] at hold
    exact absurd hold (by simp)
  have hknown : c.Known (methods u) (classes u) := by
    refine ⟨fun key hmethod => ?_, fun key h => ?_, fun key h => ?_⟩
    · obtain ⟨isStatic, signature, hkey⟩ := hmethod
      obtain ⟨_, -, -, -, hanswered⟩ := hasked isStatic signature key hkey
      exact hanswered.known p
    · exact p.keepsClass hok hru (hclasses key (Or.inl (halloc ▸ h)))
    · exact p.keepsClass hok hru (hclasses key (Or.inr (hfinal ▸ h)))
  have hut := p.declared (p.keeps hok hru) hknown module decl.name
  cases hlast
  refine ⟨p.span.trans hru hut, (u.machine.alloc (.classDef c)).1, c, ?_, ?_, halloc, hfinal, ?_⟩
  · exact State.global?_define_self _ module decl.name _
  · exact Heap.class?_eq_some.2 (Heap.get?_alloc_self u.machine.heap (.classDef c))
  · intro isStatic signature key hkey
    obtain ⟨m, hm, hs, hsig, hanswered⟩ := hasked isStatic signature key hkey
    exact ⟨m, hm, hs, hsig, hanswered.trans p (p.span.refl r) hut⟩

/-- **The keys of a declared class are those that the host has answered with** while it was declared,
each for the method that has it. -/
theorem keys_of_declareClass {module : String} {decl : ClassDecl} {t : Running ε} (hok : Ok r)
    (hrun : declareClass cb module decl r = (.value (), t)) :
    ∃ id c, t.machine.global? module decl.name = some (.object id) ∧
      t.machine.heap.class? id = some c ∧
      (∀ isStatic signature key, c.method? isStatic signature = some key →
        ∃ m ∈ decl.methods, m.isStatic = isStatic ∧ m.signature = signature ∧
          Answered Ok R cb (nameOf module decl.name m) key r t) ∧
      (∀ key, c.allocate? = some key ∨ c.finalize? = some key → ∃ keys u,
        cb.bindClass (Text.strip module) (Text.strip decl.name) r = (.value keys, u) ∧ R u t ∧
          (keys.allocate? = some key ∨ keys.finalize? = some key)) := by
  unfold declareClass at hrun
  dsimp only at hrun
  split at hrun
  · obtain ⟨keys, u, hkeys, hrun⟩ := Run.value_of_bind hrun
    have hcall := Run.value_of_widen hkeys
    obtain ⟨hfollows, hanswer⟩ := p.bindClass (Text.strip module) (Text.strip decl.name) r hok
    have hru : R r u := hfollows.of_value hcall
    obtain ⟨hut, id, c, hglobal, hclass, halloc, hfinal, hasked⟩ :=
      keys_of_bindMethods_declare p (p.keeps hok hru) rfl rfl (hanswer keys u hcall) hrun
    refine ⟨id, c, hglobal, hclass, fun isStatic signature key hkey => ?_, fun key hkey => ?_⟩
    · obtain ⟨m, hm, hs, hsig, hanswered⟩ := hasked isStatic signature key hkey
      exact ⟨m, hm, hs, hsig, hanswered.trans p hru (p.span.refl t)⟩
    · rw [halloc, hfinal] at hkey
      exact ⟨keys, u, hcall, hut, hkey⟩
  · obtain ⟨keys, u, hkeys, hrun⟩ := Run.value_of_bind hrun
    cases hkeys
    obtain ⟨hut, id, c, hglobal, hclass, halloc, hfinal, hasked⟩ :=
      keys_of_bindMethods_declare p hok rfl rfl
        (fun key h => absurd h (by simp [ClassKeys.unbound])) hrun
    refine ⟨id, c, hglobal, hclass, hasked, fun key hkey => absurd hkey ?_⟩
    rw [halloc, hfinal]
    simp [ClassKeys.unbound]

/-! ## Runs -/

theorem follows_recover {x y : Eval ε Unit} {refused refused' : CompileError → Eval ε Unit}
    (hok : Ok r) (h : Follows R S x y r)
    (hrefused : ∀ e t, Ok t → Follows R S (refused e) (refused' e) t) :
    Follows R S (recover x refused) (recover y refused') r := by
  refine follows_bind p.span (follows_attempt h) fun result t _ ht => ?_
  rcases result with (e | e) | _
  · exact hrefused e t (p.keeps hok ht)
  · exact follows_fault p _ t
  · exact follows_pure p _ t

/-- **A run of a program calls known keys only.** -/
theorem assembledRuns_follows :
    AssembledRuns (fun _ x y => ∀ r, Ok r → Follows R S x y r)
      (fun _ x y => ∀ r, Ok r → Follows R S x y r) cb' cb where
  pure a r _ := follows_pure p a r
  raise _ _ r _ := follows_fault p _ r
  bind hx hf r hok :=
    follows_bind p.span (hx r hok) fun a t _ ht => hf a t (p.keeps hok ht)
  machine r _ := follows_machine p r
  own hf r _ := follows_update p (hf r.machine).toFrame (hf r.machine).classes
  reading module name _ r _ := by
    refine .self (Run.within_seq p.span (within_gets p.span _ r) fun s t => ?_)
    split
    · exact within_pure p.span _ t
    · exact within_fault p.span _ t
  pinning h := h
  bindPinning hx hf r hok :=
    follows_bind p.span (hx r hok) fun a t _ ht => hf a t (p.keeps hok ht)
  pin values r _ := follows_update p (State.frame_pin r.machine _) (.of_heap rfl)
  withPins h r hok := follows_withPins p (h r hok)
  resolve importer name := p.resolve importer name
  load name r hok := follows_widen (p.load name r hok)
  invoke signature frame _ hok := follows_invoke p signature frame hok
  declare module decl _ hok := follows_declareClass p module decl hok
  refuse e r _ := follows_fault p _ r
  exhausted r _ := .self (within_halt p.span _ r)
  report diagnostic r hok := follows_widen (p.report diagnostic r hok)
  recover hx hrefused r hok := follows_recover p hok (hx r hok) fun e t hokt => hrefused e t hokt

theorem follows_reportRuntime (message : String) (hok : Ok r) :
    Follows R S (reportRuntime cb' message) (reportRuntime cb message) r := by
  unfold reportRuntime
  refine follows_bind p.span (p.report _ r hok) fun _ t _ ht => ?_
  exact follows_machine_bind (p.report _ t (p.keeps hok ht))

/-- **Programs of the host call known keys only.** -/
theorem follows_interpret (depth : Nat) (module source : String) (hok : Ok r) :
    Follows R S (interpret cb' depth module source) (interpret cb depth module source) r := by
  have hrun := paired_runModule (assembledRuns_follows p) depth module source r hok
  unfold interpret
  refine follows_bind p.span (follows_attempt hrun) fun result t _ ht => ?_
  split
  · exact follows_pure p _ t
  · exact follows_bind p.span (p.report _ t (p.keeps hok ht)) fun _ t _ _ => follows_pure p _ t
  · exact follows_bind p.span (follows_reportRuntime p _ (p.keeps hok ht)) fun _ t _ _ =>
      follows_pure p _ t

theorem follows_callMethod (signature : String) (arity : Nat) (hok : Ok r) :
    Follows R S (callMethod cb' signature arity) (callMethod cb signature arity) r := by
  unfold callMethod
  refine follows_machine_bind ?_
  split
  · exact follows_bind p.span (follows_reportRuntime p _ hok) fun _ t _ _ => follows_pure p _ t
  · refine follows_bind p.span (follows_update p (State.frame_locate _ _) (.of_heap rfl)) ?_
    intro _ t _ ht
    refine follows_bind p.span (follows_attempt (follows_invoke p _ _ (p.keeps hok ht))) ?_
    intro result u _ hu
    split
    · refine follows_bind p.span (follows_update p (State.frame_setSlot _ _ _) ?_)
        fun _ t _ _ => follows_pure p _ t
      exact (State.OldClasses.refl _).setSlot _ _
    · exact follows_bind p.span (follows_reportRuntime p _ (p.keeps (p.keeps hok ht) hu))
        fun _ t _ _ => follows_pure p _ t

/-- **Calls of handles call known keys only.** -/
theorem follows_callHandle (address : Nat) (hok : Ok r) :
    Follows R S (callHandle cb' address) (callHandle cb address) r := by
  unfold callHandle
  refine follows_machine_bind ?_
  split
  · exact follows_callMethod p _ _ hok
  · exact follows_pure p _ r

end

end ScriptHost.Machine
