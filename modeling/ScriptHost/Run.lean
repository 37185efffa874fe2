/-!
# Stateful computations that can fail or stop

A `Run σ φ α` reads and writes a state `σ` and ends with a value, with a fault `φ` that callers may
handle, or with a halt that ends everything around it.  The state is kept in all three cases: a
fault undoes nothing by itself.
-/

namespace ScriptHost

/-- Why everything around a computation ends. -/
inductive Halt where
  /-- A host call ended in a panic, which the host may catch at its outermost level. -/
  | panic (message : String)
  /-- The process ends with a fatal host error. -/
  | fatal (message : String)
  /-- The bound on nested runs was reached. -/
  | exhausted
  deriving DecidableEq, Repr

/-- How a computation ends. -/
inductive Outcome (φ α : Type) where
  | value (a : α)
  | fault (e : φ)
  | halt (h : Halt)
  deriving DecidableEq, Repr

/-- A computation on a state. -/
def Run (σ φ α : Type) : Type := σ → Outcome φ α × σ

namespace Run

variable {σ φ ψ α β : Type}

/-- Ends with a value. -/
def pure (a : α) : Run σ φ α := fun s => (.value a, s)

/-- Goes on with the value of a computation. -/
def bind (x : Run σ φ α) (f : α → Run σ φ β) : Run σ φ β := fun s =>
  match x s with
  | (.value a, s') => f a s'
  | (.fault e, s') => (.fault e, s')
  | (.halt h, s') => (.halt h, s')

instance : Monad (Run σ φ) where
  pure := Run.pure
  bind := Run.bind

/-- The state. -/
def get : Run σ φ σ := fun s => (.value s, s)

/-- Part of the state. -/
def gets (f : σ → α) : Run σ φ α := fun s => (.value (f s), s)

/-- Changes the state. -/
def modify (f : σ → σ) : Run σ φ Unit := fun s => (.value (), f s)

/-- Changes the state and returns a result computed with it. -/
def modifyGet (f : σ → α × σ) : Run σ φ α := fun s => (.value (f s).1, (f s).2)

/-- Ends with a fault. -/
def fault (e : φ) : Run σ φ α := fun s => (.fault e, s)

/-- Ends everything around. -/
def halt (h : Halt) : Run σ φ α := fun s => (.halt h, s)

/-- The fault of a computation as a value. -/
def attempt (x : Run σ φ α) : Run σ ψ (Except φ α) := fun s =>
  match x s with
  | (.value a, s') => (.value (.ok a), s')
  | (.fault e, s') => (.value (.error e), s')
  | (.halt h, s') => (.halt h, s')

/-- A computation without faults among computations with faults. -/
def widen (x : Run σ Empty α) : Run σ φ α := fun s =>
  match x s with
  | (.value a, s') => (.value a, s')
  | (.halt h, s') => (.halt h, s')

/-- Changes the state at the end of a computation, whether it has a value or a fault. -/
def andFinally (x : Run σ φ α) (f : σ → σ) : Run σ φ α := fun s =>
  match x s with
  | (.value a, s') => (.value a, f s')
  | (.fault e, s') => (.fault e, f s')
  | (.halt h, s') => (.halt h, s')

/-- A computation that nothing outside may stop by a panic: a panic inside it ends the process. -/
def sealed (x : Run σ φ α) : Run σ φ α := fun s =>
  match x s with
  | (.halt (.panic message), s') => (.halt (.fatal message), s')
  | r => r

/-- How a computation ends, as a value.  What ends the process is seen by nobody. -/
def observed (x : Run σ φ α) : Run σ ψ (Outcome φ α) := fun s =>
  match x s with
  | (.halt (.fatal message), s') => (.halt (.fatal message), s')
  | (.halt .exhausted, s') => (.halt .exhausted, s')
  | (outcome, s') => (.value outcome, s')

/-- A result as a computation. -/
def ofExcept (r : Except φ α) : Run σ φ α :=
  match r with
  | .ok a => pure a
  | .error e => fault e

/-! ## Laws -/

instance : LawfulMonad (Run σ φ) := LawfulMonad.mk' (Run σ φ)
  (fun x => by
    funext s
    change (match x s with
      | (.value a, s') => (.value a, s')
      | (.fault e, s') => (.fault e, s')
      | (.halt h, s') => (.halt h, s')) = x s
    rcases x s with ⟨_ | _ | _, _⟩ <;> rfl)
  (fun _ _ => rfl)
  (fun x f g => by
    funext s
    change Run.bind (Run.bind x f) g s = Run.bind x (fun a => Run.bind (f a) g) s
    unfold Run.bind
    rcases x s with ⟨_ | _ | _, _⟩ <;> rfl)

/-- No panic leaves a sealed computation. -/
theorem sealed_ne_panic (x : Run σ φ α) (s s' : σ) (message : String) :
    x.sealed s ≠ (.halt (.panic message), s') := by
  unfold sealed
  rcases x s with ⟨_ | _ | w, _⟩
  · simp
  · simp
  · cases w <;> simp

/-- A value goes on in the state that it leaves. -/
theorem bind_of_value {x : Run σ φ α} {s s' : σ} {a : α} (h : x s = (.value a, s'))
    (f : α → Run σ φ β) : (x >>= f) s = f a s' := by
  change Run.bind x f s = _
  simp [Run.bind, h]

/-- Reading part of the state goes on with what was read. -/
theorem gets_bind (f : σ → α) (g : α → Run σ φ β) (s : σ) : (gets f >>= g) s = g (f s) s := rfl

/-- A fault ends what follows it. -/
theorem bind_of_fault {x : Run σ φ α} {s s' : σ} {e : φ} (h : x s = (.fault e, s'))
    (f : α → Run σ φ β) : (x >>= f) s = (.fault e, s') := by
  change Run.bind x f s = _
  simp [Run.bind, h]

/-- A halt ends what follows it. -/
theorem bind_of_halt {x : Run σ φ α} {s s' : σ} {w : Halt} (h : x s = (.halt w, s'))
    (f : α → Run σ φ β) : (x >>= f) s = (.halt w, s') := by
  change Run.bind x f s = _
  simp [Run.bind, h]

/-- Whatever ends with a value has gone on behind a value. -/
theorem value_of_bind {x : Run σ φ α} {f : α → Run σ φ β} {s t : σ} {b : β}
    (h : (x >>= f) s = (.value b, t)) : ∃ a s', x s = (.value a, s') ∧ f a s' = (.value b, t) := by
  rcases hx : x s with ⟨a | e | w, s'⟩
  · exact ⟨a, s', rfl, (bind_of_value hx f).symm.trans h⟩
  · exact absurd (congrArg Prod.fst ((bind_of_fault hx f).symm.trans h)) (by simp)
  · exact absurd (congrArg Prod.fst ((bind_of_halt hx f).symm.trans h)) (by simp)

theorem attempt_of_value {x : Run σ φ α} {s s' : σ} {a : α} (h : x s = (.value a, s')) :
    (x.attempt : Run σ ψ (Except φ α)) s = (.value (.ok a), s') := by
  rw [attempt, h]

theorem attempt_of_fault {x : Run σ φ α} {s s' : σ} {e : φ} (h : x s = (.fault e, s')) :
    (x.attempt : Run σ ψ (Except φ α)) s = (.value (.error e), s') := by
  rw [attempt, h]

/-- An attempt begins where its first part ends, if a fault of that part is given back as it is. -/
theorem attempt_bind {γ : Type} {x : Run σ φ α} {f : α → Run σ φ β}
    {g : Except φ β → Run σ φ γ}
    (hx : ∀ s e s', x s = (.fault e, s') → g (.error e) s' = (.fault e, s')) :
    ((x >>= f).attempt >>= g) = x >>= fun a => (f a).attempt >>= g := by
  funext s
  rcases hxs : x s with ⟨a | e | w, s'⟩
  · rw [bind_of_value hxs]
    change Run.bind (x >>= f).attempt g s = Run.bind (f a).attempt g s'
    rw [Run.bind, Run.bind, attempt, attempt, bind_of_value hxs]
  · rw [bind_of_fault hxs, bind_of_value (attempt_of_fault (bind_of_fault hxs f))]
    exact hx s e s' hxs
  · have hattempt : ((x >>= f).attempt : Run σ φ (Except φ β)) s = (.halt w, s') := by
      rw [attempt, bind_of_halt hxs]
    rw [bind_of_halt hxs, bind_of_halt hattempt]

/-- An attempt never ends with a fault. -/
theorem attempt_ne_fault (x : Run σ φ α) (s s' : σ) (e : ψ) :
    (x.attempt : Run σ ψ (Except φ α)) s ≠ (.fault e, s') := by
  unfold attempt
  rcases x s with ⟨_ | _ | _, _⟩ <;> simp

end Run

end ScriptHost
