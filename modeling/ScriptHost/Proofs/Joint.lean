import ScriptHost.Run

/-!
# Two computations side by side

Two computations are run from two states that are alike in some way.  `Joint R V` says that they end
alike: with the same value, fault or halt, in states that `R` holds of, and a value is one of `V`.
Nothing is said if the first one reaches the bound on nested runs, since the second one may have less to
do there.  There is one rule for each way to build a computation.
-/

namespace ScriptHost.Run

variable {σ σ' φ ψ α β : Type}

/-- Two ends that are alike. -/
inductive Level (R : σ → σ' → Prop) (V : α → Prop) : Outcome φ α × σ → Outcome φ α × σ' → Prop where
  /-- The first computation has reached the bound. -/
  | bound (t : σ) (e : Outcome φ α × σ') : Level R V (.halt .exhausted, t) e
  | same {o : Outcome φ α} {t : σ} {t' : σ'} (h : R t t') (hV : ∀ a, o = .value a → V a) :
    Level R V (o, t) (o, t')

/-- From two states, two computations end alike. -/
def Joint (R : σ → σ' → Prop) (V : α → Prop) (x : Run σ φ α) (y : Run σ' φ α) (s : σ) (s' : σ') :
    Prop :=
  Level R V (x s) (y s')

variable {R : σ → σ' → Prop} {V V' : α → Prop} {W : β → Prop} {x : Run σ φ α} {y : Run σ' φ α}
  {f : α → Run σ φ β} {g : α → Run σ' φ β} {s : σ} {s' : σ'}

/-- Where the first computation does not reach the bound, neither does the second one, and both have the
same outcome. -/
theorem Joint.same (h : Joint R V x y s s') (hx : (x s).1 ≠ .halt .exhausted) :
    (y s').1 = (x s).1 ∧ R (x s).2 (y s').2 := by
  unfold Joint at h
  generalize x s = e at *
  generalize y s' = e' at *
  cases h with
  | bound => exact absurd rfl hx
  | same h => exact ⟨rfl, h⟩

theorem Joint.mono (h : Joint R V x y s s') (hV : ∀ a, V a → V' a) : Joint R V' x y s s' := by
  unfold Joint at h ⊢
  generalize x s = e at *
  generalize y s' = e' at *
  cases h with
  | bound => exact .bound ..
  | same h ha => exact .same h fun a ho => hV a (ha a ho)

/-- States that end alike are alike in every way that follows. -/
theorem Joint.weaken {R' : σ → σ' → Prop} (h : Joint R V x y s s') (hR : ∀ {t t'}, R t t' → R' t t') :
    Joint R' V x y s s' := by
  unfold Joint at h ⊢
  generalize x s = e at *
  generalize y s' = e' at *
  cases h with
  | bound => exact .bound ..
  | same h ha => exact .same (hR h) ha

theorem joint_pure (h : R s s') {a : α} (ha : V a) :
    Joint R V (Pure.pure a : Run σ φ α) (Pure.pure a) s s' :=
  Level.same h fun _ ho => Outcome.value.inj ho ▸ ha

theorem joint_fault (h : R s s') (e : φ) : Joint R V (Run.fault e : Run σ φ α) (Run.fault e) s s' :=
  Level.same h fun _ ho => absurd ho (by simp)

theorem joint_halt (h : R s s') (w : Halt) : Joint R V (Run.halt w : Run σ φ α) (Run.halt w) s s' :=
  Level.same h fun _ ho => absurd ho (by simp)

/-- One computation goes on behind another, on both sides. -/
theorem joint_bind_of (hx : Joint R V x y s s')
    (hf : ∀ a t t', x s = (.value a, t) → R t t' → V a → Joint R W (f a) (g a) t t') :
    Joint R W (x >>= f) (y >>= g) s s' := by
  unfold Joint at hx ⊢
  rcases hxs : x s with ⟨o, t⟩
  rcases hys : y s' with ⟨o', t'⟩
  rw [hxs, hys] at hx
  cases hx with
  | bound =>
    rw [bind_of_halt hxs]
    exact .bound ..
  | same h hV =>
    cases o with
    | value a =>
      rw [bind_of_value hxs, bind_of_value hys]
      exact hf a t t' hxs h (hV a rfl)
    | fault e =>
      rw [bind_of_fault hxs, bind_of_fault hys]
      exact .same h fun _ ho => absurd ho (by simp)
    | halt w =>
      rw [bind_of_halt hxs, bind_of_halt hys]
      exact .same h fun _ ho => absurd ho (by simp)

theorem joint_bind (hx : Joint R V x y s s')
    (hf : ∀ a t t', R t t' → V a → Joint R W (f a) (g a) t t') :
    Joint R W (x >>= f) (y >>= g) s s' :=
  joint_bind_of hx fun a t t' _ => hf a t t'

/-- Reading the states goes on with what was read. -/
theorem joint_gets {p : σ → α} {p' : σ' → α} (hp : p' s' = p s)
    (h : Joint R W (f (p s)) (g (p s)) s s') :
    Joint R W (Run.gets p >>= f) (Run.gets p' >>= g) s s' := by
  change Level R W (f (p s) s) (g (p' s') s')
  rw [hp]
  exact h

/-- What was read need not be the same. -/
theorem joint_gets_of {γ γ' : Type} {p : σ → γ} {p' : σ' → γ'} {f : γ → Run σ φ β} {g : γ' → Run σ' φ β}
    (h : Joint R W (f (p s)) (g (p' s')) s s') :
    Joint R W (Run.gets p >>= f) (Run.gets p' >>= g) s s' := h

theorem joint_get {k : σ → Run σ φ β} {k' : σ' → Run σ' φ β} (h : Joint R W (k s) (k' s') s s') :
    Joint R W (Run.get >>= k) (Run.get >>= k') s s' := h

theorem joint_modify {p : σ → σ} {p' : σ' → σ'} (h : R (p s) (p' s')) :
    Joint R (fun _ => True) (Run.modify p : Run σ φ Unit) (Run.modify p') s s' :=
  Level.same h fun _ _ => trivial

theorem joint_modifyGet {p : σ → α × σ} {p' : σ' → α × σ'} (ha : (p' s').1 = (p s).1)
    (h : R (p s).2 (p' s').2) (hV : V (p s).1) :
    Joint R V (Run.modifyGet p : Run σ φ α) (Run.modifyGet p') s s' := by
  change Level R V (Outcome.value (p s).1, (p s).2) (Outcome.value (p' s').1, (p' s').2)
  rw [ha]
  exact .same h fun _ ho => Outcome.value.inj ho ▸ hV

theorem joint_read {p : σ → α} {p' : σ' → α} (hp : p' s' = p s) (h : R s s') (hV : V (p s)) :
    Joint R V (Run.gets p : Run σ φ α) (Run.gets p') s s' := by
  change Level R V (Outcome.value (p s), s) (Outcome.value (p' s'), s')
  rw [hp]
  exact .same h fun _ ho => Outcome.value.inj ho ▸ hV

theorem joint_ofExcept (h : R s s') (r : Except φ α) :
    Joint R (fun _ => True) (Run.ofExcept r) (Run.ofExcept r) s s' := by
  cases r with
  | ok a => exact joint_pure h trivial
  | error e => exact joint_fault h e

/-- Work that is seen to fail or not is seen alike. -/
theorem joint_attempt (hx : Joint R V x y s s') :
    Joint R (fun result => ∀ a, result = .ok a → V a) (x.attempt : Run σ ψ (Except φ α)) y.attempt
      s s' := by
  unfold Joint Run.attempt at *
  rcases hxs : x s with ⟨o, t⟩
  rcases hys : y s' with ⟨o', t'⟩
  rw [hxs, hys] at hx
  cases hx with
  | bound => exact .bound ..
  | same h hV =>
    cases o with
    | value a =>
      refine .same h fun result ho b hb => ?_
      cases ho
      cases hb
      exact hV a rfl
    | fault e =>
      refine .same h fun result ho b hb => ?_
      cases ho
      cases hb
    | halt w => exact .same h fun _ ho => absurd ho (by simp)

theorem joint_observed (hx : Joint R V x y s s') :
    Joint R (fun _ => True) (x.observed : Run σ ψ (Outcome φ α)) y.observed s s' := by
  unfold Joint Run.observed at *
  rcases hxs : x s with ⟨o, t⟩
  rcases hys : y s' with ⟨o', t'⟩
  rw [hxs, hys] at hx
  cases hx with
  | bound => exact .bound ..
  | same h =>
    cases o with
    | value | fault => exact .same h fun _ _ => trivial
    | halt w => cases w <;> exact .same h fun _ _ => trivial

theorem joint_widen {x : Run σ Empty α} {y : Run σ' Empty α} (hx : Joint R V x y s s') :
    Joint R V (x.widen : Run σ φ α) y.widen s s' := by
  unfold Joint Run.widen at *
  rcases hxs : x s with ⟨o, t⟩
  rcases hys : y s' with ⟨o', t'⟩
  rw [hxs, hys] at hx
  cases hx with
  | bound => exact .bound ..
  | same h hV =>
    cases o with
    | value a => exact .same h fun _ ho => Outcome.value.inj ho ▸ hV a rfl
    | fault e => exact e.elim
    | halt w => exact .same h fun _ ho => absurd ho (by simp)

theorem joint_sealed (hx : Joint R V x y s s') : Joint R V x.sealed y.sealed s s' := by
  unfold Joint Run.sealed at *
  rcases hxs : x s with ⟨o, t⟩
  rcases hys : y s' with ⟨o', t'⟩
  rw [hxs, hys] at hx
  cases hx with
  | bound => exact .bound ..
  | same h hV =>
    cases o with
    | value | fault => exact .same h hV
    | halt w => cases w <;> exact .same h fun _ ho => absurd ho (by simp)

/-- A last change of the states, which a halt skips. -/
theorem joint_andFinally {p : σ → σ} {p' : σ' → σ'} (hx : Joint R V x y s s')
    (hp : ∀ {t t'}, R t t' → R (p t) (p' t')) : Joint R V (x.andFinally p) (y.andFinally p') s s' := by
  unfold Joint Run.andFinally at *
  rcases hxs : x s with ⟨o, t⟩
  rcases hys : y s' with ⟨o', t'⟩
  rw [hxs, hys] at hx
  cases hx with
  | bound => exact .bound ..
  | same h hV =>
    cases o with
    | value | fault => exact .same (hp h) hV
    | halt w => exact .same h hV

/-! ## One of them alone -/

/-- A computation that ends with a value and in a state with a property, unless it reaches the bound. -/
def Lands (Q : α → σ → Prop) (x : Run σ φ α) (s : σ) : Prop :=
  (x s).1 = .halt .exhausted ∨ ∃ a t, x s = (.value a, t) ∧ Q a t

variable {Q : α → σ → Prop} {Q' : β → σ → Prop}

theorem Lands.mono {Q' : α → σ → Prop} (h : Lands Q x s) (hQ : ∀ a t, Q a t → Q' a t) :
    Lands Q' x s := by
  rcases h with h | ⟨a, t, h, hq⟩
  · exact Or.inl h
  · exact Or.inr ⟨a, t, h, hQ a t hq⟩

theorem lands_of_value {a : α} {t : σ} (h : x s = (.value a, t)) (hQ : Q a t) : Lands Q x s :=
  Or.inr ⟨a, t, h, hQ⟩

theorem lands_bind (hx : Lands Q x s) (hf : ∀ a t, Q a t → Lands Q' (f a) t) :
    Lands Q' (x >>= f) s := by
  rcases hx with hx | ⟨a, t, hx, hq⟩
  · left
    rcases hxs : x s with ⟨o, t⟩
    obtain rfl : o = .halt .exhausted := (congrArg Prod.fst hxs).symm.trans hx
    rw [bind_of_halt hxs]
  · rw [Lands, bind_of_value hx]
    exact hf a t hq

theorem lands_sealed (hx : Lands Q x s) : Lands Q x.sealed s := by
  rcases hx with hx | ⟨a, t, hx, hq⟩
  · left
    rcases hxs : x s with ⟨o, t⟩
    obtain rfl : o = .halt .exhausted := (congrArg Prod.fst hxs).symm.trans hx
    rw [sealed, hxs]
  · exact lands_of_value (by rw [sealed, hx]) hq

theorem lands_widen {x : Run σ Empty α} (hx : Lands Q x s) : Lands Q (x.widen : Run σ φ α) s := by
  rcases hx with hx | ⟨a, t, hx, hq⟩
  · left
    rcases hxs : x s with ⟨o, t⟩
    obtain rfl : o = .halt .exhausted := (congrArg Prod.fst hxs).symm.trans hx
    rw [widen, hxs]
  · exact lands_of_value (by rw [widen, hx]) hq

/-- Computations that land each for itself go on alike, if they do so from where they land.  The second
one must not reach the bound where the first one does not. -/
theorem joint_bind_lands {Q' : α → σ' → Prop} (hx : Lands Q x s) (hy : Lands Q' y s')
    (hbound : (y s').1 = .halt .exhausted → (x s).1 = .halt .exhausted)
    (h : ∀ a t b t', Q a t → Q' b t' → Joint R W (f a) (g b) t t') :
    Joint R W (x >>= f) (y >>= g) s s' := by
  unfold Joint
  by_cases hend : (x s).1 = .halt .exhausted
  · rcases hxs : x s with ⟨o, t⟩
    obtain rfl : o = .halt .exhausted := (congrArg Prod.fst hxs).symm.trans hend
    rw [bind_of_halt hxs]
    exact .bound ..
  obtain ⟨a, t, hx, hq⟩ := hx.resolve_left hend
  obtain ⟨b, t', hy, hq'⟩ := hy.resolve_left (mt hbound hend)
  rw [bind_of_value hx, bind_of_value hy]
  exact h a t b t' hq hq'

/-- They end alike, if they land alike. -/
theorem joint_of_lands {Q' : α → σ' → Prop} (hx : Lands Q x s) (hy : Lands Q' y s')
    (hbound : (y s').1 = .halt .exhausted → (x s).1 = .halt .exhausted)
    (h : ∀ a t b t', Q a t → Q' b t' → b = a ∧ R t t' ∧ V a) : Joint R V x y s s' := by
  rw [← bind_pure x, ← bind_pure y]
  refine joint_bind_lands hx hy hbound fun a t b t' hq hq' => ?_
  obtain ⟨rfl, hR, hV⟩ := h a t b t' hq hq'
  exact joint_pure hR hV

end ScriptHost.Run
