import ScriptHost.Run

/-!
# How far a computation changes the state

A relation `S` holds from the state before a computation to the state behind it, however it ends; a
stronger relation `R` holds if something may go on behind it.  What may go on is what ends with a
value, with a fault, or with a panic, which the host can catch (`Outcome.isFinal`).

`Within R S x s` says this of the computation `x` from the state `s`.  There is one rule for each
way to build a computation, and `within_bind` is the one that everything else rests on: two stretches
of work follow each other if `R` can be followed by `R` and by `S` (`Span`).
-/

namespace ScriptHost

/-- Whether an outcome ends the process, so that nothing goes on behind it. -/
def Outcome.isFinal {φ α : Type} : Outcome φ α → Bool
  | .halt (.fatal _) => true
  | .halt .exhausted => true
  | _ => false

/-- A halt is final or not whatever the computation would have returned. -/
theorem isFinal_halt {φ ψ α β : Type} (w : Halt) :
    (Outcome.halt w : Outcome φ α).isFinal = (Outcome.halt w : Outcome ψ β).isFinal := by
  cases w <;> rfl

/-- A relation for work behind which something goes on, and a weaker one for work that ends
everything. -/
structure Span {σ : Type} (R S : σ → σ → Prop) : Prop where
  refl : ∀ s, R s s
  weaken : ∀ {s t}, R s t → S s t
  trans : ∀ {s t u}, R s t → R t u → R s u
  append : ∀ {s t u}, R s t → S t u → S s u

/-- Two such relations, if work ends everything at once only where `Ok` holds. -/
structure Route {σ : Type} (Ok : σ → Prop) (R S : σ → σ → Prop) : Prop where
  refl : ∀ s, R s s
  stop : ∀ {s}, Ok s → S s s
  trans : ∀ {s t u}, R s t → R t u → R s u
  append : ∀ {s t u}, R s t → S t u → S s u

theorem Route.mono {σ : Type} {Ok Ok' : σ → Prop} {R S : σ → σ → Prop} (h : Route Ok R S)
    (hOk : ∀ {s}, Ok' s → Ok s) : Route Ok' R S :=
  ⟨h.refl, fun hs => h.stop (hOk hs), h.trans, h.append⟩

namespace Run

variable {σ φ ψ α β : Type} {R S : σ → σ → Prop}

/-- From the state `s`, a computation stays within `S`, and within `R` if something may go on. -/
def Within (R S : σ → σ → Prop) (x : Run σ φ α) (s : σ) : Prop :=
  S s (x s).2 ∧ ((x s).1.isFinal = false → R s (x s).2)

theorem Within.of_rel (h : Span R S) {x : Run σ φ α} {s : σ} (hR : R s (x s).2) :
    Within R S x s :=
  ⟨h.weaken hR, fun _ => hR⟩

/-! ## Computations of one step -/

theorem within_pure (h : Span R S) (a : α) (s : σ) :
    Within R S (Pure.pure a : Run σ φ α) s :=
  Within.of_rel h (h.refl s)

theorem within_fault (h : Span R S) (e : φ) (s : σ) :
    Within R S (Run.fault e : Run σ φ α) s :=
  Within.of_rel h (h.refl s)

theorem within_halt (h : Span R S) (w : Halt) (s : σ) :
    Within R S (Run.halt w : Run σ φ α) s :=
  Within.of_rel h (h.refl s)

theorem within_gets (h : Span R S) (f : σ → α) (s : σ) :
    Within R S (Run.gets f : Run σ φ α) s :=
  Within.of_rel h (h.refl s)

theorem within_modify (h : Span R S) {f : σ → σ} {s : σ} (hf : R s (f s)) :
    Within R S (Run.modify f : Run σ φ Unit) s :=
  Within.of_rel h hf

theorem within_modifyGet (h : Span R S) {f : σ → α × σ} {s : σ} (hf : R s (f s).2) :
    Within R S (Run.modifyGet f : Run σ φ α) s :=
  Within.of_rel h hf

theorem within_ofExcept (h : Span R S) (r : Except φ α) (s : σ) :
    Within R S (Run.ofExcept r) s := by
  cases r with
  | ok a => exact within_pure h a s
  | error e => exact within_fault h e s

/-! ## Composed computations -/

/-- Work that goes on behind other work. -/
theorem within_bind (h : Span R S) {x : Run σ φ α} {f : α → Run σ φ β} {s : σ}
    (hx : Within R S x s)
    (hf : ∀ a t, x s = (.value a, t) → Within R S (f a) t) :
    Within R S (x >>= f) s := by
  obtain ⟨hS, hR⟩ := hx
  rcases hxs : x s with ⟨_ | _ | w, t⟩
  · rw [hxs] at hR
    have hst : R s t := hR rfl
    obtain ⟨hfS, hfR⟩ := hf _ t hxs
    rw [Within, bind_of_value hxs]
    exact ⟨h.append hst hfS, fun hend => h.trans hst (hfR hend)⟩
  · rw [hxs] at hS hR
    rw [Within, bind_of_fault hxs]
    exact ⟨hS, fun _ => hR rfl⟩
  · rw [hxs] at hS hR
    rw [Within, bind_of_halt hxs]
    exact ⟨hS, fun hend => hR ((isFinal_halt w).trans hend)⟩

/-- Work that goes on in any state behind other work. -/
theorem within_seq (h : Span R S) {x : Run σ φ α} {f : α → Run σ φ β} {s : σ}
    (hx : Within R S x s) (hf : ∀ a t, Within R S (f a) t) : Within R S (x >>= f) s :=
  within_bind h hx fun a t _ => hf a t

/-- Reading part of the state tells what was read. -/
theorem within_gets_bind {f : σ → α} {g : α → Run σ φ β} {s : σ} (hg : Within R S (g (f s)) s) :
    Within R S (Run.gets f >>= g) s := hg

theorem within_get_bind {g : σ → Run σ φ β} {s : σ} (hg : Within R S (g s) s) :
    Within R S (Run.get >>= g) s := hg

theorem within_attempt {x : Run σ φ α} {s : σ} (hx : Within R S x s) :
    Within R S (x.attempt : Run σ ψ (Except φ α)) s := by
  unfold Within attempt at *
  rcases hxs : x s with ⟨_ | _ | w, t⟩ <;> rw [hxs] at hx
  · exact hx
  · exact hx
  · exact ⟨hx.1, fun hend => hx.2 ((isFinal_halt w).trans hend)⟩

/-- Whoever sees how a computation ends can go on. -/
theorem within_observed {x : Run σ φ α} {s : σ} (hx : Within R S x s) :
    Within R S (x.observed : Run σ ψ (Outcome φ α)) s := by
  unfold Within observed at *
  rcases hxs : x s with ⟨_ | _ | w, t⟩ <;> rw [hxs] at hx
  · exact hx
  · exact hx
  · cases w with
    | panic message => exact hx
    | fatal message => exact ⟨hx.1, fun hend => absurd hend (by simp [Outcome.isFinal])⟩
    | exhausted => exact ⟨hx.1, fun hend => absurd hend (by simp [Outcome.isFinal])⟩

theorem within_widen {x : Run σ Empty α} {s : σ} (hx : Within R S x s) :
    Within R S (x.widen : Run σ φ α) s := by
  unfold Within widen at *
  rcases hxs : x s with ⟨_ | e | w, t⟩ <;> rw [hxs] at hx
  · exact hx
  · exact e.elim
  · exact ⟨hx.1, fun hend => hx.2 ((isFinal_halt w).trans hend)⟩

/-- A computation with a last change of the state, which a halt skips. -/
theorem within_andFinally (h : Span R S) {x : Run σ φ α} {f : σ → σ} {s : σ}
    (hx : Within R S x s) (hf : ∀ t, R t (f t)) : Within R S (x.andFinally f) s := by
  unfold Within andFinally at *
  rcases hxs : x s with ⟨_ | _ | w, t⟩ <;> rw [hxs] at hx
  · have hst : R s (f t) := h.trans (hx.2 rfl) (hf t)
    exact ⟨h.weaken hst, fun _ => hst⟩
  · have hst : R s (f t) := h.trans (hx.2 rfl) (hf t)
    exact ⟨h.weaken hst, fun _ => hst⟩
  · exact hx

/-- A panic that is turned into the end of the process goes on no more. -/
theorem within_sealed {x : Run σ φ α} {s : σ} (hx : Within R S x s) :
    Within R S x.sealed s := by
  unfold Within Run.sealed at *
  rcases hxs : x s with ⟨_ | _ | w, t⟩ <;> rw [hxs] at hx
  · exact hx
  · exact hx
  · cases w with
    | panic message => exact ⟨hx.1, fun hend => absurd hend (by simp [Outcome.isFinal])⟩
    | fatal message => exact hx
    | exhausted => exact hx

theorem value_of_widen {x : Run σ Empty α} {s t : σ} {a : α}
    (h : (x.widen : Run σ φ α) s = (.value a, t)) : x s = (.value a, t) := by
  rcases hx : x s with ⟨a' | e | w, s'⟩
  · rw [Run.widen, hx] at h
    cases h
    rfl
  · exact e.elim
  · rw [Run.widen, hx] at h
    exact absurd (congrArg Prod.fst h) (by simp)

theorem value_of_sealed {x : Run σ φ α} {s t : σ} {a : α} (h : x.sealed s = (.value a, t)) :
    x s = (.value a, t) := by
  rcases hx : x s with ⟨a' | e | w, s'⟩
  · rwa [Run.sealed, hx] at h
  · rw [Run.sealed, hx] at h
    exact absurd (congrArg Prod.fst h) (by simp)
  · rw [Run.sealed, hx] at h
    cases w <;> exact absurd (congrArg Prod.fst h) (by simp)

/-- What holds for narrower relations holds for wider ones. -/
theorem Within.mono {R' S' : σ → σ → Prop} {x : Run σ φ α} {s : σ} (hx : Within R S x s)
    (hR : ∀ {t}, R s t → R' s t) (hS : ∀ {t}, S s t → S' s t) : Within R' S' x s :=
  ⟨hS hx.1, fun hend => hR (hx.2 hend)⟩

/-! ## Computations that no panic leaves -/

/-- Only the end of the process stops a computation. -/
def Contained (x : Run σ φ α) : Prop :=
  ∀ s w t, x s = (.halt w, t) → (Outcome.halt w : Outcome φ α).isFinal = true

theorem contained_pure (a : α) : Contained (Pure.pure a : Run σ φ α) := by
  intro s w t hx
  exact absurd (congrArg Prod.fst hx) (by simp [Pure.pure, Run.pure])

theorem contained_gets (f : σ → α) : Contained (Run.gets f : Run σ φ α) := by
  intro s w t hx
  exact absurd (congrArg Prod.fst hx) (by simp [Run.gets])

theorem contained_modifyGet (f : σ → α × σ) : Contained (Run.modifyGet f : Run σ φ α) := by
  intro s w t hx
  exact absurd (congrArg Prod.fst hx) (by simp [Run.modifyGet])

theorem contained_modify (f : σ → σ) : Contained (Run.modify f : Run σ φ Unit) := by
  intro s w t hx
  exact absurd (congrArg Prod.fst hx) (by simp [Run.modify])

theorem contained_bind {x : Run σ φ α} {f : α → Run σ φ β} (hx : Contained x)
    (hf : ∀ a, Contained (f a)) : Contained (x >>= f) := by
  intro s w t hrun
  rcases hxs : x s with ⟨a | e | w', s'⟩
  · rw [bind_of_value hxs] at hrun
    exact hf a s' w t hrun
  · rw [bind_of_fault hxs] at hrun
    exact absurd (congrArg Prod.fst hrun) (by simp)
  · rw [bind_of_halt hxs] at hrun
    cases congrArg Prod.fst hrun
    exact (isFinal_halt _).trans (hx s _ _ hxs)

theorem contained_sealed (x : Run σ φ α) : Contained x.sealed := by
  intro s w t hx
  cases w with
  | panic message => exact absurd hx (sealed_ne_panic x s t message)
  | fatal message => rfl
  | exhausted => rfl

end Run

end ScriptHost
