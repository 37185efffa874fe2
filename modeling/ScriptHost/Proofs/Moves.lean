import ScriptHost.Proofs.Books
import ScriptHost.Proofs.Within

/-!
# Work between two states of rest

While a machine runs, its host may do anything to other machines, start further runs of the same one,
and collect garbage inside of a collection, but when control comes back the machine must find itself
as it was: registered, with the swept objects that it was about to finalize, and, if it is being
freed, without any change (`Held`).  `Steady active w` is a state of rest while the machines at the
addresses `active` run, and `Moves active` leads from one such state to another by any number of
steps.  Work that ends the process need not come to rest (`Reaches`).

`Calm` is the common case: work that only enters machines and writes their slots, lists and maps.
-/

namespace ScriptHost.Bridge

variable {η : Type}

/-! ## States of rest -/

/-- A machine finds itself as it was. -/
structure Held (w w' : World (Host η)) (a : Address) : Prop where
  registered : w'.registered.find? a = w.registered.find? a
  swept : (w'.machine a).swept = (w.machine a).swept
  finalizing : (w'.machine a).finalizing = (w.machine a).finalizing
  /-- A machine that is being freed is not used any more. -/
  machine : a ∉ w.registered.keys → w'.machine a = w.machine a

/-- A state of rest while machines run: only they have objects that wait for finalizers. -/
structure Steady (active : List Address) (w : World (Host η)) : Prop where
  sound : Sound w
  native : ∀ a ∈ active, a ∈ w.natives.keys
  /-- A machine that was given up runs until it has been freed. -/
  listed : ∀ a ∈ w.natives.keys, a ∈ w.registered.keys ∨ a ∈ active
  quiet : ∀ a, a ∉ active → (w.machine a).swept = [] ∧ (w.machine a).finalizing = []

/-- Work from one state of rest to another. -/
def Moves (active : List Address) (w w' : World (Host η)) : Prop :=
  Steady active w → Steps w w' ∧ Steady active w' ∧ ∀ a ∈ active, Held w w' a

/-- Work from a state of rest. -/
def Reaches (active : List Address) (w w' : World (Host η)) : Prop := Steady active w → Steps w w'

theorem Held.refl (w : World (Host η)) (a : Address) : Held w w a := ⟨rfl, rfl, rfl, fun _ => rfl⟩

theorem Held.trans {w₁ w₂ w₃ : World (Host η)} {a : Address} (h : Held w₁ w₂ a)
    (h' : Held w₂ w₃ a) : Held w₁ w₃ a := by
  refine ⟨h'.registered.trans h.registered, h'.swept.trans h.swept,
    h'.finalizing.trans h.finalizing, fun ha => ?_⟩
  have ha' : a ∉ w₂.registered.keys := by
    rw [← Table.find?_eq_none_iff, h.registered, Table.find?_eq_none_iff]
    exact ha
  exact (h'.machine ha').trans (h.machine ha)

theorem span_moves (active : List Address) :
    Span (Moves active : World (Host η) → World (Host η) → Prop) (Reaches active) where
  refl w hw := ⟨.refl, hw, fun a _ => Held.refl w a⟩
  weaken h hw := (h hw).1
  trans h h' hw := by
    obtain ⟨hsteps, hmid, hheld⟩ := h hw
    obtain ⟨hsteps', hend, hheld'⟩ := h' hmid
    exact ⟨hsteps.trans hsteps', hend, fun a ha => (hheld a ha).trans (hheld' a ha)⟩
  append h h' hw := by
    obtain ⟨hsteps, hmid, -⟩ := h hw
    exact hsteps.trans (h' hmid)

/-! ## Calm work -/

/-- No machine comes or goes, and none gets or loses swept objects. -/
structure Gentle (w w' : World (Host η)) : Prop where
  natives : ∀ a, a ∈ w'.natives.keys ↔ a ∈ w.natives.keys
  registered : w'.registered = w.registered
  live : ∀ id a, w'.LiveAt id a ↔ w.LiveAt id a
  swept : ∀ a, (w'.machine a).swept = (w.machine a).swept
  finalizing : ∀ a, (w'.machine a).finalizing = (w.machine a).finalizing
  machine : ∀ a, a ∉ w.registered.keys → w'.machine a = w.machine a

namespace Gentle

variable {w w' w₁ w₂ w₃ : World (Host η)}

theorem refl (w : World (Host η)) : Gentle w w :=
  ⟨fun _ => Iff.rfl, rfl, fun _ _ => Iff.rfl, fun _ => rfl, fun _ => rfl, fun _ _ => rfl⟩

theorem trans (h : Gentle w₁ w₂) (h' : Gentle w₂ w₃) : Gentle w₁ w₃ := by
  refine ⟨fun a => (h'.natives a).trans (h.natives a), h'.registered.trans h.registered,
    fun id a => (h'.live id a).trans (h.live id a), fun a => (h'.swept a).trans (h.swept a),
    fun a => (h'.finalizing a).trans (h.finalizing a), fun a ha => ?_⟩
  refine (h'.machine a ?_).trans (h.machine a ha)
  rw [h.registered]
  exact ha

/-- Nothing but what machines do not see changes. -/
theorem of_eq (hnatives : w'.natives = w.natives) (hregistered : w'.registered = w.registered)
    (hlive : ∀ id a, w'.LiveAt id a ↔ w.LiveAt id a) : Gentle w w' := by
  have hm : ∀ a, w'.machine a = w.machine a := fun a => by
    rw [World.machine, World.machine, hnatives]
  exact ⟨fun a => by rw [hnatives], hregistered, hlive, fun a => by rw [hm],
    fun a => by rw [hm], fun a _ => hm a⟩

/-- A machine changes, but not its swept objects. -/
theorem putMachine (w : World (Host η)) {a : Address} {m : Machine.State}
    (hswept : m.swept = (w.machine a).swept)
    (hfinalizing : m.finalizing = (w.machine a).finalizing)
    (ha : a ∈ w.registered.keys) (hn : a ∈ w.natives.keys) : Gentle w (w.putMachine a m) := by
  refine ⟨fun b => World.mem_natives_putMachine, rfl, fun _ _ => Iff.rfl, ?_, ?_, ?_⟩
  · intro b
    by_cases hb : b = a
    · rw [hb, World.machine_putMachine_self hn, hswept]
    · rw [World.machine_putMachine_ne _ hb]
  · intro b
    by_cases hb : b = a
    · rw [hb, World.machine_putMachine_self hn, hfinalizing]
    · rw [World.machine_putMachine_ne _ hb]
  · intro b hb
    have hne : b ≠ a := by
      rintro rfl
      exact hb ha
    rw [World.machine_putMachine_ne _ hne]

theorem moves {active : List Address} (h : Gentle w w') (hs : Steps w w') :
    Moves active w w' := by
  intro hw
  refine ⟨hs, ⟨hs.sound hw.sound, ?_, ?_, ?_⟩, ?_⟩
  · exact fun a ha => (h.natives a).2 (hw.native a ha)
  · intro a ha
    rw [h.registered]
    exact hw.listed a ((h.natives a).1 ha)
  · intro a ha
    rw [h.swept, h.finalizing]
    exact hw.quiet a ha
  · intro a _
    exact ⟨by rw [h.registered], h.swept a, h.finalizing a, h.machine a⟩

end Gentle

/-- Work on a sound world that only enters machines and writes slots, lists and maps. -/
def Calm (w w' : World (Host η)) : Prop := Sound w → Steps w w' ∧ Gentle w w'

theorem Calm.moves {w w' : World (Host η)} (h : Calm w w') (active : List Address) :
    Moves active w w' := by
  intro hw
  obtain ⟨hsteps, hgentle⟩ := h hw.sound
  exact hgentle.moves hsteps hw

theorem Step.calm {w w' : World (Host η)} (hs : Step w w') (hg : Gentle w w') : Calm w w' :=
  fun _ => ⟨.single hs, hg⟩

end ScriptHost.Bridge
