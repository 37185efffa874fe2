import Mathlib
import ScriptHost.Machine.Heap

/-!
# Values that do not contain themselves

The text of a list or a map goes through its elements, and stops at a depth that is at least the number
of objects.  It does not stop early for a value in which nothing contains itself: the objects around an
element are all different, so that there is room for one more as long as one more exists
(`Heap.textWithin_eq`).
-/

namespace ScriptHost.Machine

/-- The elements of a list, and the keys and values of a map. -/
def Object.elements : Object → List Value
  | .list items => items
  | .map entries => entries.flatMap fun e => [e.1, e.2]
  | .classDef _ => []
  | .instanceOf _ => []
  | .foreign _ _ => []

namespace Heap

variable {h : Heap}

/-- An object is an element of another one. -/
def Nests (h : Heap) (outer inner : ObjectId) : Prop :=
  ∃ o, h.get? outer = some o ∧ Value.object inner ∈ o.elements

/-- Nothing in a value contains itself. -/
def Acyclic (h : Heap) (v : Value) : Prop :=
  ∀ id, v = .object id → ∀ inner, Relation.ReflTransGen h.Nests id inner →
    ¬ Relation.TransGen h.Nests inner inner

/-- What is in a value contains itself no more than the value does. -/
theorem Acyclic.element {id : ObjectId} {o : Object} (hv : h.Acyclic (.object id))
    (ho : h.get? id = some o) {v : Value} (helement : v ∈ o.elements) : h.Acyclic v := by
  rintro inner rfl deeper hdeeper
  exact hv id rfl deeper (.head ⟨o, ho, helement⟩ hdeeper)

/-- Different objects of a heap around a value, all of which contain it. -/
structure Around (h : Heap) (path : List ObjectId) (v : Value) : Prop where
  nodup : path.Nodup
  exist : ∀ outer ∈ path, outer ∈ h.objects.keys
  contain : ∀ outer ∈ path, ∀ id, v = .object id → Relation.TransGen h.Nests outer id

theorem around_nil (v : Value) : h.Around [] v :=
  ⟨List.nodup_nil, fun _ hin => absurd hin List.not_mem_nil,
    fun _ hin => absurd hin List.not_mem_nil⟩

/-- No more objects than there are can be around a value. -/
theorem Around.length_le {path : List ObjectId} {v : Value} (hp : h.Around path v) :
    path.length ≤ h.objects.size := by
  have hle : path.length ≤ h.objects.keys.length := (hp.nodup.subperm hp.exist).length_le
  rwa [Table.keys, List.length_map] at hle

/-- An object is around its elements, together with what is around it. -/
theorem Around.element {path : List ObjectId} {id : ObjectId} {o : Object}
    (hp : h.Around path (.object id)) (hv : h.Acyclic (.object id)) (ho : h.get? id = some o)
    {v : Value} (helement : v ∈ o.elements) : h.Around (id :: path) v := by
  refine ⟨List.nodup_cons.2 ⟨fun hin => ?_, hp.nodup⟩, fun outer hin => ?_, fun outer hin inner hv' => ?_⟩
  · exact hv id rfl id .refl (hp.contain id hin id rfl)
  · rcases List.mem_cons.1 hin with rfl | hin
    · exact Table.mem_keys_of_find? ho
    · exact hp.exist outer hin
  · have hlast : h.Nests id inner := ⟨o, ho, hv' ▸ helement⟩
    rcases List.mem_cons.1 hin with rfl | hin
    · exact .single hlast
    · exact (hp.contain outer hin id rfl).tail hlast

/-- The text of an object goes one level deeper, to its elements. -/
theorem textWithin_congr {depth depth' : Nat} {id : ObjectId}
    (hsame : ∀ o, h.get? id = some o →
      ∀ v ∈ o.elements, h.textWithin depth v = h.textWithin depth' v) :
    h.textWithin (depth + 1) (.object id) = h.textWithin (depth' + 1) (.object id) := by
  rw [textWithin, textWithin]
  cases hid : h.get? id with
  | none => rfl
  | some o =>
    cases o with
    | list items =>
      have hitems : items.map (h.textWithin depth) = items.map (h.textWithin depth') :=
        List.map_congr_left fun v hv => hsame _ hid v hv
      dsimp only
      rw [hitems]
    | map entries =>
      have hentry : ∀ e ∈ entries, ∀ v ∈ [e.1, e.2],
          h.textWithin depth v = h.textWithin depth' v := fun e he v hv =>
        hsame _ hid v (List.mem_flatMap.2 ⟨e, he, hv⟩)
      have hentries : (entries.map fun e => h.textWithin depth e.1 ++ ": " ++ h.textWithin depth e.2) =
          entries.map fun e => h.textWithin depth' e.1 ++ ": " ++ h.textWithin depth' e.2 := by
        refine List.map_congr_left fun e he => ?_
        rw [hentry e he e.1 (by simp), hentry e he e.2 (by simp)]
      dsimp only
      rw [hentries]
    | classDef c => rfl
    | instanceOf owner => rfl
    | foreign owner block => rfl

/-- Two depths give the same text of a value if both leave room for the objects that are not around
it.  The induction is on how many these are. -/
theorem textWithin_of_room : ∀ {room depth depth' : Nat} {path : List ObjectId} {v : Value},
    h.Around path v → h.Acyclic v → h.objects.size ≤ path.length + room →
      room < depth → room < depth' → h.textWithin depth v = h.textWithin depth' v
  | room, depth + 1, depth' + 1, path, .object id, hp, hv, hroom, hd, hd' => by
    refine textWithin_congr fun o ho v helement => ?_
    have hp' : h.Around (id :: path) v := hp.element hv ho helement
    have hlength : path.length + 1 ≤ h.objects.size := hp'.length_le
    obtain ⟨room', rfl⟩ : ∃ room', room = room' + 1 := ⟨room - 1, by omega⟩
    have hroom' : h.objects.size ≤ (id :: path).length + room' := by
      rw [List.length_cons]
      omega
    exact textWithin_of_room hp' (hv.element ho helement) hroom' (by omega) (by omega)
  | _, _ + 1, _ + 1, _, .null, _, _, _, _, _ => by rw [textWithin, textWithin]
  | _, _ + 1, _ + 1, _, .bool _, _, _, _, _, _ => by rw [textWithin, textWithin]
  | _, _ + 1, _ + 1, _, .number _, _, _, _, _, _ => by rw [textWithin, textWithin]
  | _, _ + 1, _ + 1, _, .string _, _, _, _, _, _ => by rw [textWithin, textWithin]

/-- **The text of a value in which nothing contains itself is the same at every depth** that exceeds
the number of objects, so that it shows the value as a whole. -/
theorem textWithin_eq {v : Value} (hv : h.Acyclic v) {depth : Nat} (hdepth : h.objects.size < depth) :
    h.textWithin depth v = h.text v :=
  textWithin_of_room (around_nil v) hv (by simp) hdepth (Nat.lt_succ_of_le (Nat.le_max_right _ _))

end Heap

end ScriptHost.Machine
