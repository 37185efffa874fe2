import Mathlib.Data.Finmap
import ScriptHost.Machine.Entry

/-!
# Entries of maps

A map is kept as a list of entries, and searched from its beginning.  No key is there twice
(`Apart`), so behind the list stands a finite map (`Mapping`), on which searching, storing and removing
are what they are called.

Numbers that are equal are one key, as the two zeros are.  An entry whose key is not a number is never
found again, and only counts.
-/

namespace ScriptHost.Number.Double

/-- A number with one zero instead of two. -/
def unsigned (x : Double) : Double := if x.isZero then .zero else x

theorem unsigned_eq_iff {x y : Double} :
    x.unsigned = y.unsigned ↔ x = y ∨ x.isZero = true ∧ y.isZero = true := by
  have hzero : Double.zero.isZero = true := rfl
  unfold unsigned
  split <;> split
  · simp_all
  · next hx hy =>
    have hne : Double.zero ≠ y := fun h => hy (h ▸ hzero)
    have hne' : x ≠ y := fun h => hy (h ▸ hx)
    simp [hne, hne', hy]
  · next hx hy =>
    have hne : x ≠ Double.zero := fun h => hx (h ▸ hzero)
    have hne' : x ≠ y := fun h => hx (h ▸ hy)
    simp [hne, hne', hx]
  · next hx hy => simp [hx]

theorem same_iff {x y : Double} :
    x.same y = true ↔ x.isNaN = false ∧ y.isNaN = false ∧ x.unsigned = y.unsigned := by
  have hbits : x.bits = y.bits ↔ x = y := ⟨fun h => by cases x; cases y; congr, fun h => by rw [h]⟩
  rw [unsigned_eq_iff, ← hbits]
  simp [same, and_assoc]

end ScriptHost.Number.Double

namespace ScriptHost.Machine

open Number (Double)

/-! ## Keys -/

namespace Value

/-- What values that are the same key have in common.  There is nothing for what is not a number. -/
def key? : Value → Option Value
  | .number x => if x.isNaN then none else some (.number x.unsigned)
  | v => some v

/-- Values are the same key if they have something in common as keys. -/
theorem same_iff {k k' : Value} :
    k.same k' = true ↔ ∃ x, k.key? = some x ∧ k'.key? = some x := by
  simp only [and_comm (a := k.key? = _)]
  cases k with
  | number x =>
    cases k' with
    | number y =>
      rw [same, Double.same_iff, key?, key?]
      cases x.isNaN <;> cases y.isNaN <;> simp
    | _ => simp [same, key?]
  | _ => cases k' <;> simp [same, key?]

theorem same_of_key?_eq_none {k : Value} (h : k.key? = none) (k' : Value) : k.same k' = false := by
  refine Bool.eq_false_iff.2 fun hsame => ?_
  obtain ⟨x, hx, -⟩ := same_iff.1 hsame
  exact absurd (h.symm.trans hx) (by simp)

theorem same_iff_of_key? {k k' x y : Value} (hk : k.key? = some x) (hk' : k'.key? = some y) :
    k.same k' = true ↔ x = y := by
  rw [same_iff, hk, hk']
  simp [eq_comm]

theorem same_comm (k k' : Value) : k.same k' = k'.same k := by
  rw [Bool.eq_iff_iff, same_iff, same_iff]
  exact exists_congr fun _ => and_comm

/-- Values that are the same key are the same as every third one, or both are not. -/
theorem same_congr {k k' : Value} (h : k.same k' = true) (l : Value) : l.same k = l.same k' := by
  obtain ⟨x, hk, hk'⟩ := same_iff.1 h
  rw [Bool.eq_iff_iff, same_iff, same_iff, hk, hk']

end Value

/-! ## Entries with different keys -/

/-- No two entries have the same key. -/
def Apart (entries : List (Value × Value)) : Prop :=
  entries.Pairwise fun e f => e.1.same f.1 = false

namespace State

/-- Storing a value brings no key but its own. -/
theorem fst_of_mem_putEntry {key v : Value} : ∀ {entries : List (Value × Value)} {e : Value × Value},
    e ∈ putEntry key v entries → e.1 = key ∨ ∃ f ∈ entries, f.1 = e.1
  | [], e, he => by
    rw [putEntry, List.mem_singleton] at he
    exact .inl (he ▸ rfl)
  | (k, v') :: rest, e, he => by
    rw [putEntry] at he
    split at he
    · rcases List.mem_cons.1 he with rfl | he
      · exact .inr ⟨(k, v'), List.mem_cons_self, rfl⟩
      · exact .inr ⟨e, List.mem_cons_of_mem _ he, rfl⟩
    · rcases List.mem_cons.1 he with rfl | he
      · exact .inr ⟨(k, v'), List.mem_cons_self, rfl⟩
      · exact (fst_of_mem_putEntry he).imp_right fun ⟨f, hf, heq⟩ =>
          ⟨f, List.mem_cons_of_mem _ hf, heq⟩

theorem removeEntry_sublist (key : Value) : ∀ entries : List (Value × Value),
    (removeEntry key entries).Sublist entries
  | [] => .slnil
  | (k, v) :: rest => by
    rw [removeEntry]
    split
    · exact .cons _ (.refl rest)
    · exact .cons_cons _ (removeEntry_sublist key rest)

/-- An entry that is found has the key. -/
theorem findEntry_eq_none_iff {key : Value} : ∀ {entries : List (Value × Value)},
    findEntry key entries = none ↔ ∀ e ∈ entries, e.1.same key = false
  | [] => by simp [findEntry]
  | (k, v) :: rest => by
    rw [findEntry, List.forall_mem_cons]
    split
    · next hk => simp [hk]
    · next hk => rw [findEntry_eq_none_iff, Bool.eq_false_iff.2 hk, eq_self, true_and]

end State

namespace Apart

theorem putEntry (key v : Value) : ∀ {entries : List (Value × Value)}, Apart entries →
    Apart (State.putEntry key v entries)
  | [], _ => List.pairwise_singleton _ _
  | (k, v') :: rest, h => by
    obtain ⟨hhead, hrest⟩ := List.pairwise_cons.1 h
    rw [State.putEntry]
    split
    · exact List.pairwise_cons.2 ⟨hhead, hrest⟩
    · next hk =>
      refine List.pairwise_cons.2 ⟨fun e he => ?_, putEntry key v hrest⟩
      rcases State.fst_of_mem_putEntry he with heq | ⟨f, hf, heq⟩
      · exact (congrArg k.same heq).trans (Bool.eq_false_iff.2 hk)
      · exact (congrArg k.same heq).symm.trans (hhead f hf)

theorem removeEntry (key : Value) {entries : List (Value × Value)} (h : Apart entries) :
    Apart (State.removeEntry key entries) :=
  h.sublist (State.removeEntry_sublist key entries)

end Apart

/-! ## Finite maps -/

/-- A finite map.  Entries that cannot be found again are counted. -/
structure Mapping where
  values : Finmap fun _ : Value => Value
  lost : Nat

namespace Mapping

/-- The map without entries. -/
def empty : Mapping := ⟨∅, 0⟩

/-- The value of a key. -/
def find (m : Mapping) (k : Value) : Option Value := k.key?.bind fun x => m.values.lookup x

/-- Gives a value to a key. -/
def put (m : Mapping) (k v : Value) : Mapping :=
  match k.key? with
  | some x => { m with values := m.values.insert x v }
  | none => { m with lost := m.lost + 1 }

/-- Takes its value from a key. -/
def drop (m : Mapping) (k : Value) : Mapping :=
  match k.key? with
  | some x => { m with values := m.values.erase x }
  | none => m

/-- The number of entries. -/
def count (m : Mapping) : Nat := m.values.keys.card + m.lost

/-- What is stored under a key is found under it, and other keys have the values that they had. -/
theorem find_put (m : Mapping) (k v k' : Value) :
    (m.put k v).find k' = if k.same k' then some v else m.find k' := by
  unfold find put
  cases hk : k.key? with
  | none => rw [Value.same_of_key?_eq_none hk, if_neg Bool.false_ne_true]
  | some x =>
    cases hk' : k'.key? with
    | none => rw [Value.same_comm, Value.same_of_key?_eq_none hk', if_neg Bool.false_ne_true]; rfl
    | some y =>
      have hsame := Value.same_iff_of_key? hk hk'
      by_cases hxy : x = y
      · rw [if_pos (hsame.2 hxy), ← hxy]
        exact Finmap.lookup_insert _
      · rw [if_neg (hsame.not.2 hxy)]
        exact Finmap.lookup_insert_of_ne _ (Ne.symm hxy)

/-- Nothing is found under a key that was removed, and other keys have the values that they had. -/
theorem find_drop (m : Mapping) (k k' : Value) :
    (m.drop k).find k' = if k.same k' then none else m.find k' := by
  unfold find drop
  cases hk : k.key? with
  | none => rw [Value.same_of_key?_eq_none hk, if_neg Bool.false_ne_true]
  | some x =>
    cases hk' : k'.key? with
    | none => rw [Value.same_comm, Value.same_of_key?_eq_none hk', if_neg Bool.false_ne_true]; rfl
    | some y =>
      have hsame := Value.same_iff_of_key? hk hk'
      by_cases hxy : x = y
      · rw [if_pos (hsame.2 hxy), ← hxy]
        exact Finmap.lookup_erase _ _
      · rw [if_neg (hsame.not.2 hxy)]
        exact Finmap.lookup_erase_ne (Ne.symm hxy)

theorem isSome_find_iff {m : Mapping} {k x : Value} (hk : k.key? = some x) :
    (m.find k).isSome ↔ x ∈ m.values := by
  rw [find, hk, Option.bind_some, Finmap.lookup_isSome]

/-- There is one entry more behind storing a value under a key that is absent. -/
theorem count_put (m : Mapping) (k v : Value) :
    (m.put k v).count = if (m.find k).isSome then m.count else m.count + 1 := by
  unfold put count
  cases hk : k.key? with
  | none =>
    have hnone : m.find k = none := by rw [find, hk, Option.bind_none]
    rw [hnone, Option.isSome_none, if_neg Bool.false_ne_true]
    rfl
  | some x =>
    have hsome := isSome_find_iff (m := m) hk
    have hkeys : (m.values.insert x v).keys = insert x m.values.keys := by
      ext y
      rw [Finmap.mem_keys, Finmap.mem_insert, Finset.mem_insert, Finmap.mem_keys]
    dsimp only
    rw [hkeys]
    by_cases hx : x ∈ m.values
    · rw [if_pos (hsome.2 hx), Finset.insert_eq_of_mem (Finmap.mem_keys.2 hx)]
    · rw [if_neg (hsome.not.2 hx), Finset.card_insert_of_notMem (Finmap.mem_keys.not.2 hx),
        Nat.add_right_comm]

/-- There is one entry less behind removing a key that is present. -/
theorem count_drop (m : Mapping) (k : Value) :
    (m.drop k).count = if (m.find k).isSome then m.count - 1 else m.count := by
  unfold drop count
  cases hk : k.key? with
  | none =>
    have hnone : m.find k = none := by rw [find, hk, Option.bind_none]
    rw [hnone, Option.isSome_none, if_neg Bool.false_ne_true]
  | some x =>
    have hsome := isSome_find_iff (m := m) hk
    dsimp only
    rw [Finmap.keys_erase]
    by_cases hx : x ∈ m.values
    · have hpos : 0 < m.values.keys.card := Finset.card_pos.2 ⟨x, Finmap.mem_keys.2 hx⟩
      rw [if_pos (hsome.2 hx), Finset.card_erase_of_mem (Finmap.mem_keys.2 hx)]
      omega
    · rw [if_neg (hsome.not.2 hx), Finset.erase_eq_of_notMem (Finmap.mem_keys.not.2 hx)]

/-- What is stored last under a key is all that there is. -/
theorem put_put {k k' : Value} (h : k.same k' = true) (m : Mapping) (v v' : Value) :
    (m.put k v).put k' v' = m.put k v' := by
  obtain ⟨x, hk, hk'⟩ := Value.same_iff.1 h
  unfold put
  rw [hk, hk']
  exact congrArg (Mapping.mk · m.lost) (Finmap.insert_insert ..)

/-- Values are stored under different keys in any order. -/
theorem put_comm {k k' : Value} (h : k.same k' = false) (m : Mapping) (v v' : Value) :
    (m.put k v).put k' v' = (m.put k' v').put k v := by
  unfold put
  cases hk : k.key? with
  | none => cases hk' : k'.key? <;> rfl
  | some x =>
    cases hk' : k'.key? with
    | none => rfl
    | some y =>
      have hne : x ≠ y := (Value.same_iff_of_key? hk hk').not.1 (Bool.eq_false_iff.1 h)
      exact congrArg (Mapping.mk · m.lost) (Finmap.insert_insert_of_ne _ hne)

/-- A value that was stored under a new key is removed with it. -/
theorem drop_put_of_same {k k' : Value} (h : k.same k' = true) {m : Mapping}
    (hnone : m.find k' = none) (v : Value) : (m.put k v).drop k' = m := by
  obtain ⟨x, hk, hk'⟩ := Value.same_iff.1 h
  have habsent : x ∉ m.values := by
    rw [← isSome_find_iff hk', hnone]
    simp
  unfold put drop
  rw [hk, hk']
  have herase : (m.values.insert x v).erase x = m.values := by
    refine Finmap.ext_lookup fun y => ?_
    by_cases hy : y = x
    · rw [hy, Finmap.lookup_erase, Finmap.lookup_eq_none.2 habsent]
    · rw [Finmap.lookup_erase_ne hy, Finmap.lookup_insert_of_ne _ hy]
  exact congrArg (Mapping.mk · m.lost) herase

theorem drop_put_of_not_same {k k' : Value} (h : k.same k' = false) (m : Mapping) (v : Value) :
    (m.put k v).drop k' = (m.drop k').put k v := by
  unfold put drop
  cases hk : k.key? with
  | none => cases hk' : k'.key? <;> rfl
  | some x =>
    cases hk' : k'.key? with
    | none => rfl
    | some y =>
      have hne : x ≠ y := (Value.same_iff_of_key? hk hk').not.1 (Bool.eq_false_iff.1 h)
      have herase : (m.values.insert x v).erase y = (m.values.erase y).insert x v := by
        refine Finmap.ext_lookup fun z => ?_
        by_cases hzy : z = y
        · rw [hzy, Finmap.lookup_erase, Finmap.lookup_insert_of_ne _ hne.symm, Finmap.lookup_erase]
        · rw [Finmap.lookup_erase_ne hzy]
          by_cases hzx : z = x
          · rw [hzx, Finmap.lookup_insert, Finmap.lookup_insert]
          · rw [Finmap.lookup_insert_of_ne _ hzx, Finmap.lookup_insert_of_ne _ hzx,
              Finmap.lookup_erase_ne hzy]
      exact congrArg (Mapping.mk · m.lost) herase

/-! ### The finite map of a list of entries -/

/-- Entries as a finite map. -/
def of : List (Value × Value) → Mapping
  | [] => .empty
  | (k, v) :: rest => (of rest).put k v

theorem find_of (k : Value) : ∀ entries : List (Value × Value),
    (of entries).find k = State.findEntry k entries
  | [] => by
    unfold of find
    cases k.key? <;> rfl
  | (k', v) :: rest => by rw [of, find_put, State.findEntry, find_of k rest]

theorem count_of : ∀ {entries : List (Value × Value)}, Apart entries →
    (of entries).count = entries.length
  | [], _ => rfl
  | (k, v) :: rest, h => by
    obtain ⟨hhead, hrest⟩ := List.pairwise_cons.1 h
    have hnone : (of rest).find k = none := by
      rw [find_of, State.findEntry_eq_none_iff]
      exact fun e he => (Value.same_comm ..).trans (hhead e he)
    rw [of, count_put, hnone, Option.isSome_none, if_neg Bool.false_ne_true, count_of hrest,
      List.length_cons]

theorem of_putEntry (k v : Value) : ∀ entries : List (Value × Value),
    of (State.putEntry k v entries) = (of entries).put k v
  | [] => rfl
  | (k', v') :: rest => by
    rw [State.putEntry]
    split
    · next hk => rw [of, of, put_put hk]
    · next hk => rw [of, of, of_putEntry k v rest, put_comm (Bool.eq_false_iff.2 hk)]

theorem of_removeEntry (k : Value) : ∀ {entries : List (Value × Value)}, Apart entries →
    of (State.removeEntry k entries) = (of entries).drop k
  | [], _ => by
    unfold State.removeEntry of drop
    cases k.key? <;> rfl
  | (k', v) :: rest, h => by
    obtain ⟨hhead, hrest⟩ := List.pairwise_cons.1 h
    rw [State.removeEntry]
    split
    · next hk =>
      have hnone : (of rest).find k = none := by
        rw [find_of, State.findEntry_eq_none_iff]
        intro e he
        rw [← Value.same_congr hk, Value.same_comm]
        exact hhead e he
      rw [of, drop_put_of_same hk hnone]
    · next hk => rw [of, of, of_removeEntry k hrest, drop_put_of_not_same (Bool.eq_false_iff.2 hk)]

end Mapping

end ScriptHost.Machine
