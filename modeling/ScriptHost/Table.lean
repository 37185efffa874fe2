/-!
# Finite maps with unique keys

A `Table` keeps its entries in the order in which their keys first arrived.  It is the store behind
every registry of the library: live machines, handles, modules, variables, heap objects, bindings
and payloads.  Looking up after `insert` and after `erase` is described by the `find?` lemmas.
-/

namespace ScriptHost

universe u v

/-- A finite map as a list of entries in which no key occurs twice. -/
@[ext]
structure Table (κ : Type u) (α : Type v) where
  entries : List (κ × α)
  nodup_keys : (entries.map Prod.fst).Nodup

namespace Table

variable {κ : Type u} {α : Type v}

/-- The table without entries. -/
def empty : Table κ α := ⟨[], List.nodup_nil⟩

instance : Inhabited (Table κ α) := ⟨empty⟩

/-- The keys, in order of arrival. -/
def keys (t : Table κ α) : List κ := t.entries.map Prod.fst

/-- The values, in order of arrival of their keys. -/
def values (t : Table κ α) : List α := t.entries.map Prod.snd

/-- The number of entries. -/
def size (t : Table κ α) : Nat := t.entries.length

/-- Whether there is no entry. -/
def isEmpty (t : Table κ α) : Bool := t.entries.isEmpty

/-- The number of values that satisfy `p`. -/
def countValues (t : Table κ α) (p : α → Bool) : Nat := t.values.countP p

section Lookup

variable [DecidableEq κ]

/-- The value paired with `k` in a list of entries, the first one if there are several. -/
def findIn (k : κ) : List (κ × α) → Option α
  | [] => none
  | (k', a) :: rest => if k' = k then some a else findIn k rest

/-- A list of entries with `a` stored under `k`: in place if `k` occurs, at the end otherwise. -/
def putIn (k : κ) (a : α) : List (κ × α) → List (κ × α)
  | [] => [(k, a)]
  | (k', a') :: rest => if k' = k then (k, a) :: rest else (k', a') :: putIn k a rest

theorem mem_keys_putIn {k : κ} {a : α} {l : List (κ × α)} {x : κ} :
    x ∈ (putIn k a l).map Prod.fst ↔ x = k ∨ x ∈ l.map Prod.fst := by
  induction l with
  | nil => simp [putIn]
  | cons e rest ih =>
    obtain ⟨k', a'⟩ := e
    by_cases h : k' = k
    · subst h; simp [putIn]
    · simp only [putIn, if_neg h, List.map_cons, List.mem_cons, ih]
      constructor
      · rintro (h | h | h) <;> simp [h]
      · rintro (h | h | h) <;> simp [h]

theorem nodup_putIn {k : κ} {a : α} {l : List (κ × α)} (h : (l.map Prod.fst).Nodup) :
    ((putIn k a l).map Prod.fst).Nodup := by
  induction l with
  | nil => simp [putIn]
  | cons e rest ih =>
    obtain ⟨k', a'⟩ := e
    rw [List.map_cons, List.nodup_cons] at h
    by_cases hk : k' = k
    · subst hk
      simpa [putIn] using h
    · simp only [putIn, if_neg hk, List.map_cons, List.nodup_cons]
      refine ⟨fun hm => ?_, ih h.2⟩
      rcases mem_keys_putIn.1 hm with h' | h'
      · exact hk h'
      · exact h.1 h'

theorem findIn_putIn_self (k : κ) (a : α) (l : List (κ × α)) :
    findIn k (putIn k a l) = some a := by
  induction l with
  | nil => simp [putIn, findIn]
  | cons e rest ih =>
    obtain ⟨k', a'⟩ := e
    by_cases h : k' = k
    · simp [putIn, findIn, h]
    · simp [putIn, findIn, h, ih]

theorem findIn_putIn_ne {k k' : κ} (a : α) (l : List (κ × α)) (h : k' ≠ k) :
    findIn k' (putIn k a l) = findIn k' l := by
  induction l with
  | nil => simp [putIn, findIn, Ne.symm h]
  | cons e rest ih =>
    obtain ⟨k'', a''⟩ := e
    by_cases hk : k'' = k
    · subst hk
      simp [putIn, findIn, Ne.symm h]
    · simp [putIn, findIn, hk, ih]

/-- The value stored under `k`. -/
def find? (t : Table κ α) (k : κ) : Option α := findIn k t.entries

/-- Whether `k` is a key. -/
def contains (t : Table κ α) (k : κ) : Bool := (t.find? k).isSome

/-- Stores `a` under `k`, whether or not `k` was a key before. -/
def insert (t : Table κ α) (k : κ) (a : α) : Table κ α :=
  ⟨putIn k a t.entries, nodup_putIn t.nodup_keys⟩

/-- Removes the entry of `k`, if there is one. -/
def erase (t : Table κ α) (k : κ) : Table κ α :=
  ⟨t.entries.filter fun e => e.1 ≠ k, (List.filter_sublist.map _).nodup t.nodup_keys⟩

/-- Stores `a` under `k` unless `k` is a key already.  The flag says whether it was stored. -/
def tryAdd (t : Table κ α) (k : κ) (a : α) : Bool × Table κ α :=
  if t.contains k then (false, t) else (true, t.insert k a)

/-- Removes the entry of `k` if its value satisfies `p`, and returns that value. -/
def removeIf (t : Table κ α) (k : κ) (p : α → Bool) : Option α × Table κ α :=
  match t.find? k with
  | some a => if p a then (some a, t.erase k) else (none, t)
  | none => (none, t)

/-- Replaces the value under `k` by its image under `f`, if there is one. -/
def modify (t : Table κ α) (k : κ) (f : α → α) : Table κ α :=
  match t.find? k with
  | some a => t.insert k (f a)
  | none => t

theorem find?_empty (k : κ) : (empty : Table κ α).find? k = none := rfl

@[simp]
theorem find?_insert_self (t : Table κ α) (k : κ) (a : α) : (t.insert k a).find? k = some a :=
  findIn_putIn_self k a t.entries

theorem find?_insert_ne (t : Table κ α) {k k' : κ} (a : α) (h : k' ≠ k) :
    (t.insert k a).find? k' = t.find? k' :=
  findIn_putIn_ne a t.entries h

theorem findIn_filter_self (k : κ) (l : List (κ × α)) :
    findIn k (l.filter fun e => e.1 ≠ k) = none := by
  induction l with
  | nil => rfl
  | cons e rest ih =>
    by_cases h : e.1 = k
    · simpa [h] using ih
    · simpa [h, findIn] using ih

theorem findIn_filter_ne {k k' : κ} (l : List (κ × α)) (h : k' ≠ k) :
    findIn k' (l.filter fun e => e.1 ≠ k) = findIn k' l := by
  induction l with
  | nil => rfl
  | cons e rest ih =>
    by_cases hk : e.1 = k
    · have hne : ¬ e.1 = k' := fun h' => h (h'.symm.trans hk)
      simpa [hk, findIn, hne, Ne.symm h] using ih
    · by_cases hk' : e.1 = k'
      · simp [findIn, hk', h]
      · simpa [hk, findIn, hk'] using ih

@[simp]
theorem find?_erase_self (t : Table κ α) (k : κ) : (t.erase k).find? k = none :=
  findIn_filter_self k t.entries

theorem find?_erase_ne (t : Table κ α) {k k' : κ} (h : k' ≠ k) :
    (t.erase k).find? k' = t.find? k' :=
  findIn_filter_ne t.entries h

theorem findIn_eq_none_iff {k : κ} {l : List (κ × α)} :
    findIn k l = none ↔ k ∉ l.map Prod.fst := by
  induction l with
  | nil => simp [findIn]
  | cons e rest ih =>
    obtain ⟨k', a⟩ := e
    by_cases h : k' = k
    · simp [findIn, h]
    · simp only [findIn, if_neg h, ih, List.map_cons, List.mem_cons, not_or]
      exact ⟨fun hr => ⟨Ne.symm h, hr⟩, And.right⟩

/-- Nothing is found exactly under what is no key. -/
theorem find?_eq_none_iff {t : Table κ α} {k : κ} : t.find? k = none ↔ k ∉ t.keys :=
  findIn_eq_none_iff

/-- A table contains its keys. -/
theorem contains_iff {t : Table κ α} {k : κ} : t.contains k = true ↔ k ∈ t.keys := by
  unfold contains
  by_cases h : k ∈ t.keys
  · simp only [h, iff_true]
    cases hf : t.find? k with
    | none => exact absurd h (find?_eq_none_iff.1 hf)
    | some a => rfl
  · simp [find?_eq_none_iff.2 h, h]

/-- What is found has its key in the table. -/
theorem mem_keys_of_find? {t : Table κ α} {k : κ} {a : α} (h : t.find? k = some a) :
    k ∈ t.keys := by
  refine contains_iff.1 ?_
  rw [contains, h]
  rfl

/-- What is found is one of the values. -/
theorem mem_values_of_find? {t : Table κ α} {k : κ} {a : α} (h : t.find? k = some a) :
    a ∈ t.values := by
  have hin : ∀ l : List (κ × α), findIn k l = some a → a ∈ l.map Prod.snd := by
    intro l
    induction l with
    | nil => intro hl; exact absurd hl (by simp [findIn])
    | cons e rest ih =>
      obtain ⟨k', a'⟩ := e
      intro hl
      by_cases hk : k' = k
      · simp only [findIn, if_pos hk, Option.some.injEq] at hl
        exact List.mem_cons.2 (Or.inl hl.symm)
      · simp only [findIn, if_neg hk] at hl
        exact List.mem_cons_of_mem _ (ih hl)
  exact hin t.entries h

/-- Every entry is found under its key. -/
theorem find?_of_mem_entries {t : Table κ α} {k : κ} {a : α} (h : (k, a) ∈ t.entries) :
    t.find? k = some a := by
  have hfind : ∀ l : List (κ × α), (l.map Prod.fst).Nodup → (k, a) ∈ l → findIn k l = some a := by
    intro l
    induction l with
    | nil => intro _ hl; exact absurd hl List.not_mem_nil
    | cons e rest ih =>
      obtain ⟨k', a'⟩ := e
      intro hnodup hl
      rw [List.map_cons, List.nodup_cons] at hnodup
      rcases List.mem_cons.1 hl with heq | hrest
      · cases heq
        exact if_pos rfl
      · have hk : k' ≠ k := by
          rintro rfl
          exact hnodup.1 (List.mem_map.2 ⟨_, hrest, rfl⟩)
        rw [findIn, if_neg hk]
        exact ih hnodup.2 hrest
  exact hfind t.entries t.nodup_keys h

/-- Something is found under every key. -/
theorem exists_find?_of_mem {t : Table κ α} {k : κ} (h : k ∈ t.keys) :
    ∃ a, t.find? k = some a := by
  cases hf : t.find? k with
  | none => exact absurd h (find?_eq_none_iff.1 hf)
  | some a => exact ⟨a, rfl⟩

/-- Storing a value adds at most its key. -/
theorem mem_keys_insert {t : Table κ α} {k k' : κ} {a : α} :
    k' ∈ (t.insert k a).keys ↔ k' = k ∨ k' ∈ t.keys :=
  mem_keys_putIn

/-- Removing a key removes it alone. -/
theorem mem_keys_erase {t : Table κ α} {k k' : κ} :
    k' ∈ (t.erase k).keys ↔ k' ≠ k ∧ k' ∈ t.keys := by
  simp only [erase, keys, List.mem_map, List.mem_filter, decide_eq_true_eq]
  constructor
  · rintro ⟨e, ⟨he, hne⟩, rfl⟩
    exact ⟨hne, e, he, rfl⟩
  · rintro ⟨hne, e, he, rfl⟩
    exact ⟨e, ⟨he, hne⟩, rfl⟩

/-! ### Storing twice and storing what is there -/

theorem putIn_putIn (k : κ) (a b : α) (l : List (κ × α)) :
    putIn k b (putIn k a l) = putIn k b l := by
  induction l with
  | nil => simp [putIn]
  | cons e rest ih =>
    obtain ⟨k', a'⟩ := e
    by_cases h : k' = k
    · simp [putIn, h]
    · simp [putIn, h, ih]

theorem putIn_of_findIn {k : κ} {a : α} {l : List (κ × α)} (h : findIn k l = some a) :
    putIn k a l = l := by
  induction l with
  | nil => exact absurd h (by simp [findIn])
  | cons e rest ih =>
    obtain ⟨k', a'⟩ := e
    by_cases hk : k' = k
    · subst hk
      simp only [findIn, if_pos, Option.some.injEq] at h
      simp [putIn, h]
    · simp only [findIn, if_neg hk] at h
      simp [putIn, hk, ih h]

/-- The later of two values under one key stays. -/
theorem insert_insert (t : Table κ α) (k : κ) (a b : α) :
    (t.insert k a).insert k b = t.insert k b :=
  Table.ext (putIn_putIn k a b t.entries)

/-- Storing what is stored changes nothing. -/
theorem insert_of_find? {t : Table κ α} {k : κ} {a : α} (h : t.find? k = some a) :
    t.insert k a = t :=
  Table.ext (putIn_of_findIn h)

/-! ### Changing a value -/

theorem modify_of_find? {t : Table κ α} {k : κ} {a : α} (h : t.find? k = some a) (f : α → α) :
    t.modify k f = t.insert k (f a) := by
  rw [modify, h]

theorem modify_of_none {t : Table κ α} {k : κ} (h : t.find? k = none) (f : α → α) :
    t.modify k f = t := by
  rw [modify, h]

/-- The changed value is found under its key. -/
theorem find?_modify_self (t : Table κ α) (k : κ) (f : α → α) :
    (t.modify k f).find? k = (t.find? k).map f := by
  cases h : t.find? k with
  | none => rw [modify_of_none h, h]; rfl
  | some a => rw [modify_of_find? h, find?_insert_self]; rfl

theorem find?_modify_ne (t : Table κ α) {k k' : κ} (f : α → α) (hne : k' ≠ k) :
    (t.modify k f).find? k' = t.find? k' := by
  cases h : t.find? k with
  | none => rw [modify_of_none h]
  | some a => rw [modify_of_find? h, find?_insert_ne t _ hne]

/-- Changing a value adds and removes no key. -/
theorem mem_keys_modify {t : Table κ α} {k k' : κ} {f : α → α} :
    k' ∈ (t.modify k f).keys ↔ k' ∈ t.keys := by
  cases h : t.find? k with
  | none => rw [modify_of_none h]
  | some a =>
    rw [modify_of_find? h, mem_keys_insert]
    constructor
    · rintro (rfl | hk)
      · exact mem_keys_of_find? h
      · exact hk
    · exact Or.inr

/-- Two changes of one value are one change. -/
theorem modify_modify (t : Table κ α) (k : κ) (f g : α → α) :
    (t.modify k f).modify k g = t.modify k fun a => g (f a) := by
  cases h : t.find? k with
  | none => rw [modify_of_none h, modify_of_none h, modify_of_none h]
  | some a =>
    have hself : (t.modify k f).find? k = some (f a) := by rw [find?_modify_self, h]; rfl
    rw [modify_of_find? hself, modify_of_find? h, modify_of_find? h, insert_insert]

theorem filter_putIn (k : κ) (a : α) (l : List (κ × α)) :
    (putIn k a l).filter (fun e => e.1 ≠ k) = l.filter fun e => e.1 ≠ k := by
  induction l with
  | nil => simp [putIn]
  | cons e rest ih =>
    obtain ⟨k', a'⟩ := e
    by_cases h : k' = k
    · simp [putIn, h]
    · rw [putIn, if_neg h, List.filter_cons, List.filter_cons, ih]

/-- What is removed need not be changed before. -/
theorem erase_modify (t : Table κ α) (k : κ) (f : α → α) : (t.modify k f).erase k = t.erase k := by
  cases h : t.find? k with
  | none => rw [modify_of_none h]
  | some a =>
    rw [modify_of_find? h]
    exact Table.ext (filter_putIn k (f a) t.entries)

/-- Changing a value into itself changes nothing. -/
theorem modify_of_fixed {t : Table κ α} {k : κ} {f : α → α}
    (hf : ∀ a, t.find? k = some a → f a = a) : t.modify k f = t := by
  cases h : t.find? k with
  | none => rw [modify_of_none h]
  | some a => rw [modify_of_find? h, hf a h, insert_of_find? h]

/-- A key in use is not taken over. -/
theorem tryAdd_of_mem {t : Table κ α} {k : κ} (a : α) (h : k ∈ t.keys) :
    t.tryAdd k a = (false, t) := by
  simp [tryAdd, contains_iff.2 h]

/-- A free key is taken. -/
theorem tryAdd_of_not_mem {t : Table κ α} {k : κ} (a : α) (h : k ∉ t.keys) :
    t.tryAdd k a = (true, t.insert k a) := by
  have : t.contains k = false := by
    cases hc : t.contains k with
    | false => rfl
    | true => exact absurd (contains_iff.1 hc) h
  simp [tryAdd, this]

/-- Whatever is added, what was found before is found again. -/
theorem find?_tryAdd {t : Table κ α} {k k' : κ} {a : α} (a' : α) (h : t.find? k = some a) :
    (t.tryAdd k' a').2.find? k = some a := by
  by_cases hk : k' ∈ t.keys
  · rw [tryAdd_of_mem a' hk]
    exact h
  · have hne : k ≠ k' := by
      rintro rfl
      exact hk (mem_keys_of_find? h)
    rw [tryAdd_of_not_mem a' hk, find?_insert_ne _ _ hne]
    exact h

end Lookup

end Table

end ScriptHost
