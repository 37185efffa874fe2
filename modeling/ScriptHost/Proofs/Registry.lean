import ScriptHost.Bridge.Bindings
import Mathlib.Data.List.Nodup
import Mathlib.Logic.Function.Basic

/-!
# Registries of bindings

What a registry answers when it is asked is its `Directory`: the binding of each key, and the key of
each host function.  Both kinds of bindings are registered alike (`Item`), and each step of a
registration changes the directory in one place.

Registered one after the other, bindings are numbered in the order in which their host functions
first came (`Bindings.Lists`), so the keys of a registry are positions in its list.  Further
registrations make the list longer (`Bindings.Grows`) and take nothing back.
-/

namespace ScriptHost.Bridge

open Machine (Key)

/-- The two kinds of bindings. -/
inductive Kind where
  | ofClass
  | ofMethod
  deriving DecidableEq, Repr

/-- A binding of either kind. -/
inductive Item where
  | ofClass (binding : ClassBinding)
  | ofMethod (binding : MethodBinding)
  deriving DecidableEq, Repr

namespace Item

def kind : Item → Kind
  | .ofClass _ => .ofClass
  | .ofMethod _ => .ofMethod

/-- The host function that a binding is known by. -/
def delegate : Item → Delegate
  | .ofClass b => Compartment.classes.identity b
  | .ofMethod b => Compartment.methods.identity b

/-- What the registry knows a binding by. -/
def name (item : Item) : Kind × Delegate := (item.kind, item.delegate)

/-- One step of the registration of a binding of either kind. -/
def step : Item → Bindings → Stage → Stage × Bindings
  | .ofClass b => Compartment.classes.step b
  | .ofMethod b => Compartment.methods.step b

/-- The state of a registration after a number of further steps. -/
def run : Item → Nat → Stage × Bindings → Stage × Bindings
  | .ofClass b => Compartment.classes.run b
  | .ofMethod b => Compartment.methods.run b

/-- Registers a binding of either kind. -/
def register : Item → Bindings → (Key × Bool) × Bindings
  | .ofClass b => Compartment.classes.register b
  | .ofMethod b => Compartment.methods.register b

variable (item : Item) (r : Bindings)

theorem run_zero (stage : Stage) : item.run 0 (stage, r) = (stage, r) := by
  cases item <;> rfl

theorem run_succ (n : Nat) (stage : Stage) :
    item.run (n + 1) (stage, r) = item.run n (item.step r stage) := by
  cases item <;> rfl

/-- A registration is the sequence of its steps. -/
theorem register_of_run {r' : Bindings} {k : Key} {isNew : Bool}
    (h : item.run Compartment.stepBound (.search, r) = (.done k isNew, r')) :
    item.register r = ((k, isNew), r') := by
  cases item <;> (simp only [run] at h; simp only [register, Compartment.register, h])

end Item

/-- The binding of a key of a kind. -/
def Bindings.item? (r : Bindings) : Kind × Key → Option Item
  | (.ofClass, k) => (r.class? k).map .ofClass
  | (.ofMethod, k) => (r.method? k).map .ofMethod

/-- The number of bindings of a kind. -/
def Bindings.count (r : Bindings) : Kind → Nat
  | .ofClass => r.classCount
  | .ofMethod => r.methodCount

/-! ## Answers of a registry -/

/-- What a registry answers: its next key, the bindings of keys, and the keys of host functions. -/
@[ext]
structure Directory where
  nextKey : Key
  item? : Kind × Key → Option Item
  key? : Kind × Delegate → Option Key

namespace Directory

/-- A binding is stored under a key. -/
def store (v : Directory) (item : Item) (k : Key) : Directory :=
  { v with item? := Function.update v.item? (item.kind, k) (some item) }

/-- A key becomes known as the one of a binding. -/
def publish (v : Directory) (item : Item) (k : Key) : Directory :=
  { v with key? := Function.update v.key? item.name (some k) }

/-- What is stored under a key is removed. -/
def withdraw (v : Directory) (kind : Kind) (k : Key) : Directory :=
  { v with item? := Function.update v.item? (kind, k) none }

variable (v : Directory) (item : Item) (k : Key)

theorem store_self : (v.store item k).item? (item.kind, k) = some item :=
  Function.update_self _ _ _

theorem publish_self : (v.publish item k).key? item.name = some k :=
  Function.update_self _ _ _

theorem withdraw_self (kind : Kind) : (v.withdraw kind k).item? (kind, k) = none :=
  Function.update_self _ _ _

end Directory

/-- The answers of a registry. -/
def Bindings.directory (r : Bindings) : Directory where
  nextKey := r.nextKey
  item? := r.item?
  key?
    | (.ofClass, d) => r.classes.index.find? d
    | (.ofMethod, d) => r.methods.index.find? d

/-! ### Steps of a registration -/

namespace Bindings

variable (r : Bindings) (k : Key)

/-- Two directories are the same when they answer each question in the same way. -/
theorem directory_ext {v v' : Directory} (hnext : v.nextKey = v'.nextKey)
    (hitem : ∀ kind k, v.item? (kind, k) = v'.item? (kind, k))
    (hkey : ∀ kind d, v.key? (kind, d) = v'.key? (kind, d)) : v = v' :=
  Directory.ext hnext (funext fun _ => hitem _ _) (funext fun _ => hkey _ _)

theorem directory_insert_class (b : ClassBinding) :
    directory { r with classes := { r.classes with bound := r.classes.bound.insert k b } } =
      r.directory.store (.ofClass b) k := by
  refine directory_ext rfl (fun kind k' => ?_) fun _ _ => rfl
  cases kind <;> by_cases hk : k' = k <;>
    simp [directory, item?, class?, method?, Directory.store, Item.kind, hk, Table.find?_insert_ne]

theorem directory_insert_method (b : MethodBinding) :
    directory { r with methods := { r.methods with bound := r.methods.bound.insert k b } } =
      r.directory.store (.ofMethod b) k := by
  refine directory_ext rfl (fun kind k' => ?_) fun _ _ => rfl
  cases kind <;> by_cases hk : k' = k <;>
    simp [directory, item?, class?, method?, Directory.store, Item.kind, hk, Table.find?_insert_ne]

theorem directory_erase_class :
    directory { r with classes := { r.classes with bound := r.classes.bound.erase k } } =
      r.directory.withdraw .ofClass k := by
  refine directory_ext rfl (fun kind k' => ?_) fun _ _ => rfl
  cases kind <;> by_cases hk : k' = k <;>
    simp [directory, item?, class?, method?, Directory.withdraw, hk, Table.find?_erase_ne]

theorem directory_erase_method :
    directory { r with methods := { r.methods with bound := r.methods.bound.erase k } } =
      r.directory.withdraw .ofMethod k := by
  refine directory_ext rfl (fun kind k' => ?_) fun _ _ => rfl
  cases kind <;> by_cases hk : k' = k <;>
    simp [directory, item?, class?, method?, Directory.withdraw, hk, Table.find?_erase_ne]

theorem directory_index_class (b : ClassBinding) :
    directory { r with
      classes := { r.classes with index := r.classes.index.insert b.allocator k } } =
      r.directory.publish (.ofClass b) k := by
  refine directory_ext rfl (fun _ _ => rfl) fun kind d => ?_
  cases kind <;> by_cases hd : d = b.allocator <;>
    simp [directory, Directory.publish, Item.name, Item.kind, Item.delegate, Compartment.classes,
      hd, Table.find?_insert_ne]

theorem directory_index_method (b : MethodBinding) :
    directory { r with
      methods := { r.methods with index := r.methods.index.insert b.method k } } =
      r.directory.publish (.ofMethod b) k := by
  refine directory_ext rfl (fun _ _ => rfl) fun kind d => ?_
  cases kind <;> by_cases hd : d = b.method <;>
    simp [directory, Directory.publish, Item.name, Item.kind, Item.delegate, Compartment.methods,
      hd, Table.find?_insert_ne]

end Bindings

namespace Compartment

variable {β : Type} (s : Compartment β) (b : β) (r : Bindings) {k : Key}

theorem step_store (h : (s.catalog r).bound.find? k = none) : s.step b r (.store k) =
    (.publish k, s.setCatalog r { s.catalog r with bound := (s.catalog r).bound.insert k b }) := by
  simp only [step, Table.tryAdd_of_not_mem b (Table.find?_eq_none_iff.1 h)]

theorem step_publish_free (h : (s.catalog r).index.find? (s.identity b) = none) :
    s.step b r (.publish k) =
      (.done k true, s.setCatalog r
        { s.catalog r with index := (s.catalog r).index.insert (s.identity b) k }) := by
  simp only [step, Table.tryAdd_of_not_mem k (Table.find?_eq_none_iff.1 h), if_true]

theorem step_store_taken {b' : β} (h : (s.catalog r).bound.find? k = some b') :
    s.step b r (.store k) = (.publish k, s.setCatalog r (s.catalog r)) := by
  simp only [step, Table.tryAdd_of_mem b (Table.mem_keys_of_find? h)]

theorem step_publish_known {l : Key} (h : (s.catalog r).index.find? (s.identity b) = some l) :
    s.step b r (.publish k) = (.withdraw k, s.setCatalog r (s.catalog r)) := by
  simp only [step, Table.tryAdd_of_mem k (Table.mem_keys_of_find? h), Bool.false_eq_true, if_false]

end Compartment

namespace Item

variable (item : Item) (r : Bindings) {k : Key}

theorem step_search : item.step r .search =
    match r.directory.key? item.name with
    | some k => (.done k false, r)
    | none => (.mint, r) := by
  cases item <;> rfl

theorem step_yieldTo : item.step r (.yieldTo k) =
    (.done ((r.directory.key? item.name).getD k) false, r) := by
  cases item <;> rfl

theorem step_store (h : r.item? (item.kind, k) = none) :
    ∃ r', item.step r (.store k) = (.publish k, r') ∧
      r'.directory = r.directory.store item k := by
  cases item with
  | ofClass b =>
    exact ⟨_, Compartment.classes.step_store b r (Option.map_eq_none_iff.1 h),
      r.directory_insert_class k b⟩
  | ofMethod b =>
    exact ⟨_, Compartment.methods.step_store b r (Option.map_eq_none_iff.1 h),
      r.directory_insert_method k b⟩

/-- What is stored under a key is not replaced. -/
theorem step_store_taken {b : Item} (h : r.item? (item.kind, k) = some b) :
    item.step r (.store k) = (.publish k, r) := by
  cases item with
  | ofClass new =>
    obtain ⟨_, hold, -⟩ := Option.map_eq_some_iff.1 h
    exact Compartment.classes.step_store_taken new r hold
  | ofMethod new =>
    obtain ⟨_, hold, -⟩ := Option.map_eq_some_iff.1 h
    exact Compartment.methods.step_store_taken new r hold

theorem step_publish_free (h : r.directory.key? item.name = none) :
    ∃ r', item.step r (.publish k) = (.done k true, r') ∧
      r'.directory = r.directory.publish item k := by
  cases item with
  | ofClass b =>
    exact ⟨_, Compartment.classes.step_publish_free b r h, r.directory_index_class k b⟩
  | ofMethod b =>
    exact ⟨_, Compartment.methods.step_publish_free b r h, r.directory_index_method k b⟩

theorem step_publish_known {l : Key} (h : r.directory.key? item.name = some l) :
    item.step r (.publish k) = (.withdraw k, r) := by
  cases item with
  | ofClass b => exact Compartment.classes.step_publish_known b r h
  | ofMethod b => exact Compartment.methods.step_publish_known b r h

theorem step_withdraw : ∃ r', item.step r (.withdraw k) = (.yieldTo k, r') ∧
    r'.directory = r.directory.withdraw item.kind k := by
  cases item with
  | ofClass b => exact ⟨_, rfl, r.directory_erase_class k⟩
  | ofMethod b => exact ⟨_, rfl, r.directory_erase_method k⟩

theorem step_mint : ∃ r', item.step r .mint = (.store r.nextKey, r') ∧
    r'.directory = { r.directory with nextKey := r.nextKey + 1 } := by
  cases item <;> exact ⟨_, rfl, rfl⟩

theorem run_done (n : Nat) (isNew : Bool) : item.run n (.done k isNew, r) = (.done k isNew, r) := by
  induction n with
  | zero => exact item.run_zero r _
  | succ n ih =>
    have hstep : item.step r (.done k isNew) = (.done k isNew, r) := by
      cases item <;> rfl
    rw [run_succ, hstep, ih]

/-! ### Whole registrations -/

/-- A host function that has a key gets no other one. -/
theorem register_known (h : r.directory.key? item.name = some k) :
    item.register r = ((k, false), r) := by
  refine item.register_of_run r ?_
  have hsearch : item.step r .search = (.done k false, r) := by
    rw [step_search, h]
  rw [Compartment.stepBound, run_succ, hsearch, run_done]

/-- A host function without a key gets the next one, and its binding is stored under it unless
something is there already. -/
theorem register_new (h : r.directory.key? item.name = none) :
    ∃ r₀ r₁ r', r₀.directory = { r.directory with nextKey := r.nextKey + 1 } ∧
      item.step r₀ (.store r.nextKey) = (.publish r.nextKey, r₁) ∧
      item.register r = ((r.nextKey, true), r') ∧
      r'.directory = r₁.directory.publish item r.nextKey := by
  have hsearch : item.step r .search = (.mint, r) := by
    rw [step_search, h]
  obtain ⟨r₀, hmint, hr₀⟩ := item.step_mint r
  have hkey₀ : r₀.directory.key? = r.directory.key? := by rw [hr₀]
  obtain ⟨r₁, hstore, hkey₁⟩ : ∃ r₁, item.step r₀ (.store r.nextKey) = (.publish r.nextKey, r₁) ∧
      r₁.directory.key? = r₀.directory.key? := by
    cases hb : r₀.item? (item.kind, r.nextKey) with
    | none =>
      obtain ⟨r₁, hstore, hr₁⟩ := item.step_store r₀ hb
      exact ⟨r₁, hstore, by rw [hr₁]; rfl⟩
    | some b => exact ⟨r₀, item.step_store_taken r₀ hb, rfl⟩
  have hunknown : r₁.directory.key? item.name = none := by rw [hkey₁, hkey₀, h]
  obtain ⟨r', hpublish, hr'⟩ := item.step_publish_free r₁ hunknown (k := r.nextKey)
  refine ⟨r₀, r₁, r', hr₀, hstore, item.register_of_run r ?_, hr'⟩
  rw [Compartment.stepBound, run_succ, hsearch, run_succ, hmint, run_succ, hstore, run_succ,
    hpublish, run_done]

/-- **A registration takes nothing back.** -/
theorem item?_register {p : Kind × Key} {b : Item} (hb : r.item? p = some b) :
    (item.register r).2.item? p = some b := by
  cases h : r.directory.key? item.name with
  | some k =>
    rw [item.register_known r h]
    exact hb
  | none =>
    obtain ⟨r₀, r₁, r', hr₀, hstore, hregister, hr'⟩ := item.register_new r h
    have hb₀ : r₀.item? p = some b := (congrFun (congrArg Directory.item? hr₀) p).trans hb
    have hb₁ : r₁.item? p = some b := by
      cases hold : r₀.item? (item.kind, r.nextKey) with
      | some b' =>
        cases (item.step_store_taken r₀ hold).symm.trans hstore
        exact hb₀
      | none =>
        obtain ⟨r₂, hstore', hr₂⟩ := item.step_store r₀ hold
        cases hstore'.symm.trans hstore
        refine (congrFun (congrArg Directory.item? hr₂) p).trans ?_
        refine (Function.update_of_ne ?_ _ _).trans hb₀
        rintro rfl
        exact absurd (hold.symm.trans hb₀) (by simp)
    rw [hregister]
    exact (congrFun (congrArg Directory.item? hr') p).trans hb₁

end Item

/-! ## Any number of registrations -/

namespace Bindings

/-- The registry behind the registration of items, one after the other. -/
def enroll (items : List Item) (r : Bindings) : Bindings :=
  items.foldl (fun r item => (item.register r).2) r

/-- Nothing happens to a registry but registrations. -/
def Grows (r r' : Bindings) : Prop := ∃ items, r' = r.enroll items

variable {r r' r'' : Bindings}

theorem Grows.refl (r : Bindings) : r.Grows r := ⟨[], rfl⟩

theorem Grows.of_eq (h : r' = r) : r.Grows r' := ⟨[], h⟩

theorem Grows.register (r : Bindings) (item : Item) : r.Grows (item.register r).2 := ⟨[item], rfl⟩

theorem Grows.trans (h : r.Grows r') (h' : r'.Grows r'') : r.Grows r'' := by
  obtain ⟨items, rfl⟩ := h
  obtain ⟨items', rfl⟩ := h'
  exact ⟨items ++ items', List.foldl_append.symm⟩

/-- **What is bound stays bound**, to the same binding. -/
theorem Grows.item? (h : r.Grows r') {p : Kind × Key} {b : Item} (hb : r.item? p = some b) :
    r'.item? p = some b := by
  obtain ⟨items, rfl⟩ := h
  induction items generalizing r with
  | nil => exact hb
  | cons item rest ih => exact ih (item.item?_register r hb)

theorem Grows.class? (h : r.Grows r') {k : Key} {b : ClassBinding} (hb : r.class? k = some b) :
    r'.class? k = some b := by
  have hitem : r.item? (.ofClass, k) = some (.ofClass b) := Option.map_eq_some_iff.2 ⟨b, hb, rfl⟩
  obtain ⟨b', hb', heq⟩ := Option.map_eq_some_iff.1 (h.item? hitem)
  cases heq
  exact hb'

theorem Grows.method? (h : r.Grows r') {k : Key} {b : MethodBinding}
    (hb : r.method? k = some b) : r'.method? k = some b := by
  have hitem : r.item? (.ofMethod, k) = some (.ofMethod b) := Option.map_eq_some_iff.2 ⟨b, hb, rfl⟩
  obtain ⟨b', hb', heq⟩ := Option.map_eq_some_iff.1 (h.item? hitem)
  cases heq
  exact hb'

/-- The `k`-th of some items, counted from one. -/
def numbered? (items : List Item) : Key → Option Item
  | 0 => none
  | k + 1 => items[k]?

theorem numbered?_append (items : List Item) (item : Item) (k : Key) :
    numbered? (items ++ [item]) k =
      if k = items.length + 1 then some item else numbered? items k := by
  cases k with
  | zero => rfl
  | succ k =>
    by_cases h : k = items.length
    · subst h
      simp [numbered?]
    · rw [if_neg (fun hk => h (Nat.succ.inj hk)), numbered?, numbered?, List.getElem?_append]
      split
      · rfl
      · rw [List.getElem?_eq_none (by simp; omega), List.getElem?_eq_none (by omega)]

theorem numbered?_eq_none {items : List Item} {k : Key} (h : items.length < k) :
    numbered? items k = none := by
  cases k with
  | zero => rfl
  | succ k => exact List.getElem?_eq_none (Nat.le_of_lt_succ h)

/-- The registry has the items as its bindings, numbered in their order, and no two of them for the
same host function. -/
structure Lists (r : Bindings) (items : List Item) : Prop where
  names : (items.map Item.name).Nodup
  next : r.nextKey = items.length + 1
  bound {kind : Kind} {k : Key} {b : Item} :
    r.item? (kind, k) = some b ↔ numbered? items k = some b ∧ b.kind = kind
  known {name : Kind × Delegate} {k : Key} :
    r.directory.key? name = some k ↔ ∃ b, numbered? items k = some b ∧ b.name = name

theorem lists_empty : Bindings.empty.Lists [] where
  names := List.nodup_nil
  next := rfl
  bound {kind k b} := by
    cases k <;> cases kind <;>
      simp [numbered?, item?, empty, class?, method?, Catalog.empty, Table.find?_empty]
  known {name k} := by
    obtain ⟨_ | _, d⟩ := name <;> cases k <;>
      simp [numbered?, directory, empty, Catalog.empty, Table.find?_empty]

/-- Numbers go from one to the length. -/
theorem exists_numbered? {items : List Item} {k : Key} :
    (∃ b, numbered? items k = some b) ↔ 1 ≤ k ∧ k ≤ items.length := by
  cases k with
  | zero => simp [numbered?]
  | succ k => simp [numbered?, Nat.succ_le_iff, ← Option.isSome_iff_exists]

theorem mem_of_numbered? {items : List Item} {k : Key} {b : Item}
    (h : numbered? items k = some b) : b ∈ items := by
  cases k with
  | zero => cases h
  | succ k => exact List.mem_of_getElem? h

section Register

variable {items : List Item} (h : r.Lists items) {item : Item}
include h

theorem Lists.item?_next (kind : Kind) : r.item? (kind, items.length + 1) = none := by
  cases hb : r.item? (kind, items.length + 1) with
  | none => rfl
  | some b =>
    rw [h.bound, numbered?_eq_none (Nat.lt_succ_self _)] at hb
    exact absurd hb.1 (by simp)

theorem Lists.not_mem_names (hkey : r.directory.key? item.name = none) :
    item.name ∉ items.map Item.name := by
  intro hin
  obtain ⟨b, hb, hname⟩ := List.mem_map.1 hin
  obtain ⟨i, hi⟩ := List.getElem?_of_mem hb
  have hnumber : numbered? items (i + 1) = some b := hi
  have hknown := h.known.2 ⟨b, hnumber, hname⟩
  exact absurd (hkey.symm.trans hknown) (by simp)

/-- The registry behind a binding that it has stored and made known under its next key. -/
theorem Lists.append (hnew : item.name ∉ items.map Item.name)
    (hd : r'.directory =
      (Directory.store { r.directory with nextKey := r.nextKey + 1 } item r.nextKey).publish
        item r.nextKey) : r'.Lists (items ++ [item]) where
  names := by
    rw [List.map_append, List.map_singleton]
    refine List.nodup_append.2 ⟨h.names, List.nodup_singleton _, ?_⟩
    rintro _ ha _ hb rfl
    exact hnew (List.mem_singleton.1 hb ▸ ha)
  next := by
    rw [List.length_append, List.length_singleton, ← h.next]
    exact congrArg Directory.nextKey hd
  bound {kind k b} := by
    have hitem : r'.item? (kind, k) =
        if (kind, k) = (item.kind, items.length + 1) then some item else r.item? (kind, k) := by
      rw [← h.next, ← Function.update_apply]
      exact congrFun (congrArg Directory.item? hd) (kind, k)
    rw [hitem, numbered?_append]
    by_cases hk : k = items.length + 1
    · subst hk
      rw [if_pos rfl]
      split
      · next heq =>
        rw [(Prod.mk.inj heq).1]
        exact ⟨fun hb => ⟨hb, by rw [Option.some.inj hb]⟩, And.left⟩
      · next hne =>
        rw [h.item?_next]
        refine ⟨fun hb => (by cases hb), fun ⟨hb, hkind⟩ => absurd ?_ hne⟩
        rw [← hkind, Option.some.inj hb]
    · rw [if_neg (fun heq => hk (Prod.mk.inj heq).2), if_neg hk]
      exact h.bound
  known {name k} := by
    have hkeyed : r'.directory.key? name =
        if name = item.name then some (items.length + 1) else r.directory.key? name := by
      rw [← h.next, ← Function.update_apply]
      exact congrFun (congrArg Directory.key? hd) name
    rw [hkeyed]
    by_cases hname : name = item.name
    · subst hname
      rw [if_pos rfl]
      constructor
      · intro hk
        obtain rfl := Option.some.inj hk
        exact ⟨item, by rw [numbered?_append, if_pos rfl], rfl⟩
      · rintro ⟨b, hb, hbname⟩
        rw [numbered?_append] at hb
        split at hb
        · next hk => rw [hk]
        · exact absurd (List.mem_map.2 ⟨b, mem_of_numbered? hb, hbname⟩) hnew
    · rw [if_neg hname, h.known]
      refine exists_congr fun b => and_congr_left fun hbname => ?_
      rw [numbered?_append]
      split
      · next hk =>
        rw [hk, numbered?_eq_none (Nat.lt_succ_self _)]
        refine ⟨fun hb => (by cases hb), fun hb => absurd ?_ hname⟩
        rw [← hbname, Option.some.inj hb]
      · rfl

/-- **A host function that the list has keeps its number, and a new one gets the next.** -/
theorem Lists.register (item : Item) :
    (∃ k b, numbered? items k = some b ∧ b.name = item.name ∧ item.register r = ((k, false), r)) ∨
    (item.name ∉ items.map Item.name ∧
      ∃ r', item.register r = ((items.length + 1, true), r') ∧ r'.Lists (items ++ [item])) := by
  cases hkey : r.directory.key? item.name with
  | some k =>
    obtain ⟨b, hb, hname⟩ := h.known.1 hkey
    exact .inl ⟨k, b, hb, hname, item.register_known r hkey⟩
  | none =>
    obtain ⟨r₀, r₁, r', hr₀, hstore, hregister, hr'⟩ := item.register_new r hkey
    have hfree : r₀.item? (item.kind, r.nextKey) = none := by
      have hsame : r₀.item? = r.item? := congrArg Directory.item? hr₀
      rw [hsame, h.next, h.item?_next]
    obtain ⟨r₁', hstore', hr₁⟩ := item.step_store r₀ hfree
    cases hstore'.symm.trans hstore
    have hnew := h.not_mem_names hkey
    exact .inr ⟨hnew, r', h.next ▸ hregister, h.append hnew (by rw [hr', hr₁, hr₀])⟩

end Register

/-- **Whatever is registered, a list is only made longer.** -/
theorem Lists.grows {items : List Item} (h : r.Lists items) (hgrows : r.Grows r') :
    ∃ more, r'.Lists (items ++ more) := by
  obtain ⟨new, rfl⟩ := hgrows
  induction new generalizing r items with
  | nil => exact ⟨[], by rwa [List.append_nil]⟩
  | cons item rest ih =>
    rcases h.register item with ⟨k, b, -, -, hregister⟩ | ⟨-, r', hregister, hr'⟩
    · refine ih (r := (item.register r).2) ?_
      rwa [hregister]
    · obtain ⟨more, hmore⟩ := ih hr'
      refine ⟨item :: more, ?_⟩
      rw [List.append_cons]
      have hfirst : enroll (item :: rest) r = enroll rest (item.register r).2 := rfl
      rwa [hfirst, hregister]

/-- The keys of a kind, each once. -/
theorem exists_keys (r : Bindings) (kind : Kind) : ∃ keys : List Key, keys.Nodup ∧
    keys.length = r.count kind ∧ ∀ k, k ∈ keys ↔ ∃ b, r.item? (kind, k) = some b := by
  have hkeys : ∀ {β : Type} (t : Table Key β) (f : β → Item) (k : Key),
      k ∈ t.keys ↔ ∃ b, (t.find? k).map f = some b := by
    intro β t f k
    rw [← Table.contains_iff, Table.contains, ← Option.isSome_iff_exists, Option.isSome_map]
  cases kind with
  | ofClass =>
    exact ⟨r.classes.bound.keys, r.classes.bound.nodup_keys, List.length_map _, hkeys _ _⟩
  | ofMethod =>
    exact ⟨r.methods.bound.keys, r.methods.bound.nodup_keys, List.length_map _, hkeys _ _⟩

/-- The number of bindings is the length of the list. -/
theorem Lists.count_eq {items : List Item} (h : r.Lists items) :
    r.classCount + r.methodCount = items.length := by
  obtain ⟨classKeys, hclasses, hclassCount, hclass⟩ := r.exists_keys .ofClass
  obtain ⟨methodKeys, hmethods, hmethodCount, hmethod⟩ := r.exists_keys .ofMethod
  have hperm : (classKeys ++ methodKeys).Perm (List.range' 1 items.length) := by
    refine (List.perm_ext_iff_of_nodup ?_ List.nodup_range').2 fun k => ?_
    · refine List.nodup_append.2 ⟨hclasses, hmethods, ?_⟩
      rintro k hk _ hk' rfl
      obtain ⟨b, hb⟩ := (hclass k).1 hk
      obtain ⟨b', hb'⟩ := (hmethod k).1 hk'
      rw [h.bound] at hb hb'
      obtain rfl : b = b' := Option.some.inj (hb.1.symm.trans hb'.1)
      exact absurd (hb.2.symm.trans hb'.2) (by simp)
    · rw [List.mem_append, hclass, hmethod, List.mem_range'_1, Nat.add_comm, Nat.lt_succ_iff,
        ← exists_numbered?]
      constructor
      · rintro (⟨b, hb⟩ | ⟨b, hb⟩) <;> exact ⟨b, (h.bound.1 hb).1⟩
      · rintro ⟨b, hb⟩
        cases hkind : b.kind with
        | ofClass => exact .inl ⟨b, h.bound.2 ⟨hb, hkind⟩⟩
        | ofMethod => exact .inr ⟨b, h.bound.2 ⟨hb, hkind⟩⟩
  have hlength := hperm.length_eq
  rw [List.length_append, List.length_range', hclassCount, hmethodCount] at hlength
  exact hlength

end Bindings

end ScriptHost.Bridge
