import ScriptHost.Proofs.Checks
import ScriptHost.Proofs.EntryPoints

/-!
# Accessors reach what they ask for

An `Accessor` is an operation on slots as the checks of its operands, the entry point that it calls
behind them, and what it makes of the result.  Whenever its checks let it through, the entry point does
what it is there for; wherever the entry point would not, the checks end with an error, or with the
answer that the accessor has for this case, and the entry point is not called
(`Setting.accessors_effective`).
-/

namespace ScriptHost.Bridge

open Machine (State Value ObjectId)
open Number (Double)

variable {η α β γ : Type}

/-! ## Accessors -/

/-- An operation on slots of a machine.  Its checks let it through to the machine at an address, or know
its answer already. -/
structure Accessor (η β : Type) where
  {γ : Type}
  vm : VmId
  checks : Act η (Except β Address)
  entry : EntryPoint γ
  finish : γ → Act η β

/-- Checks the operands, and calls the entry point behind them. -/
def Accessor.run (x : Accessor η β) : Act η β := do
  match ← x.checks with
  | .ok a => x.finish (← x.entry.call a)
  | .error answer => return answer

/-- Checks that know no answer. -/
def passing (x : Act η Address) : Act η (Except β Address) := .ok <$> x

namespace Slot

/-- The checks of a slot that is to hold a type. -/
def holding (s : Slot) (expected : SlotType) (operation : String) : Act η Address := do
  let a ← s.checked operation
  s.expectType a expected
  return a

/-- The checks for a text, which is `none` for null. -/
def holdingText (s : Slot) : Act η (Except (Option String) Address) := do
  let a ← s.checked "get_optional_string"
  if (← Native.slotType a s.index) = .null then return .error none
  else passing (s.holding .string "get_string")

/-- The checks for a foreign object.  What is none has no payload. -/
def holdingForeign (s : Slot) : Act η (Except Bool Address) := do
  let a ← s.checked "is_foreign"
  if (← Native.slotType a s.index) ≠ .foreign then return .error false
  else passing (s.holding .foreign "get_foreign_ptr")

/-- The checks of a list operation at one of the positions that a list of a length has for it. -/
def listPosition (s element : Slot) (index : Int) (upper : Nat → Nat) (operation : String) :
    Act η Address := do
  let (a, count) ← s.listOperands element operation
  checkListIndex index (upper count) count
  return a

/-- The text of bytes. -/
def decoded (bytes : List UInt8) : Act η String :=
  match Text.Utf8.decode bytes with
  | .ok text => return text
  | .error failure => Run.fault (.utf8Conversion failure)

/-- The host object that is attached to a data block. -/
def objectAt (s : Slot) (t : PayloadType) (block : Address) : Act η t.Carrier := do
  let names ← Run.gets World.typeNames
  return (← Run.ofExcept ((← s.payloads).object names block t)).2

/-- The host value that is attached to a data block. -/
def valueAt (s : Slot) (t : PayloadType) (block : Address) : Act η t.Carrier := do
  let names ← Run.gets World.typeNames
  Run.ofExcept ((← s.payloads).value names block t)

/-- Overwrites the host value that is attached to a data block. -/
def assignAt (s : Slot) (p : Payload) (block : Address) : Act η Unit := do
  let w ← Run.get
  let payloads ← Run.ofExcept ((w.serviceOf s.vm).payloads.setValue w.typeNames block p)
  Run.modify fun w => w.modifyService (w.vm s.vm).service fun service => { service with payloads }

end Slot

namespace Accessor

/-- An accessor of a slot that need only exist. -/
def onSlot (s : Slot) (operation : String) (entry : EntryPoint γ) (finish : γ → Act η β) :
    Accessor η β :=
  ⟨s.vm, passing (s.checked operation), entry, finish⟩

/-- An accessor of a slot that holds a value of a type. -/
def onValue (s : Slot) (expected : SlotType) (operation : String) (entry : EntryPoint γ)
    (finish : γ → Act η β) : Accessor η β :=
  ⟨s.vm, passing (s.holding expected operation), entry, finish⟩

/-- An accessor of a position of a list, and of a slot for the element. -/
def onList (s element : Slot) (index : Int) (upper : Nat → Nat) (operation : String)
    (entry : EntryPoint Unit) : Accessor η Unit :=
  ⟨s.vm, passing (s.listPosition element index upper operation), entry, pure⟩

/-- An accessor of a key of a map, and of a slot for the value. -/
def onMap (s key : Slot) (other? : Option Slot) (operation : String) (entry : EntryPoint β) :
    Accessor η β :=
  ⟨s.vm, passing (s.mapOperands key other? operation), entry, pure⟩

end Accessor

/-- The slot, list, map and foreign operations as accessors. -/
def Access.accessor? : Access β → Option (Accessor η β)
  | .getBool s => some (.onValue s .bool "get_bool" (.slotBool s.index) pure)
  | .setBool s b => some (.onSlot s "set_bool" (.setSlot s.index (.bool b)) pure)
  | .getDouble s => some (.onValue s .number "get_double" (.slotDouble s.index) pure)
  | .setDouble s x => some (.onSlot s "set_double" (.setSlot s.index (.number x)) pure)
  | .getInt s =>
    some (.onValue s .number "get_double" (.slotDouble s.index) fun x => pure x.toInt32)
  | .setInt s i => some (.onSlot s "set_double" (.setSlot s.index (.number (.ofInt i))) pure)
  | .getFloat s =>
    some (.onValue s .number "get_double" (.slotDouble s.index) fun x => pure x.toSingle)
  | .setFloat s x => some (.onSlot s "set_double" (.setSlot s.index (.number (.ofSingle x))) pure)
  | .setNull s => some (.onSlot s "set_null" (.setSlot s.index .null) pure)
  | .getString s => some (.onValue s .string "get_string" (.slotBytes s.index) Slot.decoded)
  | .getOptionalString s =>
    some ⟨s.vm, s.holdingText, .slotBytes s.index, fun bytes => some <$> Slot.decoded bytes⟩
  | .getBytes s => some (.onValue s .string "get_bytes" (.slotBytes s.index) pure)
  | .setBytes s bytes => some (.onSlot s "set_bytes" (.setSlot s.index (.string bytes)) pure)
  | .setString s text =>
    some (.onSlot s "set_bytes" (.setSlot s.index (.string (Text.Utf8.encode text))) pure)
  | .setNewList s => some (.onSlot s "set_new_list" (.newList s.index) pure)
  | .listCount s => some (.onValue s .list "list_count" (.listCount s.index) pure)
  | .getListElement s index element =>
    some (.onList s element index (fun count => count) "get_list_element"
      (.getElement s.index index element.index))
  | .setListElement s index element =>
    some (.onList s element index (fun count => count) "set_list_element"
      (.setElement s.index index element.index))
  | .insertInList s index element =>
    some (.onList s element index (fun count => count + 1) "insert_in_list"
      (.insertElement s.index index element.index))
  | .setNewMap s => some (.onSlot s "set_new_map" (.newMap s.index) pure)
  | .mapCount s => some (.onValue s .map "map_count" (.mapCount s.index) pure)
  | .mapContainsKey s key =>
    some (.onMap s key none "map_contains_key" (.containsKey s.index key.index))
  | .getMapValue s key value =>
    some (.onMap s key (some value) "get_map_value" (.getEntry s.index key.index value.index))
  | .setMapValue s key value =>
    some (.onMap s key (some value) "set_map_value" (.setEntry s.index key.index value.index))
  | .removeMapValue s key removed =>
    some (.onMap s key (some removed) "remove_map_value"
      (.dropEntry s.index key.index removed.index))
  | .getForeignPtr s => some (.onValue s .foreign "get_foreign_ptr" (.slotForeign s.index) pure)
  | .getForeignObject s t =>
    some (.onValue s .foreign "get_foreign_ptr" (.slotForeign s.index) (s.objectAt t))
  | .getForeignStruct s t =>
    some (.onValue s .foreign "get_foreign_ptr" (.slotForeign s.index) (s.valueAt t))
  | .isForeign s t =>
    some ⟨s.vm, s.holdingForeign, .slotForeign s.index,
      fun block => do return (← s.payloads).is block t⟩
  | .ensureSlots _ _ | .slotCount _ | .hasModule _ _ | .hasVariable _ _ _ | .getVariable _ _ _ _
  | .abortFiber _ _ | .abortFiberWithMessage _ _ | .slotType _ | .isNull _ => none

/-- An operation as an accessor, if it is one. -/
def Operation.accessor? [Observer η] : Operation η β → Option (Accessor (Host η) β)
  | .access x => x.accessor?
  | .getHandle s =>
    some (.onSlot s "get_handle" (.slotHandle s.index) fun made? =>
      recordingHandle (CallHandle.adopt s.vm made? "get_handle"))
  | .setForeignStruct s p =>
    some (.onValue s .foreign "get_foreign_ptr" (.slotForeign s.index) (s.assignAt p))
  | _ => none

/-- The answer that an operation has for what is not there. -/
def Operation.answer? : Operation η β → Option β
  | .access (.getOptionalString _) => some none
  | .access (.isForeign _ _) => some false
  | _ => none

/-! ### Accessors are what they stand for -/

theorem Accessor.run_passing {vm : VmId} (checks : Act η Address) (entry : EntryPoint γ)
    (finish : γ → Act η β) :
    (⟨vm, passing checks, entry, finish⟩ : Accessor η β).run =
      checks >>= fun a => entry.call a >>= finish := by
  simp only [Accessor.run, passing, map_eq_pure_bind, bind_assoc, pure_bind]

theorem Accessor.run_onSlot (s : Slot) (operation : String) (entry : EntryPoint β) :
    (Accessor.onSlot s operation entry pure : Accessor η β).run =
      s.checked operation >>= entry.call := by
  simp only [Accessor.onSlot, Accessor.run_passing, bind_pure]

theorem Accessor.run_onValue (s : Slot) (expected : SlotType) (operation : String)
    (entry : EntryPoint γ) (finish : γ → Act η β) :
    (Accessor.onValue s expected operation entry finish).run = (do
      let a ← s.checked operation
      s.expectType a expected
      finish (← entry.call a)) := by
  simp only [Accessor.onValue, Accessor.run_passing, Slot.holding, bind_assoc, pure_bind]

theorem Accessor.run_onList (s element : Slot) (index : Int) (upper : Nat → Nat)
    (operation : String) (entry : EntryPoint Unit) :
    (Accessor.onList s element index upper operation entry : Accessor η Unit).run = (do
      let (a, count) ← s.listOperands element operation
      Slot.checkListIndex index (upper count) count
      entry.call a) := by
  simp only [Accessor.onList, Accessor.run_passing, Slot.listPosition, bind_assoc, pure_bind,
    bind_pure]

theorem Accessor.run_onMap (s key : Slot) (other? : Option Slot) (operation : String)
    (entry : EntryPoint β) :
    (Accessor.onMap s key other? operation entry : Accessor η β).run =
      s.mapOperands key other? operation >>= entry.call := by
  simp only [Accessor.onMap, Accessor.run_passing, bind_pure]

theorem Access.run_eq {x : Access β} {acc : Accessor η β} (h : x.accessor? = some acc) :
    (x.run : Act η β) = acc.run := by
  cases x with
  | setBool | setDouble | setInt | setFloat | setNull | setBytes | setString | setNewList
  | setNewMap =>
    cases h
    rw [Accessor.run_onSlot]
    rfl
  | getBool | getDouble | getBytes | listCount | mapCount | getForeignPtr =>
    cases h
    simp only [Accessor.run_onValue, bind_pure]
    rfl
  | getInt | getFloat | getString | getForeignObject | getForeignStruct =>
    cases h
    rw [Accessor.run_onValue]
    simp only [Access.run, Slot.getInt, Slot.getFloat, Slot.getDouble, Slot.getString,
      Slot.getForeignObject, Slot.getForeignStruct, Slot.getForeignPtr, bind_assoc]
    rfl
  | getListElement | setListElement | insertInList =>
    cases h
    rw [Accessor.run_onList]
    rfl
  | mapContainsKey | getMapValue | setMapValue | removeMapValue =>
    cases h
    rw [Accessor.run_onMap]
    rfl
  | getOptionalString s =>
    cases h
    have htext : (s.getString : Act η String) = (Accessor.onValue s .string "get_string"
        (.slotBytes s.index) Slot.decoded).run := by
      rw [Accessor.run_onValue]
      rfl
    unfold Access.run Slot.getOptionalString Accessor.run Slot.holdingText
    simp only [htext, Accessor.onValue, Accessor.run_passing, bind_assoc]
    refine congrArg _ (funext fun a => congrArg _ (funext fun actual => ?_))
    split
    · rw [pure_bind]
    · simp only [passing, map_eq_pure_bind, bind_assoc, pure_bind]
  | isForeign s t =>
    cases h
    have hblock : (s.getForeignPtr : Act η Address) = (Accessor.onValue s .foreign
        "get_foreign_ptr" (.slotForeign s.index) pure).run := by
      simp only [Accessor.run_onValue, bind_pure]
      rfl
    unfold Access.run Slot.isForeign Accessor.run Slot.holdingForeign
    simp only [hblock, Accessor.onValue, Accessor.run_passing, bind_pure, bind_assoc]
    refine congrArg _ (funext fun a => congrArg _ (funext fun actual => ?_))
    split
    · rw [pure_bind]
    · simp only [passing, map_eq_pure_bind, bind_assoc, pure_bind]
  | ensureSlots | slotCount | hasModule | hasVariable | getVariable | abortFiber
  | abortFiberWithMessage | slotType | isNull => cases h

section

variable [Observer η] {engines : List Address → Engine (Host η)} {active : List Address}

/-- An operation that is an accessor is its checks, its entry point, and what it makes of the
result. -/
theorem Operation.run_eq {op : Operation η β} {acc : Accessor (Host η) β}
    (h : op.accessor? = some acc) : op.run engines active = acc.run := by
  cases op with
  | access x => exact Access.run_eq h
  | getHandle s =>
    cases h
    simp only [Accessor.onSlot, Accessor.run_passing]
    unfold Operation.run Operation.recordingHandle Slot.getHandle
    simp only [bind_assoc]
    rfl
  | setForeignStruct s p =>
    cases h
    rw [Accessor.run_onValue]
    unfold Operation.run Slot.setForeignStruct Slot.getForeignPtr
    simp only [bind_assoc]
    rfl
  | _ => cases h

end

/-! ### What the checks let through -/

section

variable {w t : World η} {a : Address}

theorem value_of_passing {checks : Act η Address} {found : Except β Address}
    (h : (passing checks : Act η (Except β Address)) w = (.value found, t)) :
    ∃ a, found = .ok a ∧ checks w = (.value a, t) := by
  rw [passing, map_eq_pure_bind] at h
  obtain ⟨a, u, hchecks, hfound⟩ := Run.value_of_bind h
  cases hfound
  exact ⟨a, rfl, hchecks⟩

theorem index_of_checkListIndex {index : Int} {upper count : Nat}
    (h : Slot.checkListIndex index upper count w = (.value (), t)) :
    -(upper : Int) ≤ index ∧ index < upper := by
  unfold Slot.checkListIndex at h
  split at h
  · next hindex => simpa [Slot.isListIndex] using hindex
  · exact absurd (congrArg Prod.fst h) (by simp [Run.fault])

theorem Slot.of_checked {s : Slot} {operation : String} (h : s.checked operation w = (.value a, t)) :
    w.LiveAt s.vm a ∧ s.index < (w.machine a).slots.length := by
  obtain ⟨hl, hindex, -⟩ := slot_of_checked h
  exact ⟨hl, hindex⟩

/-- A second slot of the same machine. -/
theorem Slot.of_checked_other {s : Slot} {vm : VmId} {b : Address} {operation : String}
    (hvm : s.vm = vm) (hl : w.LiveAt vm a) (h : s.checked operation w = (.value b, t)) :
    s.index < (w.machine a).slots.length ∧ w.Intact t := by
  obtain ⟨hlb, hindex, ht⟩ := slot_of_checked h
  obtain rfl : a = b := by
    rw [← hl.2, ← hlb.2, hvm]
  exact ⟨hindex, ht⟩

variable (hfault : ∀ f, w.hasFault f = false)

include hfault

theorem Slot.of_holding {s : Slot} {expected : SlotType} {operation : String}
    (h : s.holding expected operation w = (.value a, t)) :
    w.LiveAt s.vm a ∧ s.index < (w.machine a).slots.length ∧
      (w.machine a).slotType s.index = expected := by
  obtain ⟨b, u, hchecked, hrest⟩ := Run.value_of_bind h
  obtain ⟨_, u', htype, hend⟩ := Run.value_of_bind hrest
  cases hend
  obtain ⟨hl, hindex, hu⟩ := slot_of_checked hchecked
  obtain ⟨htype, -⟩ := type_of_expectType ((hu.hasFault_eq _).trans (hfault _)) htype
  rw [hu.machine_eq] at htype
  exact ⟨hl, hindex, htype⟩

theorem Slot.of_listPosition {s element : Slot} {index : Int} {upper : Nat → Nat}
    {operation : String}
    (h : s.listPosition element index upper operation w = (.value a, t)) :
    w.LiveAt s.vm a ∧ element.index < (w.machine a).slots.length ∧
      ∃ id items position, (w.machine a).ListIn s.index id items ∧
        State.IsPosition index (upper items.length) position := by
  obtain ⟨⟨b, count⟩, u, hoperands, hrest⟩ := Run.value_of_bind h
  obtain ⟨_, u', hindex, hend⟩ := Run.value_of_bind hrest
  cases hend
  obtain ⟨_, w₀, hsame, hoperands⟩ := Run.value_of_bind hoperands
  obtain ⟨hvm, rfl⟩ := ensureSameVm_value hsame
  obtain ⟨a, w₁, hchecked, hoperands⟩ := Run.value_of_bind hoperands
  obtain ⟨hl, hslot, h₁⟩ := slot_of_checked hchecked
  have hfault₁ : ∀ f, w₁.hasFault f = false := fun f => (h₁.hasFault_eq f).trans (hfault f)
  obtain ⟨_, w₂, hchecked', hoperands⟩ := Run.value_of_bind hoperands
  have hl₁ : w₁.LiveAt s.vm a := by
    rw [World.LiveAt, h₁.vm_eq]
    exact hl
  obtain ⟨helement, h₂⟩ := Slot.of_checked_other hvm hl₁ hchecked'
  have hfault₂ : ∀ f, w₂.hasFault f = false := fun f => (h₂.hasFault_eq f).trans (hfault₁ f)
  obtain ⟨_, w₃, htype, hoperands⟩ := Run.value_of_bind hoperands
  obtain ⟨htype, h₃⟩ := type_of_expectType (hfault₂ _) htype
  obtain ⟨_, w₄, hcount, hoperands⟩ := Run.value_of_bind hoperands
  cases hoperands
  have hmachine : w₃.machine a = w.machine a := by
    rw [h₃.machine_eq, h₂.machine_eq, h₁.machine_eq]
  rw [h₁.machine_eq] at helement
  rw [h₂.machine_eq, h₁.machine_eq] at htype
  obtain ⟨id, items, hlist⟩ := State.list_of_slotType hslot htype
  have hfault₃ : w₃.hasFault .negativeListCount = false := (h₃.hasFault_eq _).trans (hfault₂ _)
  rw [← hmachine] at hlist
  cases (EntryPoint.listCount_eq hfault₃ hlist).symm.trans hcount
  obtain ⟨position, hposition⟩ := State.exists_isPosition (index_of_checkListIndex hindex)
  refine ⟨hl, helement, id, items, position, ?_, hposition⟩
  rw [← hmachine]
  exact hlist

theorem Slot.of_mapKey {s key : Slot} {operation : String} (hkey : key.vm = s.vm)
    (h : s.mapKey key operation w = (.value a, t)) :
    w.LiveAt s.vm a ∧ key.index < (w.machine a).slots.length ∧
      ∃ id entries, (w.machine a).MapIn s.index id entries := by
  obtain ⟨b, w₁, hchecked, hrest⟩ := Run.value_of_bind h
  obtain ⟨hl, hslot, h₁⟩ := slot_of_checked hchecked
  have hfault₁ : ∀ f, w₁.hasFault f = false := fun f => (h₁.hasFault_eq f).trans (hfault f)
  obtain ⟨_, w₂, hchecked', hrest⟩ := Run.value_of_bind hrest
  have hl₁ : w₁.LiveAt s.vm b := by
    rw [World.LiveAt, h₁.vm_eq]
    exact hl
  obtain ⟨hindex, h₂⟩ := Slot.of_checked_other hkey hl₁ hchecked'
  obtain ⟨_, w₃, htype, hrest⟩ := Run.value_of_bind hrest
  obtain ⟨htype, -⟩ := type_of_expectType ((h₂.hasFault_eq _).trans (hfault₁ _)) htype
  obtain ⟨actual, w₄, -, hhash⟩ := Run.value_of_bind hrest
  rw [h₁.machine_eq] at hindex
  rw [h₂.machine_eq, h₁.machine_eq] at htype
  split at hhash
  · cases hhash
    exact ⟨hl, hindex, State.map_of_slotType hslot htype⟩
  · exact absurd (congrArg Prod.fst hhash) (by simp [Run.fault])

theorem Slot.of_mapOperands {s key : Slot} {other? : Option Slot} {operation : String}
    (h : s.mapOperands key other? operation w = (.value a, t)) :
    w.LiveAt s.vm a ∧ key.index < (w.machine a).slots.length ∧
      (∀ other, other? = some other → other.index < (w.machine a).slots.length) ∧
      ∃ id entries, (w.machine a).MapIn s.index id entries := by
  cases other? with
  | none =>
    rw [mapOperands_none] at h
    obtain ⟨_, w₀, hsame, h⟩ := Run.value_of_bind h
    obtain ⟨hkey, rfl⟩ := ensureSameVm_value hsame
    obtain ⟨hl, hindex, hmap⟩ := Slot.of_mapKey hfault hkey h
    exact ⟨hl, hindex, by rintro _ ⟨⟩, hmap⟩
  | some other =>
    rw [mapOperands_some] at h
    obtain ⟨_, w₀, hsame, h⟩ := Run.value_of_bind h
    obtain ⟨hkey, rfl⟩ := ensureSameVm_value hsame
    obtain ⟨_, w₀, hsame, h⟩ := Run.value_of_bind h
    obtain ⟨hother, rfl⟩ := ensureSameVm_value hsame
    obtain ⟨b, w₁, hchecked, h⟩ := Run.value_of_bind h
    obtain ⟨hlb, hslot, h₁⟩ := slot_of_checked hchecked
    obtain ⟨hl, hindex, hmap⟩ :=
      Slot.of_mapKey (fun f => (h₁.hasFault_eq f).trans (hfault f)) hkey h
    rw [h₁.machine_eq] at hindex hmap
    rw [World.LiveAt, h₁.vm_eq] at hl
    obtain rfl : b = a := by
      rw [← hl.2, ← hlb.2, hother]
    refine ⟨hl, hindex, ?_, hmap⟩
    rintro _ ⟨⟩
    exact hslot

theorem Slot.of_holdingText {s : Slot} {found : Except (Option String) Address}
    (h : s.holdingText w = (.value found, t)) :
    found = .error none ∨ ∃ a, found = .ok a ∧ w.LiveAt s.vm a ∧
      s.index < (w.machine a).slots.length ∧ (w.machine a).slotType s.index = .string := by
  obtain ⟨b, w₁, hchecked, hrest⟩ := Run.value_of_bind h
  obtain ⟨-, -, h₁⟩ := slot_of_checked hchecked
  obtain ⟨actual, w₂, hactual, hrest⟩ := Run.value_of_bind hrest
  have h₂ := h₁.trans ((looks_slotType b s.index).intact hactual)
  split at hrest
  · cases hrest
    exact Or.inl rfl
  · obtain ⟨a, rfl, hholding⟩ := value_of_passing hrest
    obtain ⟨hl, hindex, htype⟩ :=
      Slot.of_holding (fun f => (h₂.hasFault_eq f).trans (hfault f)) hholding
    rw [World.LiveAt, h₂.vm_eq] at hl
    rw [h₂.machine_eq] at hindex htype
    exact Or.inr ⟨a, rfl, hl, hindex, htype⟩

theorem Slot.of_holdingForeign {s : Slot} {found : Except Bool Address}
    (h : s.holdingForeign w = (.value found, t)) :
    found = .error false ∨ ∃ a, found = .ok a ∧ w.LiveAt s.vm a ∧
      s.index < (w.machine a).slots.length ∧ (w.machine a).slotType s.index = .foreign := by
  obtain ⟨b, w₁, hchecked, hrest⟩ := Run.value_of_bind h
  obtain ⟨-, -, h₁⟩ := slot_of_checked hchecked
  obtain ⟨actual, w₂, hactual, hrest⟩ := Run.value_of_bind hrest
  have h₂ := h₁.trans ((looks_slotType b s.index).intact hactual)
  split at hrest
  · cases hrest
    exact Or.inl rfl
  · obtain ⟨a, rfl, hholding⟩ := value_of_passing hrest
    obtain ⟨hl, hindex, htype⟩ :=
      Slot.of_holding (fun f => (h₂.hasFault_eq f).trans (hfault f)) hholding
    rw [World.LiveAt, h₂.vm_eq] at hl
    rw [h₂.machine_eq] at hindex htype
    exact Or.inr ⟨a, rfl, hl, hindex, htype⟩

end

/-! ### What accessors reach -/

/-- Checks let an accessor through to where its operands are, or know an answer. -/
def Accessor.Reaches (x : Accessor η β) (answer? : Option β) : Prop :=
  ∀ {w t : World η} {found : Except β Address}, (∀ f, w.hasFault f = false) →
    x.checks w = (.value found, t) →
      (∃ a, found = .ok a ∧ w.LiveAt x.vm a ∧ x.entry.Effective (w.machine a)) ∨
        ∃ answer, found = .error answer ∧ answer? = some answer

section

variable {answer? : Option β}

theorem reaches_passing {vm : VmId} {checks : Act η Address} {entry : EntryPoint γ}
    {finish : γ → Act η β}
    (h : ∀ {w t : World η} {a : Address}, (∀ f, w.hasFault f = false) →
      checks w = (.value a, t) → w.LiveAt vm a ∧ entry.Effective (w.machine a)) :
    (⟨vm, passing checks, entry, finish⟩ : Accessor η β).Reaches answer? := by
  intro w t found hfault hchecks
  obtain ⟨a, rfl, hpassed⟩ := value_of_passing hchecks
  exact Or.inl ⟨a, rfl, h hfault hpassed⟩

theorem reaches_onSlot {s : Slot} {operation : String} {entry : EntryPoint γ}
    {finish : γ → Act η β} (h : ∀ m : State, s.index < m.slots.length → entry.Effective m) :
    (Accessor.onSlot s operation entry finish).Reaches answer? :=
  reaches_passing fun _ hpassed =>
    have hslot := Slot.of_checked hpassed
    ⟨hslot.1, h _ hslot.2⟩

theorem reaches_onValue {s : Slot} {expected : SlotType} {operation : String}
    {entry : EntryPoint γ} {finish : γ → Act η β}
    (h : ∀ m : State, s.index < m.slots.length → m.slotType s.index = expected →
      entry.Effective m) :
    (Accessor.onValue s expected operation entry finish).Reaches answer? := by
  refine reaches_passing fun hfault hpassed => ?_
  obtain ⟨hl, hindex, htype⟩ := Slot.of_holding hfault hpassed
  exact ⟨hl, h _ hindex htype⟩

theorem reaches_onList {s element : Slot} {index : Int} {upper : Nat → Nat} {operation : String}
    {entry : EntryPoint Unit} {answer? : Option Unit}
    (h : ∀ (m : State) id items position v, m.ListIn s.index id items →
      State.IsPosition index (upper items.length) position → m.slots[element.index]? = some v →
        entry.Effective m) :
    (Accessor.onList s element index upper operation entry : Accessor η Unit).Reaches answer? := by
  refine reaches_passing fun hfault hpassed => ?_
  obtain ⟨hl, helement, id, items, position, hlist, hposition⟩ :=
    Slot.of_listPosition hfault hpassed
  obtain ⟨v, hv, -⟩ := State.exists_slot helement
  exact ⟨hl, h _ id items position v hlist hposition hv⟩

theorem reaches_onMap {s key : Slot} {other? : Option Slot} {operation : String}
    {entry : EntryPoint β}
    (h : ∀ (m : State) id entries k, m.MapIn s.index id entries → m.slots[key.index]? = some k →
      (∀ other, other? = some other → ∃ v, m.slots[other.index]? = some v) → entry.Effective m) :
    (Accessor.onMap s key other? operation entry : Accessor η β).Reaches answer? := by
  refine reaches_passing fun hfault hpassed => ?_
  obtain ⟨hl, hindex, hother, id, entries, hmap⟩ := Slot.of_mapOperands hfault hpassed
  obtain ⟨k, hk, -⟩ := State.exists_slot hindex
  refine ⟨hl, h _ id entries k hmap hk fun other hsome => ?_⟩
  obtain ⟨v, hv, -⟩ := State.exists_slot (hother other hsome)
  exact ⟨v, hv⟩

end

open EntryPoint (Does)

theorem effective_slotDouble (m : State) {i : Nat} (h : i < m.slots.length)
    (ht : m.slotType i = .number) : (EntryPoint.slotDouble i).Effective m := by
  obtain ⟨x, hx⟩ := State.number_of_slotType h ht
  exact ⟨x, m, .slotDouble hx⟩

theorem effective_slotBytes (m : State) {i : Nat} (h : i < m.slots.length)
    (ht : m.slotType i = .string) : (EntryPoint.slotBytes i).Effective m := by
  obtain ⟨bytes, hbytes⟩ := State.string_of_slotType h ht
  exact ⟨bytes, m, .slotBytes hbytes⟩

theorem effective_slotForeign (m : State) {i : Nat} (h : i < m.slots.length)
    (ht : m.slotType i = .foreign) : (EntryPoint.slotForeign i).Effective m := by
  obtain ⟨id, owner, block, hv, ho⟩ := State.foreign_of_slotType h ht
  exact ⟨block.address, m, .slotForeign hv ho⟩

/-- **What the checks of an accessor let through is there**, and what they know the answer of is not. -/
theorem Access.reaches {x : Access β} {acc : Accessor (Host η) β} (h : x.accessor? = some acc) :
    acc.Reaches (Operation.access x : Operation η β).answer? := by
  cases x with
  | setBool | setDouble | setInt | setFloat | setNull | setBytes | setString =>
    cases h
    exact reaches_onSlot fun m hindex => ⟨(), _, .setSlot hindex⟩
  | setNewList =>
    cases h
    exact reaches_onSlot fun m hindex => ⟨(), _, .newList hindex⟩
  | setNewMap =>
    cases h
    exact reaches_onSlot fun m hindex => ⟨(), _, .newMap hindex⟩
  | getBool =>
    cases h
    refine reaches_onValue fun m hindex htype => ?_
    obtain ⟨b, hb⟩ := State.bool_of_slotType hindex htype
    exact ⟨b, m, .slotBool hb⟩
  | getDouble | getInt | getFloat =>
    cases h
    exact reaches_onValue fun m => effective_slotDouble m
  | getString | getBytes =>
    cases h
    exact reaches_onValue fun m => effective_slotBytes m
  | getForeignPtr | getForeignObject | getForeignStruct =>
    cases h
    exact reaches_onValue fun m => effective_slotForeign m
  | listCount =>
    cases h
    refine reaches_onValue fun m hindex htype => ?_
    obtain ⟨id, items, hlist⟩ := State.list_of_slotType hindex htype
    exact ⟨items.length, m, .listCount hlist⟩
  | mapCount =>
    cases h
    refine reaches_onValue fun m hindex htype => ?_
    obtain ⟨id, entries, hmap⟩ := State.map_of_slotType hindex htype
    exact ⟨entries.length, m, .mapCount hmap⟩
  | getListElement =>
    cases h
    refine reaches_onList fun m id items position v hlist hposition hv => ?_
    exact ⟨(), _, .getElement hlist hposition (List.getElem?_eq_getElem hposition.1)
      (State.lt_of_slot hv)⟩
  | setListElement =>
    cases h
    exact reaches_onList fun m id items position v hlist hposition hv =>
      ⟨(), _, .setElement hlist hposition hv⟩
  | insertInList =>
    cases h
    exact reaches_onList fun m id items position v hlist hposition hv =>
      ⟨(), _, .insertElement hlist hposition hv⟩
  | mapContainsKey =>
    cases h
    exact reaches_onMap fun m id entries k hmap hk _ => ⟨_, m, .containsKey hmap hk⟩
  | getMapValue =>
    cases h
    refine reaches_onMap fun m id entries k hmap hk hother => ?_
    obtain ⟨v, hv⟩ := hother _ rfl
    exact ⟨(), _, .getEntry hmap hk (State.lt_of_slot hv)⟩
  | setMapValue =>
    cases h
    refine reaches_onMap fun m id entries k hmap hk hother => ?_
    obtain ⟨v, hv⟩ := hother _ rfl
    exact ⟨(), _, .setEntry hmap hk hv⟩
  | removeMapValue =>
    cases h
    refine reaches_onMap fun m id entries k hmap hk hother => ?_
    obtain ⟨v, hv⟩ := hother _ rfl
    exact ⟨(), _, .dropEntry hmap hk (State.lt_of_slot hv)⟩
  | getOptionalString s =>
    cases h
    intro w t found hfault hchecks
    rcases Slot.of_holdingText hfault hchecks with rfl | ⟨a, rfl, hl, hindex, htype⟩
    · exact Or.inr ⟨none, rfl, rfl⟩
    · exact Or.inl ⟨a, rfl, hl, effective_slotBytes _ hindex htype⟩
  | isForeign s t =>
    cases h
    intro w t found hfault hchecks
    rcases Slot.of_holdingForeign hfault hchecks with rfl | ⟨a, rfl, hl, hindex, htype⟩
    · exact Or.inr ⟨false, rfl, rfl⟩
    · exact Or.inl ⟨a, rfl, hl, effective_slotForeign _ hindex htype⟩
  | ensureSlots | slotCount | hasModule | hasVariable | getVariable | abortFiber
  | abortFiberWithMessage | slotType | isNull => cases h

theorem Operation.reaches [Observer η] {op : Operation η β} {acc : Accessor (Host η) β}
    (h : op.accessor? = some acc) : acc.Reaches op.answer? := by
  cases op with
  | access x => exact Access.reaches h
  | getHandle s =>
    cases h
    refine reaches_onSlot fun m hindex => ?_
    obtain ⟨v, hv, -⟩ := State.exists_slot hindex
    have hfree : greatest m.handles.keys + 1 ∉ m.handles.keys := fun hin =>
      Nat.not_succ_le_self _ (le_greatest hin)
    exact ⟨_, _, .slotHandle hv hfree⟩
  | setForeignStruct s p =>
    cases h
    exact reaches_onValue fun m => effective_slotForeign m
  | _ => cases h

/-! ### Checks only look -/

theorem looks_passing {checks : Act η Address} (h : Looks checks) :
    Looks (passing checks : Act η (Except β Address)) :=
  looks_map h _

theorem looks_holding (s : Slot) (expected : SlotType) (operation : String) :
    Looks (s.holding expected operation : Act η Address) :=
  looks_bind (looks_checked _ _) fun a => looks_bind (looks_expectType _ _ _) fun _ => looks_pure a

theorem looks_holdingText (s : Slot) :
    Looks (s.holdingText : Act η (Except (Option String) Address)) := by
  refine looks_bind (looks_checked _ _) fun a => looks_bind (looks_slotType a _) fun actual => ?_
  split
  · exact looks_pure _
  · exact looks_passing (looks_holding _ _ _)

theorem looks_holdingForeign (s : Slot) :
    Looks (s.holdingForeign : Act η (Except Bool Address)) := by
  refine looks_bind (looks_checked _ _) fun a => looks_bind (looks_slotType a _) fun actual => ?_
  split
  · exact looks_pure _
  · exact looks_passing (looks_holding _ _ _)

theorem looks_listPosition (s element : Slot) (index : Int) (upper : Nat → Nat)
    (operation : String) :
    Looks (s.listPosition element index upper operation : Act η Address) := by
  refine looks_bind (looks_listOperands _ _ _) fun operands => ?_
  exact looks_bind (looks_checkListIndex _ _ _) fun _ => looks_pure operands.1

section

variable [Observer η]

theorem Operation.looks_checks {op : Operation η β} {acc : Accessor (Host η) β}
    (h : op.accessor? = some acc) : Looks acc.checks := by
  cases op with
  | access x =>
    cases x with
    | setBool | setDouble | setInt | setFloat | setNull | setBytes | setString | setNewList
    | setNewMap =>
      cases h
      exact looks_passing (looks_checked _ _)
    | getBool | getDouble | getInt | getFloat | getString | getBytes | listCount | mapCount
    | getForeignPtr | getForeignObject | getForeignStruct =>
      cases h
      exact looks_passing (looks_holding _ _ _)
    | getListElement | setListElement | insertInList =>
      cases h
      exact looks_passing (looks_listPosition _ _ _ _ _)
    | mapContainsKey | getMapValue | setMapValue | removeMapValue =>
      cases h
      exact looks_passing (looks_mapOperands _ _ _ _)
    | getOptionalString =>
      cases h
      exact looks_holdingText _
    | isForeign =>
      cases h
      exact looks_holdingForeign _
    | ensureSlots | slotCount | hasModule | hasVariable | getVariable | abortFiber
    | abortFiberWithMessage | slotType | isNull => cases h
  | getHandle =>
    cases h
    exact looks_passing (looks_checked _ _)
  | setForeignStruct =>
    cases h
    exact looks_passing (looks_holding _ _ _)
  | _ => cases h

/-! ### The whole of an accessor -/

namespace Setting

/-- **An accessor calls its entry point only where this does what it is there for**, in every world that
a host reaches with machines that misreport nothing.  Where it would not, the checks end with an error
or with the answer for this case, and nothing has changed. -/
theorem accessors_effective (s : Setting η) {w : World (Host η)} (hsteps : Steps s.start w)
    (hfaults : w.faults = []) (engines : List Address → Engine (Host η)) (active : List Address)
    {op : Operation η β} {acc : Accessor (Host η) β} (hacc : op.accessor? = some acc) :
    op.run engines active = acc.run ∧
    (∀ a t, acc.checks w = (.value (.ok a), t) → w.LiveAt acc.vm a ∧ ∃ result t',
      acc.entry.call a t = (.value result, t') ∧
        acc.entry.Does (w.machine a) result (t'.machine a)) ∧
    (¬ acc.entry.Effective (w.machine (w.addressOf acc.vm)) → ∃ t, w.Intact t ∧
      ((∃ e, acc.checks w = (.fault e, t) ∧ op.run engines active w = (.fault e, t)) ∨
        ∃ answer, op.answer? = some answer ∧ acc.checks w = (.value (.error answer), t) ∧
          op.run engines active w = (.value answer, t))) := by
  have hfault : ∀ f, w.hasFault f = false := fun f => by
    rw [World.hasFault, hfaults]
    rfl
  have hlooks := Operation.looks_checks hacc
  have hrun : op.run engines active = acc.run := Operation.run_eq hacc
  refine ⟨hrun, fun a t hchecks => ?_, fun hnot => ?_⟩
  · rcases Operation.reaches hacc hfault hchecks with ⟨b, hb, hl, heffective⟩ | ⟨answer, hb, -⟩
    · cases hb
      have ht := hlooks.intact hchecks
      have hnative : a ∈ t.natives.keys := by
        rw [ht.natives_eq]
        exact (hsteps.sound s.steady_start.sound).roster.mem_natives hl
      have htfaults : t.faults = [] := by
        obtain ⟨_, _, rfl⟩ := ht
        exact hfaults
      rw [← ht.machine_eq] at heffective
      have hcall := EntryPoint.call_of_effective hnative htfaults heffective
      rw [ht.machine_eq] at hcall
      exact ⟨hl, hcall⟩
    · cases hb
  · rcases hchecks : acc.checks w with ⟨found | e | h, t⟩
    · rcases Operation.reaches hacc hfault hchecks with ⟨b, rfl, hl, heffective⟩ | ⟨answer, rfl, ha⟩
      · obtain rfl : w.addressOf acc.vm = b := hl.2
        exact absurd heffective hnot
      · refine ⟨t, hlooks.intact hchecks, Or.inr ⟨answer, ha, rfl, ?_⟩⟩
        rw [hrun]
        exact Run.bind_of_value hchecks _
    · refine ⟨t, hlooks.intact hchecks, Or.inl ⟨e, rfl, ?_⟩⟩
      rw [hrun]
      exact Run.bind_of_fault hchecks _
    · exact absurd (congrArg Prod.fst hchecks) ((hlooks w).2 h)

end Setting

end

/-- A host that makes a machine with a list of one element in its first slot. -/
def Program.listing : Program Unit Vm :=
  .ask .newService fun service =>
  .ask (.create service ⟨none, none, none, none⟩) fun vm =>
  .ask (.access (.ensureSlots vm.id 2)) fun _ =>
  .ask (.access (.setNewList ⟨vm.id, 0⟩)) fun _ =>
  .ask (.access (.insertInList ⟨vm.id, 0⟩ (-1) ⟨vm.id, 1⟩)) fun _ => .done vm

namespace Setting

/-- The world of the list. -/
def listed : World (Host Unit) := (silent.run .listing).2

theorem listed_eq :
    (listed.faults, listed.addressOf 1, (listed.machine 2).slots,
      (listed.machine 2).heap.list? 3) = ([], 2, [.object 3, .null], some [.null]) := by
  cbv

/-- The list has no fifth element, and one is not asked for. -/
theorem accessors_effective_listed :
    ∃ e t, listed.Intact t ∧
      (Operation.access (.getListElement ⟨1, 0⟩ 5 ⟨1, 1⟩)).run silent.engines [] listed =
        (.fault e, t) := by
  have hsteps : Steps silent.start listed := silent.steps_run .listing
  have hfaults : listed.faults = [] := congrArg (·.1) listed_eq
  have haddress : listed.addressOf 1 = 2 := congrArg (·.2.1) listed_eq
  have hslots : (listed.machine 2).slots = [.object 3, .null] := congrArg (·.2.2.1) listed_eq
  have hitems : (listed.machine 2).heap.list? 3 = some [.null] := congrArg (·.2.2.2) listed_eq
  have hacc : (Operation.access (.getListElement ⟨1, 0⟩ 5 ⟨1, 1⟩) : Operation Unit _).accessor? =
      some _ := rfl
  obtain ⟨t, ht, ⟨e, -, hrun⟩ | ⟨_, ⟨⟩, -⟩⟩ := (silent.accessors_effective hsteps hfaults
    silent.engines [] hacc).2.2 (by
      change ¬ (EntryPoint.getElement 0 5 1).Effective (listed.machine (listed.addressOf 1))
      rw [haddress]
      intro heffective
      obtain ⟨id, items, position, ⟨hslot, hget⟩, hlt, hposition⟩ :=
        EntryPoint.isPosition_of_effective heffective
      rw [hslots] at hslot
      cases hslot
      rw [Machine.Heap.list?, hget] at hitems
      cases hitems
      rw [List.length_singleton] at hlt hposition
      omega)
  exact ⟨e, t, ht, hrun⟩

end Setting

end ScriptHost.Bridge
