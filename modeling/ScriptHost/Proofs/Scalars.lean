import ScriptHost.Proofs.Destinations
import ScriptHost.Proofs.Encoding
import ScriptHost.Proofs.Refusals
import ScriptHost.Proofs.Serving

/-!
# Simple values in slots

A host writes a truth value, a number, bytes, a text or null into a slot, and reads there what it has
written (`Scalar.read?`): the same value through the accessor for its type, the refusal of the type
through those for other types.  As nothing else writes a slot than the operations that name it, this is
so until one of them does (`Setting.slots_kept`).
-/

namespace ScriptHost.Bridge

open Machine (State Value Heap)
open Machine.State (KeepsSlot)
open Number (Double)
open Run (Within)

variable {η α β : Type}

/-! ## What is read behind a write -/

/-- A value that a host writes into a slot as a whole. -/
inductive Scalar where
  | null
  | bool (b : Bool)
  | number (x : Double)
  | bytes (l : List UInt8)
  | text (t : String)

namespace Scalar

/-- Writes a value into a slot. -/
def store (s : Slot) : Scalar → Access Unit
  | null => .setNull s
  | bool b => .setBool s b
  | number x => .setDouble s x
  | bytes l => .setBytes s l
  | text t => .setString s t

/-- What a slot holds of a value. -/
def value : Scalar → Value
  | null => .null
  | bool b => .bool b
  | number x => .number x
  | bytes l => .string l
  | text t => .string (Text.Utf8.encode t)

/-- The type that a slot reports of a value. -/
def type : Scalar → SlotType
  | null => .null
  | bool _ => .bool
  | number _ => .number
  | bytes _ | text _ => .string

/-- What an accessor ends with that expects another type. -/
def refusal (v : Scalar) (s : Slot) (expected : SlotType) : HostError :=
  .slotTypeMismatch s.index expected v.type

def asBool (s : Slot) : Scalar → Except HostError Bool
  | bool b => .ok b
  | v => .error (v.refusal s .bool)

def asNumber (s : Slot) : Scalar → Except HostError Double
  | number x => .ok x
  | v => .error (v.refusal s .number)

def asBytes (s : Slot) : Scalar → Except HostError (List UInt8)
  | bytes l => .ok l
  | text t => .ok (Text.Utf8.encode t)
  | v => .error (v.refusal s .string)

/-- Only bytes may be no text. -/
def asText (s : Slot) : Scalar → Except HostError String
  | bytes l => (Text.Utf8.decode l).mapError .utf8Conversion
  | text t => .ok t
  | v => .error (v.refusal s .string)

def asOptionalText (s : Slot) : Scalar → Except HostError (Option String)
  | null => .ok none
  | v => some <$> v.asText s

/-- What an operation that reads one slot ends with if this holds a value, and the slot. -/
def read? (v : Scalar) : Access β → Option (Slot × Except HostError β)
  | .slotType s => some (s, .ok v.type)
  | .isNull s => some (s, .ok (v.type == .null))
  | .getBool s => some (s, v.asBool s)
  | .getDouble s => some (s, v.asNumber s)
  | .getInt s => some (s, Double.toInt32 <$> v.asNumber s)
  | .getFloat s => some (s, Double.toSingle <$> v.asNumber s)
  | .getString s => some (s, v.asText s)
  | .getOptionalString s => some (s, v.asOptionalText s)
  | .getBytes s => some (s, v.asBytes s)
  | .listCount s => some (s, .error (v.refusal s .list))
  | .mapCount s => some (s, .error (v.refusal s .map))
  | .getForeignPtr s => some (s, .error (v.refusal s .foreign))
  | .getForeignObject s _ => some (s, .error (v.refusal s .foreign))
  | .getForeignStruct s _ => some (s, .error (v.refusal s .foreign))
  | .isForeign s _ => some (s, .ok false)
  | _ => none

theorem slotType_value (h : Heap) (v : Scalar) : h.slotType v.value = v.type := by
  cases v <;> rfl

end Scalar

/-! ## Checks of slots that hold simple values -/

section

variable {w t : World η} {a : Address}

/-- Work comes behind checks that let it through. -/
theorem decides_behind {x : Act η α} {f : α → Act η β} {v : α} {r : Except HostError β}
    (hx : Decides x w (.ok v)) (hf : ∀ t, w.Intact t → Decides (f v) t r) :
    Decides (x >>= f) w r :=
  decides_bind (r := .ok v) (g := id) (k := fun _ => r) hx fun c t hc ht => by
    cases hc
    exact hf t ht

theorem decides_fault {x : Act η α} {e : HostError} (hx : Decides x w (.error e)) (f : α → Act η β) :
    Decides (x >>= f) w (.error e) := by
  obtain ⟨t, ht, hxt⟩ := hx
  exact ⟨t, ht, Run.bind_of_fault hxt f⟩

theorem decides_map {x : Act η α} {r : Except HostError α} (hx : Decides x w r) (f : α → β) :
    Decides (do return f (← x)) w (f <$> r) := by
  cases r with
  | error e => exact decides_fault hx _
  | ok v => exact decides_behind hx fun t _ => decides_ok t (f v)

theorem decides_ofExcept (w : World η) (r : Except HostError α) : Decides (Run.ofExcept r) w r :=
  ⟨w, .refl w, rfl⟩

theorem decides_readNative (w : World η) (a : Address) (f : State → α) :
    Decides (readNative a f) w (.ok (f (w.machine a))) :=
  ⟨w.note (.enter a), .note w _, rfl⟩

/-- A slot that a host sees, and what it holds. -/
structure Shows (s : Slot) (a : Address) (v : Value) (w : World η) : Prop extends Candid s.vm a w where
  slot : (w.machine a).slots[s.index]? = some v

namespace Shows

variable {s : Slot} {u : Value} {v : Scalar}

theorem intact (h : Shows s a u w) (ht : w.Intact t) : Shows s a u t :=
  ⟨h.toCandid.intact ht, by rw [ht.machine_eq]; exact h.slot⟩

theorem checked (h : Shows s a u w) (operation : String) :
    Decides (s.checked operation) w (.ok a) := by
  have hchecked := decides_checked h.toCandid s.index operation
  rwa [valueAt, h.slot] at hchecked

theorem slotBytes {bytes : List UInt8} (h : Shows s a u w) (hu : u = .string bytes) :
    Decides (Native.slotBytes a s.index) w (.ok bytes) := by
  subst hu
  refine ⟨w.note (.enter a), .note w _, ?_⟩
  have htold : (if w.hasFault .nullBytes || w.hasFault .negativeBytes then [] else
      ((w.machine a).slotBytes? s.index).getD []) = bytes := by
    rw [h.hasFault, h.hasFault, State.slotBytes?, State.slot_of_getElem? h.slot]
    rfl
  exact Prod.ext (congrArg Outcome.value htold) rfl

theorem nativeType (h : Shows s a v.value w) :
    Decides (Native.slotType a s.index) w (.ok v.type) := by
  refine ⟨w.note (.enter a), .note w _, ?_⟩
  rw [slotType_eq_value h.toCandid h.slot, v.slotType_value]
  rfl

theorem slotType (h : Shows s a v.value w) : Decides s.slotType w (.ok v.type) :=
  decides_behind (h.checked _) fun _ ht => (h.intact ht).nativeType

/-- An accessor of a slot of its type comes to its entry point. -/
theorem typed (h : Shows s a v.value w) {operation : String} {f : Address → Act η β}
    {r : Except HostError β} (hf : ∀ t, Shows s a v.value t → Decides (f a) t r) :
    Decides (do
      let a ← s.checked operation
      s.expectType a v.type
      f a) w r := by
  refine decides_behind (h.checked operation) fun t ht => ?_
  have h₁ := h.intact ht
  have hexpect := decides_expectType h₁.toCandid h₁.slot v.type
  rw [v.slotType_value, if_pos rfl] at hexpect
  exact decides_behind hexpect fun u hu => hf u (h₁.intact hu)

/-- An accessor of a slot of another type is refused. -/
theorem mistyped (h : Shows s a v.value w) {operation : String} {expected : SlotType}
    (hne : v.type ≠ expected) (f : Address → Act η β) :
    Decides (do
      let a ← s.checked operation
      s.expectType a expected
      f a) w (.error (v.refusal s expected)) := by
  refine decides_behind (h.checked operation) fun t ht => ?_
  have h₁ := h.intact ht
  have hexpect := decides_expectType h₁.toCandid h₁.slot expected
  rw [v.slotType_value, if_neg hne] at hexpect
  exact decides_fault hexpect _

theorem getBool (h : Shows s a v.value w) : Decides s.getBool w (v.asBool s) := by
  cases v with
  | bool b =>
    refine h.typed fun t ht => ?_
    have hread := decides_readNative t a fun m => m.slotBool s.index
    rw [State.slotBool, State.slot_of_getElem? ht.slot] at hread
    exact hread
  | _ =>
    refine h.mistyped (fun heq => ?_) _
    cases heq

theorem getDouble (h : Shows s a v.value w) : Decides s.getDouble w (v.asNumber s) := by
  cases v with
  | number x =>
    refine h.typed fun t ht => ?_
    have hread := decides_readNative t a fun m => m.slotDouble s.index
    rw [State.slotDouble, State.slot_of_getElem? ht.slot] at hread
    exact hread
  | _ =>
    refine h.mistyped (fun heq => ?_) _
    cases heq

theorem getBytes (h : Shows s a v.value w) : Decides s.getBytes w (v.asBytes s) := by
  cases v with
  | bytes | text => exact h.typed fun t ht => ht.slotBytes rfl
  | _ =>
    refine h.mistyped (fun heq => ?_) _
    cases heq

theorem getString (h : Shows s a v.value w) : Decides s.getString w (v.asText s) := by
  cases v with
  | bytes l =>
    refine h.typed fun t ht => decides_behind (ht.slotBytes rfl) fun u _ => ?_
    change Decides _ u ((Text.Utf8.decode l).mapError .utf8Conversion)
    cases Text.Utf8.decode l with
    | ok text => exact decides_ok u text
    | error failure => exact decides_ofExcept u (.error (.utf8Conversion failure))
  | text text =>
    refine h.typed fun t ht => decides_behind (ht.slotBytes rfl) fun u _ => ?_
    rw [Text.Utf8.decode_encode]
    exact decides_ok u text
  | _ =>
    refine h.mistyped (fun heq => ?_) _
    cases heq

theorem getOptionalString (h : Shows s a v.value w) :
    Decides s.getOptionalString w (v.asOptionalText s) := by
  refine decides_behind (h.checked _) fun t ht => ?_
  refine decides_behind (h.intact ht).nativeType fun u hu => ?_
  cases v with
  | null => exact decides_ok u none
  | _ => exact decides_map ((h.intact ht).intact hu).getString some

theorem getForeignPtr (h : Shows s a v.value w) :
    Decides s.getForeignPtr w (.error (v.refusal s .foreign)) :=
  h.mistyped (by cases v <;> nofun) _

/-- **A slot that holds a simple value is read as this value**, by every operation that reads one
slot. -/
theorem read (h : Shows s a v.value w) {x : Access β} {r : Except HostError β}
    (hx : v.read? x = some (s, r)) : Decides x.run w r := by
  cases x with
  | slotType => cases hx; exact h.slotType
  | isNull => cases hx; exact decides_map h.slotType (· == .null)
  | getBool => cases hx; exact h.getBool
  | getDouble => cases hx; exact h.getDouble
  | getInt => cases hx; exact decides_map h.getDouble Double.toInt32
  | getFloat => cases hx; exact decides_map h.getDouble Double.toSingle
  | getString => cases hx; exact h.getString
  | getOptionalString => cases hx; exact h.getOptionalString
  | getBytes => cases hx; exact h.getBytes
  | listCount | mapCount => cases hx; exact h.mistyped (by cases v <;> nofun) _
  | getForeignPtr => cases hx; exact h.getForeignPtr
  | getForeignObject | getForeignStruct => cases hx; exact decides_fault h.getForeignPtr _
  | isForeign =>
    cases hx
    refine decides_behind (h.checked _) fun t ht => ?_
    refine decides_behind (h.intact ht).nativeType fun u _ => ?_
    rw [if_pos (by cases v <;> nofun)]
    exact decides_ok u false
  | _ => cases hx

/-- What a slot shows is what it shows for as long as it is kept. -/
theorem kept (h : Shows s a u w) (h' : Candid s.vm a t)
    (hkeeps : KeepsSlot s.index (w.machine a) (t.machine a)) : Shows s a u t := by
  obtain ⟨u', hu', hslot⟩ := State.exists_slot ((State.lt_of_slot h.slot).trans_le hkeeps.length)
  obtain rfl : u' = u := hslot.symm.trans (hkeeps.slot.trans (State.slot_of_getElem? h.slot))
  exact ⟨h', hu'⟩

end Shows

/-! ## Writing simple values -/

/-- A slot that exists holds a simple value once it is written. -/
theorem Candid.store {s : Slot} (h : Candid s.vm a w) (hnative : a ∈ w.natives.keys)
    (hslot : s.index < (w.machine a).slots.length) (v : Scalar) :
    ∃ t, ((v.store s).run : Act η Unit) w = (.value (), t) ∧
      (w.putMachine a ((w.machine a).setSlot s.index v.value)).Intact t ∧
      Shows s a v.value t := by
  have hshows : Shows s a _ w := ⟨h, List.getElem?_eq_getElem hslot⟩
  have hset : ∀ operation, ∃ t, ((do
      let a ← s.checked operation
      changeNative a fun m => m.setSlot s.index v.value : Act η Unit)) w = (.value (), t) ∧
        (w.putMachine a ((w.machine a).setSlot s.index v.value)).Intact t := by
    intro operation
    obtain ⟨t, ht, hchecked⟩ := hshows.checked operation
    refine ⟨_, (Run.bind_of_value hchecked _).trans rfl, ?_⟩
    rw [← ht.machine_eq]
    exact (ht.trans (.note t (.enter a))).putMachine _
  obtain ⟨t, hrun, ht⟩ : ∃ t, ((v.store s).run : Act η Unit) w = (.value (), t) ∧
      (w.putMachine a ((w.machine a).setSlot s.index v.value)).Intact t := by
    cases v <;> exact hset _
  refine ⟨t, hrun, ht, (h.putMachine _).intact ht, ?_⟩
  rw [ht.machine_eq, World.machine_putMachine_self hnative, State.setSlot_natCast]
  exact List.getElem?_set_self hslot

/-- Slots are added with null in them. -/
theorem ensureSlots_eq {vm : VmId} (hl : w.LiveAt vm a) (count : Nat) :
    ∃ t, (Vm.ensureSlots vm count : Act η Unit) w = (.value (), t) ∧
      (w.putMachine a { w.machine a with
        slots := (w.machine a).slots ++
          List.replicate (min count Vm.maxCount - (w.machine a).slots.length) .null }).Intact t := by
  have hlive : (live vm "ensure_slots" : Act η Address) w = (.value a, w) := by
    rw [live_of_alive hl.1, hl.2]
  exact ⟨_, (Run.bind_of_value hlive _).trans rfl, (World.Intact.note w (.enter a)).putMachine _⟩

end

/-- What looks at a world comes to a result there, and changes nothing. -/
theorem exists_decides {x : Act η α} (h : Looks x) (w : World η) : ∃ r, Decides x w r := by
  obtain ⟨hintact, hend⟩ := h w
  rcases hx : x w with ⟨v | e | stop, t⟩
  · exact ⟨.ok v, t, h.intact hx, hx⟩
  · exact ⟨.error e, t, h.intact hx, hx⟩
  · exact absurd (congrArg Prod.fst hx) (hend stop)

/-! ## What becomes of slots -/

section

variable [Observer η] {active : List Address} {w w₁ : World (Host η)} {a : Address}

/-- A world stays at rest when slots are read and written. -/
theorem steady_access {x : Access β} {b : β} (hw : Steady active w)
    (hrun : x.run w = (.value b, w₁)) : Steady active w₁ := by
  have hdeed : IsDeed (Regime.free : Regime η).allows (Regime.free : Regime η).powers
      (x.run : Act (Host η) β) :=
    deed_access x trivial (fun _ _ => trivial) fun _ _ => trivial
  have hwithin : Within (Regime.free.Moves active) (Regime.free.Reaches active)
      (x.run : Act (Host η) β) w := within_deed Regime.lawful_free hdeed w
  rw [Within, hrun] at hwithin
  exact ((hwithin.2 rfl hw trivial).1 hw).2.1

namespace Setting

/-- What a program reaches that avoids a slot, while some machines run. -/
def Avoiding (s : Setting η) (active : List Address) (t : Slot) (w w' : World (Host η)) : Prop :=
  ∃ (α : Type) (p : Program η α) (outcome : Outcome Empty α),
    p.Avoids t (s.code.FinalizersAvoid t) ∧ p.run s.engines active w = (outcome, w') ∧
      outcome.isFinal = false

/-- **Slots hold what was written last by an operation that names them.**  At a machine that is alive,
programs that run nothing and do not name a slot leave it alone; slots are added with null in them; and
reading changes nothing.  So if machines report what is there, a simple value that was written is read
again, and refused where another type is expected, behind every program that avoids its slot. -/
theorem slots_kept (s : Setting η) (hw : Steady active w) :
    (∀ {t : Slot} {w'}, s.Avoiding active t w w' → w.LiveAt t.vm a → w'.LiveAt t.vm a →
      KeepsSlot t.index (w.machine a) (w'.machine a)) ∧
    (∀ {vm : VmId}, w.LiveAt vm a → ∀ count : Nat, ∃ t,
      Vm.ensureSlots vm count w = (.value (), t) ∧
        (w.putMachine a { w.machine a with
          slots := (w.machine a).slots ++
            List.replicate (min count Vm.maxCount - (w.machine a).slots.length) .null }).Intact t) ∧
    (∀ {β : Type} {x : Access β}, x.reads = true → ∃ r, Decides x.run w r) ∧
    ∀ {t : Slot}, Candid t.vm a w → t.index < (w.machine a).slots.length → ∀ v : Scalar, ∃ w₁,
      (v.store t).run w = (.value (), w₁) ∧
        (w.putMachine a ((w.machine a).setSlot t.index v.value)).Intact w₁ ∧
        ∀ {w'}, s.Avoiding active t w₁ w' → Candid t.vm a w' →
          ∀ {β : Type} {x : Access β} {r}, v.read? x = some (t, r) → Decides x.run w' r := by
  refine ⟨?frame, fun hl count => ensureSlots_eq hl count,
    fun hreads => exists_decides (looks_access hreads) w, fun h hslot v => ?roundTrip⟩
  case frame =>
    rintro t w' ⟨_, p, outcome, hp, hrun, hend⟩ hl hl'
    exact keepsSlot_of_avoids hp hw hl hrun hend hl'
  case roundTrip =>
    obtain ⟨w₁, hstore, hw₁, hshows⟩ := h.store (hw.sound.roster.mem_natives h.live) hslot v
    refine ⟨w₁, hstore, hw₁, ?_⟩
    rintro w' ⟨_, p, outcome, hp, hrun, hend⟩ h' _ _ _ hx
    have hkeeps := keepsSlot_of_avoids hp (steady_access hw hstore) hshows.live hrun hend h'.live
    exact (hshows.kept h' hkeeps).read hx

end Setting

end

/-- A host that adds slots, writes the second one, and has its garbage collected. -/
def Program.bustling : Program Unit Unit :=
  .ask (.access (.ensureSlots 1 4)) fun _ =>
  .ask (.access (.setDouble ⟨1, 1⟩ .zero)) fun _ =>
  .ask (.collectGarbage 1) fun _ => .done ()

theorem Program.bustling_avoids :
    bustling.Avoids ⟨1, 0⟩ (Setting.silent.code.FinalizersAvoid ⟨1, 0⟩) := by
  have hcode : Setting.silent.code.FinalizersAvoid ⟨1, 0⟩ :=
    ⟨fun _ _ => trivial, fun _ _ => trivial⟩
  refine Program.avoids_ask ⟨rfl, nofun, nofun⟩ fun _ => ?_
  refine Program.avoids_ask ⟨rfl, by decide, nofun⟩ fun _ => ?_
  exact Program.avoids_ask ⟨rfl, nofun, fun _ => hcode⟩ fun _ => trivial

namespace Setting

/-- The world of the list, with a text in place of the list. -/
def noted : World (Host Unit) := ((Scalar.text "no\x00te").store ⟨1, 0⟩).run listed |>.2

theorem bustling_eq :
    let t := Program.bustling.run silent.engines [] noted
    (t.1, t.2.faults, (t.2.vm 1).isAlive, t.2.addressOf 1) = (.value (), [], true, 2) := by
  cbv

/-- A text with a NUL is there still behind the bustle, and is no number. -/
theorem slots_kept_noted :
    ∃ w', Program.bustling.run silent.engines [] noted = (.value (), w') ∧
      Decides (Access.getString ⟨1, 0⟩).run w' (.ok "no\x00te") ∧
      Decides (Access.getDouble ⟨1, 0⟩).run w' (.error (.slotTypeMismatch 0 .number .string)) := by
  have hsteady : Steady [] listed := silent.steady_run .listing (by cbv)
  have hcandid : Candid 1 2 listed :=
    ⟨⟨by cbv, congrArg (·.2.1) listed_eq⟩, congrArg (·.1) listed_eq⟩
  have hslot : 0 < (listed.machine 2).slots.length := by
    rw [show (listed.machine 2).slots = _ from congrArg (·.2.2.1) listed_eq]
    decide
  obtain ⟨w₁, hstore, -, hreads⟩ :=
    (silent.slots_kept hsteady).2.2.2 (t := ⟨1, 0⟩) hcandid hslot (.text "no\x00te")
  obtain rfl : noted = w₁ := congrArg Prod.snd hstore
  have hrun : Program.bustling.run silent.engines [] noted =
      (.value (), (Program.bustling.run silent.engines [] noted).2) :=
    congrArg (·, (Program.bustling.run silent.engines [] noted).2) (congrArg (·.1) bustling_eq)
  have hcandid' : Candid 1 2 (Program.bustling.run silent.engines [] noted).2 :=
    ⟨⟨congrArg (·.2.2.1) bustling_eq, congrArg (·.2.2.2) bustling_eq⟩,
      congrArg (·.2.1) bustling_eq⟩
  have hbehind : silent.Avoiding [] ⟨1, 0⟩ noted (Program.bustling.run silent.engines [] noted).2 :=
    ⟨_, _, _, Program.bustling_avoids, hrun, rfl⟩
  exact ⟨_, hrun, hreads hbehind hcandid' rfl, hreads hbehind hcandid' rfl⟩

end Setting

end ScriptHost.Bridge
