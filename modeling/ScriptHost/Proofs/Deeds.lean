import ScriptHost.Proofs.Moves
import ScriptHost.Proofs.Registry

/-!
# Deeds of a host

An operation that runs no program is a few deeds: a machine is entered, its slots are edited, a handle
or a foreign object is made, a payload is overwritten.  A `Deed` tells more than a step of the world
does, namely on which machine it is done, with what values, and that the host sees nothing but the log
of it.  `Deed P S` is a deed on one of the machines that `P` holds of, which changes what services keep,
writes slots, and asks machines to abort only as far as `S` allows it.

All deeds are steps that leave machines where they are (`Deed.step`, `Deed.gentle`), so that any number
of them is calm work (`Deeds.calm`).
-/

namespace ScriptHost.Bridge

open Machine (Edit Frame ObjectId Rights)
open Run (Within)

variable {η φ α : Type}

/-! ## What a deed leaves behind -/

/-- What a host keeps, once it has seen some work of the bridge. -/
inductive Heard [Observer η] (h : η) : η → Prop where
  | nothing : Heard h h
  | log {h' : η} (level : LogLevel) (text : String) (hh : Heard h h') :
    Heard h (Observer.log level text h')
  | released {h' : η} (vm handle : Address) (hh : Heard h h') :
    Heard h (Observer.released vm handle h')

/-- What the machine knows a new handle to stand for: a method, or the value in a slot. -/
def Names (m : Machine.State) : Machine.HandleTarget → Prop
  | .method _ _ => True
  | .value v => ∃ index, v = m.slot index

/-- An address that a machine tells for a slot: that of a data block on its heap, or none. -/
def Tells (m : Machine.State) (x : Address) : Prop :=
  x = 0 ∨ ∃ index block, m.slotBlock? index = some block ∧ block.address = x

/-- A payload at an address. -/
def Payloads.withEntry (r : Payloads) (address : Address) (e : Entry) : Payloads :=
  { r with entries := r.entries.insert address e }

/-- What is tracked for a payload. -/
def Holding.entry (holding : Holding) (names : TypeNames) : Entry :=
  ⟨names.tag holding.payload.type, holding⟩

/-- A service gets a payload at an address, unless something is tracked there already. -/
inductive Gains (w : World (Host η)) (service : ServiceId) (x : Address)
    (f : Service → Service) : Prop where
  | conflict (h : x ∈ w.tracked service) (hf : f (w.service service) = w.service service)
  | entry (h : x ∉ w.tracked service) (holding : Holding)
      (hf : f (w.service service) = { (w.service service) with
        payloads := (w.service service).payloads.withEntry x (holding.entry w.typeNames) })

/-- A data block at `x` is born in a slot of a machine and gets a payload.  No payload at another
address changes. -/
structure Bearing (w : World (Host η)) (vm : VmId) (a x : Address) (service : ServiceId)
    (owner : ObjectId) (index : Int) (m : Machine.State) (f : Service → Service) : Prop where
  delivery : Delivery w vm a x service owner m f
  made : ∃ classIndex, (w.machine a).foreignClass? classIndex = some owner ∧
    m = ((w.machine a).newForeign index classIndex x).2.tagBlock x service
  gains : Gains w service x f

/-- What deeds may do besides writing lists and maps. -/
structure Powers where
  /-- Whether bindings and payloads may change. -/
  serves : Prop
  /-- What may be written of the machines. -/
  rights : VmId → Rights

namespace Powers

/-- Everything may be done. -/
def all : Powers := ⟨True, fun _ => .all⟩

/-- Nothing else may be done. -/
def none : Powers := ⟨False, fun _ => .none⟩

/-- Bindings and payloads may change, and a slot may be written. -/
def onSlot (s : Slot) : Powers :=
  ⟨True, fun vm => ⟨False, fun index => vm = s.vm ∧ index = s.index⟩⟩

/-- Whatever the ones may do, the others may. -/
structure Le (S T : Powers) : Prop where
  serves : S.serves → T.serves
  rights : ∀ vm, (S.rights vm).Le (T.rights vm)

theorem none_le (S : Powers) : none.Le S := ⟨False.elim, fun _ => Rights.none_le _⟩

theorem le_all (S : Powers) : S.Le all := ⟨fun _ => trivial, fun _ => Rights.le_all _⟩

theorem onSlot_le {S : Powers} {s : Slot} (h : S.serves) (hq : (S.rights s.vm).writes s.index) :
    (onSlot s).Le S := by
  refine ⟨fun _ => h, fun vm => ⟨False.elim, ?_⟩⟩
  rintro _ ⟨rfl, rfl⟩
  exact hq

end Powers

/-- Some rights on one machine, and all on the others. -/
def rightsAt (vm : VmId) (q : Rights) (id : VmId) : Rights :=
  ⟨id = vm → q.requests, fun index => id = vm → q.writes index⟩

theorem le_rightsAt (vm id : VmId) : Rights.all.Le (rightsAt vm .all id) :=
  ⟨fun _ _ => trivial, fun _ _ _ => trivial⟩

theorem rightsAt_le (vm : VmId) (q : Rights) : (rightsAt vm q vm).Le q :=
  ⟨fun h => h rfl, fun _ h => h rfl⟩

/-- One deed on a machine that `P` holds of, or on none, which does no more than `S` allows. -/
inductive Deed [Observer η] (P : VmId → Prop) (S : Powers) :
    World (Host η) → World (Host η) → Prop where
  | idle (w : World (Host η)) (serial : Nat) (lastVm? lastHandle? lastBlock? : Option Address)
      (freeReport? : Option FreeReport) {own : η} (h : Heard w.host.own own) :
      Deed P S w { w with serial, lastVm?, lastHandle?, lastBlock?, freeReport?,
                          host := { w.host with own } }
  | enter {w : World (Host η)} {vm : VmId} {a : Address} (hP : P vm) (h : w.LiveAt vm a) :
      Deed P S w (w.note (.enter a))
  | use {w : World (Host η)} {h : CallHandle} {a : Address} (hP : P h.vm)
      (hmade : h ∈ w.host.handles) (hvalid : w.isValid h = true) (hlive : w.LiveAt h.vm a) :
      Deed P S w (w.note (.useHandle a h.address))
  | edit {w : World (Host η)} {vm : VmId} {a : Address} {m : Machine.State} (hP : P vm)
      (hl : w.LiveAt vm a) (h : Edit (S.rights vm) (w.machine a) m) : Deed P S w (w.putMachine a m)
  /-- Bindings of a service are added, or its type finalizers change. -/
  | enrol {w : World (Host η)} {service : ServiceId} {f : Service → Service} (hS : S.serves)
      (h : (f (w.service service)).payloads.entries = (w.service service).payloads.entries)
      (hgrows : (w.service service).bindings.Grows (f (w.service service)).bindings) :
      Deed P S w (w.modifyService service f)
  | found {w : World (Host η)} {service : ServiceId} (h : service ∉ w.services.keys) :
      Deed P S w { w with services := w.services.insert service .empty }
  | listen (w : World (Host η)) {vm : VmId} (hP : P vm) (f : Listeners → Listeners) :
      Deed P S w (w.modifyVm vm fun r => { r with listeners := f r.listeners })
  | adopt {w : World (Host η)} {vm : VmId} {a x : Address} {target : Machine.HandleTarget}
      (hP : P vm) (h : w.LiveAt vm a) (hx : x ∉ w.taken) (ht : Names (w.machine a) target) :
      Deed P S w (w.withHandle vm a x target)
  | release {w : World (Host η)} {h : CallHandle} {a : Address} (hP : P h.vm)
      (hmade : h ∈ w.host.handles) (hvalid : w.isValid h = true) (hlive : w.LiveAt h.vm a) :
      Deed P S w (w.withoutHandle h a)
  | bear {w : World (Host η)} {vm : VmId} {a x : Address} {service : ServiceId} {owner : ObjectId}
      {index : Int} {m : Machine.State} {f : Service → Service} (hP : P vm) (hS : S.serves)
      (hq : (S.rights vm).writes index) (h : Bearing w vm a x service owner index m f) :
      Deed P S w { (w.putMachine a m).modifyService service f with
        host := w.host.made service x ((w.machine a).heap.finalizer? owner) }
  /-- A payload is overwritten. -/
  | assign {w : World (Host η)} {vm : VmId} {a x : Address} {p : Payload} {payloads : Payloads}
      (hP : P vm) (hS : S.serves) (hl : w.LiveAt vm a) (hx : Tells (w.machine a) x)
      (h : (w.serviceOf vm).payloads.setValue w.typeNames x p = .ok payloads) :
      Deed P S w (w.modifyService (w.vm vm).service fun service => { service with payloads })

/-- No payload at another address changes. -/
theorem Gains.find?_ne {w : World (Host η)} {service : ServiceId} {x y : Address}
    {f : Service → Service} (h : Gains w service x f) (hy : y ≠ x) :
    (f (w.service service)).payloads.entries.find? y =
      (w.service service).payloads.entries.find? y := by
  cases h with
  | conflict _ hf => rw [hf]
  | entry _ holding hf =>
    rw [hf]
    exact Table.find?_insert_ne _ _ hy

/-- A value is overwritten under an address that has one already, and of the same type. -/
theorem setValue_eq {r r' : Payloads} {names : TypeNames} {block : Address} {p : Payload}
    (h : r.setValue names block p = .ok r') :
    ∃ e, r.entries.find? block = some e ∧ e.tag.type = p.type ∧
      r' = { r with entries := r.entries.insert block { e with holding := .value p } } := by
  unfold Payloads.setValue Payloads.entry at h
  cases hfind : r.entries.find? block with
  | none => rw [hfind] at h; exact absurd h (by simp [bind, Except.bind])
  | some e =>
    rw [hfind] at h
    simp only [bind, Except.bind] at h
    split at h
    · exact absurd h (by simp)
    · next htag =>
      split at h
      · exact absurd h (by simp)
      · refine ⟨e, rfl, ?_, (Except.ok.inj h).symm⟩
        unfold Entry.expectTag at htag
        split at htag
        · next his => simpa [TypeTag.is] using his
        · exact absurd htag (by simp)

theorem keys_setValue {r r' : Payloads} {names : TypeNames} {block : Address} {p : Payload}
    (h : r.setValue names block p = .ok r') (x : Address) :
    x ∈ r'.entries.keys ↔ x ∈ r.entries.keys := by
  obtain ⟨e, hfind, -, rfl⟩ := setValue_eq h
  rw [Table.mem_keys_insert]
  constructor
  · rintro (rfl | hx)
    · exact Table.mem_keys_of_find? hfind
    · exact hx
  · exact Or.inr

namespace Deed

variable [Observer η] {P : VmId → Prop} {S : Powers} {w w' : World (Host η)}

/-- Every deed is a step. -/
theorem step (h : Deed P S w w') (hs : Sound w) : Step w w' := by
  cases h with
  | idle serial lastVm? lastHandle? lastBlock? freeReport? _ => exact .idle w ..
  | enter _ h => exact .enter h
  | use _ hmade hvalid hlive => exact .use hmade hvalid hlive
  | edit _ hl h => exact .work (hs.roster.mem_registered hl) h.frame
  | enrol _ h _ =>
    refine .serve fun x => ?_
    rw [World.tracked, h]
  | found h => exact .found h
  | listen _ f => exact .listen w _ f
  | adopt _ h hx _ => exact .adopt _ h hx
  | release _ hmade hvalid hlive => exact .release hmade hvalid hlive
  | bear _ _ _ h => exact .bear h.delivery
  | assign _ _ _ _ h => exact .serve fun x => keys_setValue h x

/-- Deeds leave machines where they are, and what is swept as it is. -/
theorem gentle (h : Deed P S w w') (hs : Sound w) : Gentle w w' := by
  cases h with
  | edit _ hl h =>
    have hframe := h.frame
    exact Gentle.putMachine w hframe.swept hframe.finalizing (hs.roster.mem_registered hl)
      (hs.roster.mem_natives hl)
  | listen _ f =>
    exact Gentle.of_eq rfl rfl (World.liveAt_modifyVm w _ (fun _ => rfl) fun _ => rfl)
  | @adopt vm a x target _ hl _ _ =>
    have hput : Gentle w (w.putMachine a ((w.machine a).storeHandle x target)) :=
      Gentle.putMachine w rfl rfl (hs.roster.mem_registered hl) (hs.roster.mem_natives hl)
    exact hput.trans (Gentle.of_eq rfl rfl fun id c => Books.liveAt_withHandle id c)
  | @release m a _ _ _ hl =>
    have hput : Gentle w (w.putMachine a ((w.machine a).releaseHandle m.address)) :=
      Gentle.putMachine w rfl rfl (hs.roster.mem_registered hl) (hs.roster.mem_natives hl)
    exact hput.trans (Gentle.of_eq rfl rfl fun id c => Books.liveAt_withoutHandle id c)
  | bear _ _ _ h =>
    have hd := h.delivery
    have hput : Gentle w (w.putMachine _ _) :=
      Gentle.putMachine w hd.birth.swept hd.birth.finalizing (hs.roster.mem_registered hd.live)
        (hs.roster.mem_natives hd.live)
    exact hput.trans (Gentle.of_eq rfl rfl fun _ _ => Iff.rfl)
  | _ => exact Gentle.of_eq rfl rfl fun _ _ => Iff.rfl

theorem sound (h : Deed P S w w') (hs : Sound w) : Sound w' := (h.step hs).sound hs

theorem mono {Q : VmId → Prop} {T : Powers} (hPQ : ∀ vm, P vm → Q vm) (hST : S.Le T)
    (h : Deed P S w w') : Deed Q T w w' := by
  cases h with
  | idle serial lastVm? lastHandle? lastBlock? freeReport? h => exact .idle w _ _ _ _ _ h
  | enter hP h => exact .enter (hPQ _ hP) h
  | use hP hmade hvalid hlive => exact .use (hPQ _ hP) hmade hvalid hlive
  | edit hP hl h => exact .edit (hPQ _ hP) hl (h.mono (hST.rights _))
  | enrol hS h hgrows => exact .enrol (hST.serves hS) h hgrows
  | found h => exact .found h
  | listen hP f => exact .listen w (hPQ _ hP) f
  | adopt hP h hx ht => exact .adopt (hPQ _ hP) h hx ht
  | release hP hmade hvalid hlive => exact .release (hPQ _ hP) hmade hvalid hlive
  | bear hP hS hq h => exact .bear (hPQ _ hP) (hST.serves hS) ((hST.rights _).writes _ hq) h
  | assign hP hS hl hx h => exact .assign (hPQ _ hP) (hST.serves hS) hl hx h

end Deed

/-! ## Any number of deeds -/

section

variable [Observer η] {P : VmId → Prop} {S : Powers}

/-- Any number of deeds from a sound world. -/
def Deeds (P : VmId → Prop) (S : Powers) (w w' : World (Host η)) : Prop :=
  Sound w → Relation.ReflTransGen (Deed P S) w w'

theorem Deeds.calm {w w' : World (Host η)} (h : Deeds P S w w') : Calm w w' := by
  intro hs
  have hdeeds := h hs
  clear h
  induction hdeeds with
  | refl => exact ⟨.refl, Gentle.refl w⟩
  | tail _ hlast ih =>
    obtain ⟨hsteps, hgentle⟩ := ih
    have hs' := hsteps.sound hs
    exact ⟨hsteps.tail (hlast.step hs'), hgentle.trans (hlast.gentle hs')⟩

theorem Deed.deeds {w w' : World (Host η)} (h : Deed P S w w') : Deeds P S w w' := fun _ => .single h

theorem Deeds.refl (w : World (Host η)) : Deeds P S w w := fun _ => .refl

theorem Deeds.trans {w₁ w₂ w₃ : World (Host η)} (h : Deeds P S w₁ w₂) (h' : Deeds P S w₂ w₃) :
    Deeds P S w₁ w₃ :=
  fun hs => (h hs).trans (h' ((h.calm hs).1.sound hs))

theorem Deeds.mono {Q : VmId → Prop} {T : Powers} {w w' : World (Host η)}
    (hPQ : ∀ vm, P vm → Q vm) (hST : S.Le T) (h : Deeds P S w w') : Deeds Q T w w' :=
  fun hs => (h hs).lift id fun _ _ hd => hd.mono hPQ hST

theorem span_deeds : Span (Deeds P S : World (Host η) → World (Host η) → Prop) (Deeds P S) where
  refl := Deeds.refl
  weaken h := h
  trans := Deeds.trans
  append := Deeds.trans

/-- Deeds while a machine that `P` holds of is alive at an address. -/
def DeedsAt (P : VmId → Prop) (S : Powers) (vm : VmId) (a : Address) (w w' : World (Host η)) : Prop :=
  P vm → w.LiveAt vm a → Deeds P S w w'

theorem span_deedsAt (vm : VmId) (a : Address) :
    Span (DeedsAt P S vm a : World (Host η) → World (Host η) → Prop) (DeedsAt P S vm a) := by
  have htrans : ∀ {s t u : World (Host η)}, DeedsAt P S vm a s t → DeedsAt P S vm a t u →
      DeedsAt P S vm a s u := by
    intro s t u h h' hP hl hs
    obtain ⟨hsteps, hgentle⟩ := (h hP hl).calm hs
    exact (h hP hl hs).trans (h' hP ((hgentle.live vm a).2 hl) (hsteps.sound hs))
  exact ⟨fun w _ _ => Deeds.refl w, fun h => h, htrans, htrans⟩

/-- Computations of deeds on machines that `P` holds of. -/
abbrev IsDeed (P : VmId → Prop) (S : Powers) (x : Run (World (Host η)) φ α) : Prop :=
  ∀ w, Within (Deeds P S) (Deeds P S) x w

/-- Computations of deeds, provided a machine is alive at an address. -/
abbrev IsDeedAt (P : VmId → Prop) (S : Powers) (vm : VmId) (a : Address)
    (x : Run (World (Host η)) φ α) : Prop :=
  ∀ w, Within (DeedsAt P S vm a) (DeedsAt P S vm a) x w

theorem deedAt_of_deed {x : Run (World (Host η)) φ α} (vm : VmId) (a : Address)
    (h : IsDeed P S x) : IsDeedAt P S vm a x :=
  fun w => (h w).mono (fun hd _ _ => hd) (fun hd _ _ => hd)

theorem deed_of_deedAt {x : Run (World (Host η)) φ α} {vm : VmId} {a : Address}
    {w : World (Host η)} (h : IsDeedAt P S vm a x) (hP : P vm) (hl : w.LiveAt vm a) :
    Within (Deeds P S) (Deeds P S) x w :=
  (h w).mono (fun hd => hd hP hl) (fun hd => hd hP hl)

end

end ScriptHost.Bridge
