import ScriptHost.Machine.Heap

/-!
# Garbage collection

A collection keeps the objects that can be reached from its roots and removes all others.  Removed
foreign objects are handed back in the order of their numbers, each with its data block and the
finalizer that its class had before the sweep, so that a class may go together with its instances.
-/

namespace ScriptHost.Machine

/-- A foreign object that has left the heap. -/
structure Dead where
  block : Block
  finalize? : Option Key
  deriving DecidableEq, Repr

namespace Heap

/-- The objects that the object with a number refers to. -/
def references (h : Heap) (id : ObjectId) : List ObjectId :=
  match h.get? id with
  | some o => o.references
  | none => []

/-- The number of references between objects of the heap. -/
def referenceCount (h : Heap) : Nat :=
  h.objects.values.foldl (fun n o => n + o.references.length) 0

/-- The objects reached from `pending`, added to those `marked` before.  Each step settles one
pending number, and an object's references become pending once, so that roots and references
together bound the number of steps. -/
def markFrom (h : Heap) : Nat → List ObjectId → List ObjectId → List ObjectId
  | _, marked, [] => marked
  | 0, marked, _ :: _ => marked
  | fuel + 1, marked, id :: pending =>
    if marked.contains id then h.markFrom fuel marked pending
    else h.markFrom fuel (id :: marked) (h.references id ++ pending)

/-- The numbers that can be reached from `roots`. -/
def reachable (h : Heap) (roots : List ObjectId) : List ObjectId :=
  h.markFrom (roots.length + h.referenceCount) [] roots

/-- The finalizer of the class of an object. -/
def finalizer? (h : Heap) (owner : ObjectId) : Option Key := (h.class? owner).bind Class.finalize?

/-- What remains of the object with a number, if it is foreign. -/
def remains? (h : Heap) (id : ObjectId) : Option Dead :=
  match h.get? id with
  | some (.foreign owner block) => some ⟨block, h.finalizer? owner⟩
  | _ => none

/-- Removes objects by number.  The foreign ones among them are returned in increasing order. -/
def release (h : Heap) (ids : List ObjectId) : List Dead × Heap :=
  let sorted := ids.mergeSort
  (sorted.filterMap h.remains?,
    { h with objects := sorted.foldl (fun t id => t.erase id) h.objects })

/-- Removes every object that cannot be reached from `roots`. -/
def collect (h : Heap) (roots : List ObjectId) : List Dead × Heap :=
  let marked := h.reachable roots
  h.release (h.objects.keys.filter fun id => !marked.contains id)

/-- Removes every object. -/
def drain (h : Heap) : List Dead × Heap := h.release h.objects.keys

end Heap

end ScriptHost.Machine
