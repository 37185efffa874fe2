import ScriptHost.Bridge.Bindings

/-!
# Threads at one registry

Several threads work on one registry at once.  What they achieve together does not depend on the
order in which their steps meet, so any fair order shows it: the threads take turns, one step each.
-/

namespace ScriptHost.Drill

open Bridge
open Machine (Key)

/-! ## Adding addresses -/

/-- The number of successful additions of addresses to a table, and the number of its entries. -/
def addAll (addresses : List Nat) : Nat × Nat :=
  let (wins, table) := addresses.foldl (fun (wins, (t : Table Nat Unit)) a =>
    let (added, t) := t.tryAdd a ()
    (if added then wins + 1 else wins, t)) (0, .empty)
  (wins, table.size)

/-- The distance of the addresses that threads add. -/
def spacing : Nat := 16

/-- Every thread adds addresses of its own. -/
def distinctAddresses (threads count : Nat) : List Nat :=
  (List.range threads).flatMap fun t =>
    (List.range count).map fun i => (t * count + i) * spacing

/-- Every thread adds the same addresses. -/
def sameAddresses (threads count : Nat) : List Nat :=
  (List.range count).flatMap fun i => List.replicate threads i

/-! ## Registering bindings -/

/-- A thread that registers bindings one after the other. -/
structure Worker (β : Type) where
  stage : Stage
  /-- The bindings to register, the current one first. -/
  pending : List β
  /-- The keys that the thread has got. -/
  keys : List Key

/-- One step of a thread. -/
def Worker.step {β : Type} (s : Compartment β) (w : Worker β) (r : Bindings) :
    Worker β × Bindings :=
  match w.pending with
  | [] => (w, r)
  | binding :: rest =>
    match w.stage with
    | .done key _ => (⟨.search, rest, key :: w.keys⟩, r)
    | stage =>
      let (stage, r) := s.step binding r stage
      ({ w with stage }, r)

/-- One step of every thread. -/
def turn {β : Type} (s : Compartment β) : List (Worker β) → Bindings → List (Worker β) × Bindings
  | [], r => ([], r)
  | w :: rest, r =>
    let (w, r) := w.step s r
    let (rest, r) := turn s rest r
    (w :: rest, r)

/-- A number of turns. -/
def turns {β : Type} (s : Compartment β) :
    Nat → List (Worker β) × Bindings → List (Worker β) × Bindings
  | 0, state => state
  | n + 1, (workers, r) => turns s n (turn s workers r)

/-- Threads register the same bindings; returns the keys they get. -/
def race {β : Type} (s : Compartment β) (threads : Nat) (bindings : List β) (r : Bindings) :
    List Key × Bindings :=
  let workers := List.replicate threads ⟨.search, bindings, []⟩
  let (workers, r) := turns s ((Compartment.stepBound + 1) * bindings.length) (workers, r)
  (workers.flatMap Worker.keys, r)

/-- The number of keys, of methods and of classes after threads have registered the same methods and
then the same classes. -/
def raceBindings (threads count : Nat) : Nat × Nat × Nat :=
  let methods := (List.range count).map fun i => MethodBinding.mk i none
  let classes := (List.range count).map fun i => ClassBinding.mk i none
  let (methodKeys, r) := race .methods threads methods .empty
  let (classKeys, r) := race .classes threads classes r
  ((methodKeys ++ classKeys).eraseDups.length, r.methodCount, r.classCount)

end ScriptHost.Drill
