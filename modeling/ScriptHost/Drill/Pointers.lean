import ScriptHost.Session.Record

/-!
# Drills on a table

Operations on a table of 64-bit integers under addresses, one after the other, with their answers.
Arithmetic wraps around.
-/

namespace ScriptHost.Drill

open Session (Answer)

/-- A table of integers under addresses. -/
abbrev Pointers := Table Nat Int64

/-- An operation on a table of integers. -/
inductive PointerAction where
  | tryAdd (address : Nat) (v : Int64)
  | set (address : Nat) (v : Int64)
  | tryGet (address : Nat)
  | remove (address : Nat)
  | removeIfEqual (address : Nat) (v : Int64)
  | contains (address : Nat)
  /-- Reads the negated value. -/
  | negated (address : Nat)
  /-- Adds to a value in place and reads the sum. -/
  | addTo (address : Nat) (v : Int64)
  | size
  | isEmpty
  | countAtLeast (v : Int64)

/-- The answer with a value that may be absent. -/
def valueAnswer (v? : Option Int64) : Answer :=
  match v? with
  | some v => .integer v.toInt
  | none => .null

/-- Performs an operation. -/
def PointerAction.perform (t : Pointers) : PointerAction → Answer × Pointers
  | .tryAdd a v => ((.bool (t.tryAdd a v).1), (t.tryAdd a v).2)
  | .set a v => (valueAnswer (t.find? a), t.insert a v)
  | .tryGet a => (valueAnswer (t.find? a), t)
  | .remove a => (valueAnswer (t.find? a), t.erase a)
  | .removeIfEqual a v => (valueAnswer (t.removeIf a (· == v)).1, (t.removeIf a (· == v)).2)
  | .contains a => (.bool (t.contains a), t)
  | .negated a => (valueAnswer ((t.find? a).map (-·)), t)
  | .addTo a v => (valueAnswer ((t.find? a).map (· + v)), t.modify a (· + v))
  | .size => (.count t.size, t)
  | .isEmpty => (.bool t.isEmpty, t)
  | .countAtLeast v => (.count (t.countValues (v ≤ ·)), t)

/-- The answers of operations on a table, in order. -/
def answers : List PointerAction → Pointers → List Answer
  | [], _ => []
  | a :: rest, t =>
    let (answer, t) := a.perform t
    answer :: answers rest t

end ScriptHost.Drill
