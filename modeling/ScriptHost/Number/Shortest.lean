import ScriptHost.Number.Double

/-!
# Shortest decimal text

A double is written with the fewest significant digits that read back as the same double, and among
those with the digits nearest to its value; of two equally near ones the greater is taken.  The
notation is positional throughout, with zeros up to the point and without a point for integers.
-/

namespace ScriptHost.Number.Shortest

/-- Significant digits `digits`, read as `0.digits * 10 ^ exponent`. -/
structure Decimal where
  digits : List Char
  exponent : Int
  deriving DecidableEq, Repr

/-- The reals that round to a double, as multiples of `2 ^ unit`: the double itself is `value`, and
the bounds belong to the interval iff `closed`. -/
structure Interval where
  low : Nat
  value : Nat
  high : Nat
  unit : Int
  closed : Bool

/-- The rounding interval of a positive finite magnitude.  Below a power of two the next value is
only half as far away. -/
def Interval.ofScaled (s : Scaled) : Interval :=
  let m := 4 * s.significand
  let below := if s.significand = Nat.pow 2 52 ∧ Format.double.finest < s.unit then 1 else 2
  ⟨m - below, m, m + 2, s.unit - 2, s.significand % 2 == 0⟩

/-- `n * 2 ^ e` as a quotient. -/
def quotient (n : Nat) (e : Int) : Nat × Nat :=
  if 0 ≤ e then (n * Nat.pow 2 e.toNat, 1) else (n, Nat.pow 2 (-e).toNat)

/-- `q / 10 ^ e` as a quotient. -/
def scaleDown (q : Nat × Nat) (e : Int) : Nat × Nat :=
  if 0 ≤ e then (q.1, q.2 * Nat.pow 10 e.toNat) else (q.1 * Nat.pow 10 (-e).toNat, q.2)

/-- Whether the quotient `a` is less than the quotient `b`. -/
def less (a b : Nat × Nat) : Bool := a.1 * b.2 < b.1 * a.2

/-- Whether `c * 10 ^ e` rounds to the double. -/
def Interval.admits (i : Interval) (c : Nat) (e : Int) : Bool :=
  let point : Nat × Nat := (c, 1)
  let low := scaleDown (quotient i.low i.unit) e
  let high := scaleDown (quotient i.high i.unit) e
  if i.closed then !less point low && !less high point else less low point && less point high

/-- The number of decimal digits of the integer part, at least the exponent of the leading digit:
an upper estimate that is lowered until `10 ^ (k - 1)` is at most the value. -/
def leadingExponent (q : Nat × Nat) : Nat → Int → Int
  | 0, k => k
  | fuel + 1, k => if less (scaleDown q (k - 1)) (1, 1) then leadingExponent q fuel (k - 1) else k

/-- The candidate with `n` digits that rounds to the double, on the grid of multiples of
`10 ^ (k - n)`. -/
def Interval.candidate? (i : Interval) (k : Int) (n : Nat) : Option Nat :=
  let e := k - n
  let q := scaleDown (quotient i.value i.unit) e
  let c := q.1 / q.2
  match i.admits c e, i.admits (c + 1) e with
  | true, true => if 2 * (q.1 % q.2) < q.2 then some c else some (c + 1)
  | true, false => some c
  | false, true => some (c + 1)
  | false, false => none

/-- The first digit count from `n` on with a candidate, and the candidate; seventeen digits always
suffice. -/
def Interval.search (i : Interval) (k : Int) : Nat → Nat → Nat × Nat
  | 0, n => (0, n)
  | fuel + 1, n =>
    match i.candidate? k n with
    | some c => (c, n)
    | none => i.search k fuel (n + 1)

/-- The decimal digits of `n`. -/
def naturalDigits (n : Nat) : List Char := (Nat.toDigits 10 n)

/-- The shortest decimal of a positive finite magnitude. -/
def ofScaled (s : Scaled) : Decimal :=
  let i := Interval.ofScaled s
  let q := quotient i.value i.unit
  let estimate : Int := (naturalDigits q.1).length - (naturalDigits q.2).length + 1
  let k := leadingExponent q 2 estimate
  let (c, n) := i.search k 18 1
  let ds := naturalDigits c
  let trimmed := (ds.reverse.dropWhile (· == '0')).reverse
  ⟨trimmed, k - n + ds.length⟩

/-- Positional notation of a decimal. -/
def Decimal.positional (d : Decimal) : String :=
  let ds := d.digits
  if d.exponent ≤ 0 then
    String.ofList (['0', '.'] ++ List.replicate (-d.exponent).toNat '0' ++ ds)
  else if ds.length ≤ d.exponent.toNat then
    String.ofList (ds ++ List.replicate (d.exponent.toNat - ds.length) '0')
  else
    String.ofList (ds.take d.exponent.toNat ++ ['.'] ++ ds.drop d.exponent.toNat)

end ScriptHost.Number.Shortest

namespace ScriptHost.Number

namespace Double

/-- The text of a number whose infinity and not-a-number have given spellings. -/
def textWith (infinity notANumber : String) (x : Double) : String :=
  let sign := if x.isNegative then "-" else ""
  if x.isNaN then notANumber
  else if x.isInfinite then sign ++ infinity
  else if x.isZero then sign ++ "0"
  else sign ++ (Shortest.ofScaled x.magnitude).positional

/-- The text of a number literal in a compile error. -/
def literalText (x : Double) : String := x.textWith "inf" "NaN"

/-- The text of a number as scripts print it.  A zero has no sign. -/
def text (x : Double) : String :=
  if x.isZero then "0" else x.textWith "infinity" "nan"

end Double

end ScriptHost.Number
