import ScriptHost.Number.Format

/-!
# Floating-point numbers as bit patterns

Script numbers are 64-bit floating-point values; hosts may also read and write 32-bit ones.  Both
are kept as their bits, and every operation is exact arithmetic on the decoded value followed by one
rounding, so that nothing depends on the arithmetic of the machine underneath.
-/

namespace ScriptHost.Number

/-- A 64-bit floating-point number. -/
structure Double where
  bits : UInt64
  deriving DecidableEq, Repr, Inhabited

/-- A 32-bit floating-point number. -/
structure Single where
  bits : UInt32
  deriving DecidableEq, Repr, Inhabited

namespace Double

/-- The sign bit as a pattern. -/
def signBit : Nat := 0x8000000000000000

/-- The double with a sign and a pattern without sign. -/
def ofPattern (negative : Bool) (pattern : Nat) : Double :=
  ⟨UInt64.ofNat (if negative then signBit + pattern else pattern)⟩

/-- Whether the sign bit is set. -/
def isNegative (x : Double) : Bool := signBit ≤ x.bits.toNat

/-- The bits without the sign. -/
def pattern (x : Double) : Nat := x.bits.toNat % signBit

/-- Positive zero. -/
def zero : Double := ⟨0⟩

/-- The quiet not-a-number. -/
def nan : Double := ⟨0x7FF8000000000000⟩

/-- Whether `x` is not a number. -/
def isNaN (x : Double) : Bool := Format.double.infinity < x.pattern

/-- Whether `x` is infinite. -/
def isInfinite (x : Double) : Bool := x.pattern == Format.double.infinity

/-- Whether `x` is a zero of either sign. -/
def isZero (x : Double) : Bool := x.pattern == 0

/-- The magnitude of a finite number. -/
def magnitude (x : Double) : Scaled := Format.double.decode x.pattern

/-- The number with the sign bit flipped. -/
def neg (x : Double) : Double := ofPattern (!x.isNegative) x.pattern

/-- Numeric equality: not-a-number differs from everything, the two zeros are equal. -/
def same (x y : Double) : Bool :=
  !x.isNaN && !y.isNaN && (x.bits == y.bits || x.isZero && y.isZero)

/-- The number nearest to an integer. -/
def ofInt (i : Int) : Double := ofPattern (i < 0) (Format.double.nearest i.natAbs 1)

/-- The number nearest to `digits / 10 ^ places`. -/
def ofDecimal (digits places : Nat) : Double :=
  ofPattern false (Format.double.nearest digits (Nat.pow 10 places))

/-- A finite number as an integer multiple of `2 ^ unit`, for `unit` at most its own. -/
def multipleOf (x : Double) (unit : Int) : Int :=
  let s := x.magnitude
  let m : Int := ((s.significand * Nat.pow 2 (s.unit - unit).toNat : Nat) : Int)
  if x.isNegative then -m else m

/-- The sum, rounded once. -/
def add (x y : Double) : Double :=
  if x.isNaN || y.isNaN then nan
  else if x.isInfinite then
    if y.isInfinite && x.isNegative != y.isNegative then nan else x
  else if y.isInfinite then y
  else
    let unit := min x.magnitude.unit y.magnitude.unit
    let sum := x.multipleOf unit + y.multipleOf unit
    let negative := if sum = 0 then x.isNegative && y.isNegative else decide (sum < 0)
    ofPattern negative (Format.double.encode ⟨sum.natAbs, unit⟩)

/-- The magnitude of a finite number rounded to an integer, a half away from zero. -/
def roundMagnitude (s : Scaled) : Nat :=
  if 0 ≤ s.unit then s.significand * Nat.pow 2 s.unit.toNat
  else
    let den := Nat.pow 2 (-s.unit).toNat
    (2 * s.significand + den) / (2 * den)

/-- The least and the greatest 32-bit integer. -/
def int32Range : Int × Int := (-2147483648, 2147483647)

/-- The number rounded to an integer, a half away from zero, and brought into the 32-bit range.
Not-a-number becomes zero. -/
def toInt32 (x : Double) : Int :=
  if x.isNaN then 0
  else if x.isInfinite then if x.isNegative then int32Range.1 else int32Range.2
  else
    let m : Int := roundMagnitude x.magnitude
    max int32Range.1 (min int32Range.2 (if x.isNegative then -m else m))

/-- The nearest 32-bit number. -/
def toSingle (x : Double) : Single :=
  let pattern :=
    if x.isNaN then 0x7FC00000
    else if x.isInfinite then Format.single.infinity
    else Format.single.encode x.magnitude
  ⟨UInt32.ofNat (if x.isNegative then 0x80000000 + pattern else pattern)⟩

/-- The same value as a 64-bit number. -/
def ofSingle (y : Single) : Double :=
  let negative := 0x80000000 ≤ y.bits.toNat
  let pattern := y.bits.toNat % 0x80000000
  if Format.single.infinity < pattern then nan
  else if pattern = Format.single.infinity then ofPattern negative Format.double.infinity
  else ofPattern negative (Format.double.encode (Format.single.decode pattern))

end Double

/-- Whether a 32-bit number is not a number. -/
def Single.isNaN (y : Single) : Bool := Format.single.infinity < y.bits.toNat % 0x80000000

end ScriptHost.Number
