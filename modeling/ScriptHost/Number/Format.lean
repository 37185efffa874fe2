/-!
# Binary number formats

A format has a precision, the exponent of its finest unit and a bit pattern for infinity.  `nearest`
rounds a quotient of natural numbers to the format, ties to even, and returns the bit pattern
without its sign.  The pattern of a finite value is its distance from zero in representable steps,
so that a carry out of the fraction moves into the exponent by itself.
-/

namespace ScriptHost.Number

/-- A binary interchange format: `precision` significant bits, finest unit `2 ^ finest`, and
`infinity` as the pattern behind the largest finite value. -/
structure Format where
  precision : Nat
  finest : Int
  infinity : Nat

/-- Sixty-four bits. -/
def Format.double : Format := ⟨53, -1074, 0x7FF0000000000000⟩

/-- Thirty-two bits. -/
def Format.single : Format := ⟨24, -149, 0x7F800000⟩

/-- The quotient rounded to an integer, a tie to the even neighbour. -/
def roundEven (num den : Nat) : Nat :=
  let q := num / den
  let r := num % den
  if 2 * r < den then q else if den < 2 * r then q + 1 else q + q % 2

/-- The exponent of the greatest power of two that is at most `num / den`, for positive operands. -/
def floorLog2 (num den : Nat) : Int :=
  let e : Int := (num.log2 : Int) - (den.log2 : Int)
  if 0 ≤ e then
    if den * Nat.pow 2 e.toNat ≤ num then e else e - 1
  else
    if den ≤ num * Nat.pow 2 (-e).toNat then e else e - 1

/-- The pattern of the value of the format nearest to `num / den`, ties to even. -/
def Format.nearest (f : Format) (num den : Nat) : Nat :=
  if num = 0 then 0
  else
    let unit := max f.finest (floorLog2 num den - ((f.precision : Int) - 1))
    let m := if 0 ≤ unit then roundEven num (den * Nat.pow 2 unit.toNat)
      else roundEven (num * Nat.pow 2 (-unit).toNat) den
    min f.infinity ((unit - f.finest).toNat * Nat.pow 2 (f.precision - 1) + m)

/-- A finite value as `significand * 2 ^ unit`. -/
structure Scaled where
  significand : Nat
  unit : Int
  deriving DecidableEq, Repr

/-- The value of a finite pattern without its sign. -/
def Format.decode (f : Format) (pattern : Nat) : Scaled :=
  let step := Nat.pow 2 (f.precision - 1)
  let e := pattern / step
  if e = 0 then ⟨pattern, f.finest⟩
  else ⟨pattern % step + step, f.finest + (e - 1)⟩

/-- The pattern of `significand * 2 ^ unit`, rounded to the format. -/
def Format.encode (f : Format) (s : Scaled) : Nat :=
  if 0 ≤ s.unit then f.nearest (s.significand * Nat.pow 2 s.unit.toNat) 1
  else f.nearest s.significand (Nat.pow 2 (-s.unit).toNat)

end ScriptHost.Number
