/-!
# Hexadecimal text

Addresses are written as `0x` followed by lower-case digits without leading zeros, byte strings as
two lower-case digits per byte.  `decodeBytes?` reads exactly the texts that `encodeBytes` writes,
in either case of letter.
-/

namespace ScriptHost.Text.Hex

/-- The lower-case digit of a value below sixteen. -/
def digit (n : Nat) : Char :=
  if n < 10 then Char.ofNat ('0'.toNat + n) else Char.ofNat ('a'.toNat + (n - 10))

/-- The value of a hexadecimal digit of either case. -/
def value? (c : Char) : Option Nat :=
  if '0' ≤ c ∧ c ≤ '9' then some (c.toNat - '0'.toNat)
  else if 'a' ≤ c ∧ c ≤ 'f' then some (c.toNat - 'a'.toNat + 10)
  else if 'A' ≤ c ∧ c ≤ 'F' then some (c.toNat - 'A'.toNat + 10)
  else none

/-- Whether a character is a hexadecimal digit of either case. -/
def isDigit (c : Char) : Bool := (value? c).isSome

/-- The digits of `n`, most significant first, and `0` for zero. -/
def digits (n : Nat) : List Char :=
  if n < 16 then [digit n] else digits (n / 16) ++ [digit (n % 16)]
termination_by n

/-- An address as it appears in messages. -/
def address (n : Nat) : String := "0x" ++ String.ofList (digits n)

/-- The number that a string of digits denotes, most significant first. -/
def number? (cs : List Char) : Option Nat :=
  cs.foldl (fun acc c => do some ((← acc) * 16 + (← value? c))) (some 0)

/-- The digits of `n` padded with zeros on the left to at least `width` digits. -/
def padded (width n : Nat) : String :=
  let ds := digits n
  String.ofList (List.replicate (width - ds.length) '0' ++ ds)

/-- Two digits per byte. -/
def encodeBytes (bytes : List UInt8) : String :=
  String.ofList (bytes.flatMap fun b => [digit (b.toNat / 16), digit (b.toNat % 16)])

/-- The bytes that pairs of digits denote. -/
def decodeChars? : List Char → Option (List UInt8)
  | [] => some []
  | [_] => none
  | h :: l :: rest => do
    let hi ← value? h
    let lo ← value? l
    let tail ← decodeChars? rest
    some (UInt8.ofNat (hi * 16 + lo) :: tail)

/-- The bytes that a text of pairs of digits denotes. -/
def decodeBytes? (s : String) : Option (List UInt8) := decodeChars? s.toList

/-- A digit has the value it was written for. -/
theorem value?_digit : ∀ n < 16, value? (digit n) = some n := by decide

/-- What is written for bytes reads back as the bytes. -/
theorem decodeBytes?_encodeBytes (bytes : List UInt8) :
    decodeBytes? (encodeBytes bytes) = some bytes := by
  simp only [decodeBytes?, encodeBytes, String.toList_ofList]
  induction bytes with
  | nil => rfl
  | cons b rest ih =>
    have hb : b.toNat < 256 := b.toNat_lt
    have hi := value?_digit (b.toNat / 16) (by omega)
    have hl := value?_digit (b.toNat % 16) (by omega)
    have hm : UInt8.ofNat (b.toNat / 16 * 16 + b.toNat % 16) = b := by
      rw [Nat.div_add_mod']
      exact UInt8.ofNat_toNat
    simp only [List.flatMap_cons, List.cons_append, List.nil_append, decodeChars?, hi, hl, ih,
      Option.bind_eq_bind, Option.bind_some, hm]

end ScriptHost.Text.Hex
