/-!
# UTF-8, strict and lossy

`leading` reads the first character of a byte string, or says how many bytes of it can never become
a character, or that the string ends inside one.  Strict decoding stops at the first such place and
reports it; lossy decoding writes one replacement character for it and goes on behind it.
-/

namespace ScriptHost.Text.Utf8

/-- What stands at the start of a non-empty byte string. -/
inductive Leading where
  /-- A whole character, and the bytes behind it. -/
  | char (c : Char) (rest : List UInt8)
  /-- `count` bytes that begin no character, and the bytes behind them. -/
  | invalid (count : Nat) (rest : List UInt8)
  /-- The string ends inside a character. -/
  | incomplete

/-- Whether a byte continues a character. -/
def isTail (b : UInt8) : Bool := 0x80 ≤ b && b ≤ 0xBF

/-- Whether `b` may be the second byte of a character whose first byte is `a`. -/
def isSecond (a b : UInt8) : Bool :=
  if a == 0xE0 then 0xA0 ≤ b && b ≤ 0xBF
  else if a == 0xED then 0x80 ≤ b && b ≤ 0x9F
  else if a == 0xF0 then 0x90 ≤ b && b ≤ 0xBF
  else if a == 0xF4 then 0x80 ≤ b && b ≤ 0x8F
  else isTail b

/-- The number of bytes of a character with first byte `a`, zero if no character begins so. -/
def width (a : UInt8) : Nat :=
  if a ≤ 0x7F then 1
  else if 0xC2 ≤ a && a ≤ 0xDF then 2
  else if 0xE0 ≤ a && a ≤ 0xEF then 3
  else if 0xF0 ≤ a && a ≤ 0xF4 then 4
  else 0

/-- The six payload bits of a continuation byte. -/
def low (b : UInt8) : Nat := b.toNat % 64

/-- The first character of `a :: rest`.  Bytes that already rule a character out are counted
together, so that an invalid stretch is the longest one that could have begun a character. -/
def leading (a : UInt8) (rest : List UInt8) : Leading :=
  match width a, rest with
  | 1, rest => .char (Char.ofNat a.toNat) rest
  | 2, [] => .incomplete
  | 2, b :: r =>
    if isTail b then .char (Char.ofNat (a.toNat % 32 * 64 + low b)) r else .invalid 1 (b :: r)
  | 3, [] => .incomplete
  | 3, [b] => if isSecond a b then .incomplete else .invalid 1 [b]
  | 3, b :: c :: r =>
    if !isSecond a b then .invalid 1 (b :: c :: r)
    else if isTail c then .char (Char.ofNat ((a.toNat % 16 * 64 + low b) * 64 + low c)) r
    else .invalid 2 (c :: r)
  | 4, [] => .incomplete
  | 4, [b] => if isSecond a b then .incomplete else .invalid 1 [b]
  | 4, [b, c] =>
    if !isSecond a b then .invalid 1 [b, c]
    else if isTail c then .incomplete else .invalid 2 [c]
  | 4, b :: c :: d :: r =>
    if !isSecond a b then .invalid 1 (b :: c :: d :: r)
    else if !isTail c then .invalid 2 (c :: d :: r)
    else if isTail d then
      .char (Char.ofNat (((a.toNat % 8 * 64 + low b) * 64 + low c) * 64 + low d)) r
    else .invalid 3 (d :: r)
  | _, rest => .invalid 1 rest

/-- Where and how a byte string fails to be UTF-8. -/
structure Failure where
  /-- The number of bytes before the failure. -/
  index : Nat
  /-- The length of the offending stretch, `none` if the string ends inside a character. -/
  width? : Option Nat
  deriving DecidableEq, Repr

/-- The wording of a failure. -/
def Failure.message (f : Failure) : String :=
  match f.width? with
  | some n => s!"invalid utf-8 sequence of {n} bytes from index {f.index}"
  | none => s!"incomplete utf-8 byte sequence from index {f.index}"

/-- Strict decoding with at most `fuel` characters, `index` bytes into the string and behind the
characters of `read`, the last one first. -/
def decodeFrom : Nat → Nat → List Char → List UInt8 → Except Failure (List Char)
  | 0, _, read, _ => .ok read.reverse
  | _ + 1, _, read, [] => .ok read.reverse
  | fuel + 1, index, read, a :: rest =>
    match leading a rest with
    | .char c r => decodeFrom fuel (index + width a) (c :: read) r
    | .invalid n _ => .error ⟨index, some n⟩
    | .incomplete => .error ⟨index, none⟩

/-- What was read before stands in front of what is read. -/
theorem decodeFrom_eq_map (fuel index : Nat) (read : List Char) (bytes : List UInt8) :
    decodeFrom fuel index read bytes =
      (decodeFrom fuel index [] bytes).map (read.reverse ++ ·) := by
  induction fuel generalizing index read bytes with
  | zero => simp [decodeFrom, Except.map]
  | succ fuel ih =>
    cases bytes with
    | nil => simp [decodeFrom, Except.map]
    | cons a rest =>
      rw [decodeFrom, decodeFrom]
      cases leading a rest with
      | char c r =>
        dsimp only
        rw [ih (index + width a) (c :: read) r, ih (index + width a) [c] r]
        cases decodeFrom fuel (index + width a) [] r <;> simp [Except.map]
      | invalid n r => rfl
      | incomplete => rfl

/-- The text that a byte string encodes. -/
def decode (bytes : List UInt8) : Except Failure String :=
  (decodeFrom bytes.length 0 [] bytes).map String.ofList

/-- Lossy decoding with at most `fuel` characters, behind the characters of `read`, the last one
first. -/
def decodeLossyFrom : Nat → List Char → List UInt8 → List Char
  | 0, read, _ => read.reverse
  | _ + 1, read, [] => read.reverse
  | fuel + 1, read, a :: rest =>
    match leading a rest with
    | .char c r => decodeLossyFrom fuel (c :: read) r
    | .invalid _ r => decodeLossyFrom fuel ('\uFFFD' :: read) r
    | .incomplete => ('\uFFFD' :: read).reverse

/-- What was read before stands in front of what is read. -/
theorem decodeLossyFrom_eq_append (fuel : Nat) (read : List Char) (bytes : List UInt8) :
    decodeLossyFrom fuel read bytes = read.reverse ++ decodeLossyFrom fuel [] bytes := by
  induction fuel generalizing read bytes with
  | zero => simp [decodeLossyFrom]
  | succ fuel ih =>
    cases bytes with
    | nil => simp [decodeLossyFrom]
    | cons a rest =>
      rw [decodeLossyFrom, decodeLossyFrom]
      cases leading a rest with
      | char c r =>
        dsimp only
        rw [ih (c :: read) r, ih [c] r]
        simp
      | invalid n r =>
        dsimp only
        rw [ih ('\uFFFD' :: read) r, ih ['\uFFFD'] r]
        simp
      | incomplete => simp

/-- The text of a byte string, with a replacement character for every stretch that encodes none. -/
def decodeLossy (bytes : List UInt8) : String :=
  String.ofList (decodeLossyFrom bytes.length [] bytes)

/-- The bytes of a text. -/
def encode (s : String) : List UInt8 := s.toUTF8.toList

end ScriptHost.Text.Utf8
