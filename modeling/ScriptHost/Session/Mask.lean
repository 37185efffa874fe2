import ScriptHost.Text.Hex

/-!
# Masking addresses

Addresses differ from run to run, so a session shows none: each is replaced by the name of the
machine that lies there, or by a word.  An address is `0x` and at least nine digits; shorter numbers
stay as they are.
-/

namespace ScriptHost.Session.Mask

/-- The least number of digits of an address. -/
def minDigits : Nat := 9

/-- What stands for an address. -/
def placeholder (vmName : Nat → Option String) (digits : List Char) : List Char :=
  match (Text.Hex.number? digits).bind vmName with
  | some name => "<vm:".toList ++ name.toList ++ ['>']
  | none => "<addr>".toList

/-- A text with its addresses replaced, behind the characters of `done`, the last one first.  Every
step leaves less of the text, so its length bounds the number of steps. -/
def maskFrom (vmName : Nat → Option String) : Nat → List Char → List Char → List Char
  | 0, done, cs => done.reverse ++ cs
  | _ + 1, done, [] => done.reverse
  | fuel + 1, done, '0' :: 'x' :: rest =>
    let digits := rest.takeWhile Text.Hex.isDigit
    if minDigits ≤ digits.length then
      maskFrom vmName fuel ((placeholder vmName digits).reverse ++ done)
        (rest.dropWhile Text.Hex.isDigit)
    else maskFrom vmName fuel ('0' :: done) ('x' :: rest)
  | fuel + 1, done, c :: rest => maskFrom vmName fuel (c :: done) rest

/-- What was done before stands in front of what is done. -/
theorem maskFrom_eq_append (vmName : Nat → Option String) (fuel : Nat) (done cs : List Char) :
    maskFrom vmName fuel done cs = done.reverse ++ maskFrom vmName fuel [] cs := by
  induction fuel generalizing done cs with
  | zero => simp [maskFrom]
  | succ fuel ih =>
    by_cases h : ∃ rest, cs = '0' :: 'x' :: rest
    · obtain ⟨rest, rfl⟩ := h
      rw [maskFrom, maskFrom]
      split
      · rw [ih (_ ++ done), ih (_ ++ [])]
        simp
      · rw [ih ('0' :: done), ih ['0']]
        simp
    · cases cs with
      | nil => simp [maskFrom]
      | cons c rest =>
        have hc : ∀ more, c = '0' → rest = 'x' :: more → False := fun more h₁ h₂ =>
          h ⟨more, by rw [h₁, h₂]⟩
        rw [maskFrom.eq_4 _ _ _ _ _ hc, maskFrom.eq_4 _ _ _ _ _ hc, ih (c :: done), ih [c]]
        simp

/-- A text with its addresses replaced. -/
def mask (vmName : Nat → Option String) (s : String) : String :=
  String.ofList (maskFrom vmName s.length [] s.toList)

end ScriptHost.Session.Mask
