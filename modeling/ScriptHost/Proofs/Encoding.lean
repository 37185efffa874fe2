import ScriptHost.Text.Terminated
import ScriptHost.Text.Utf8

/-!
# Texts that cross as bytes

A text that is encoded and read back is the same text.  Its characters have one to four bytes; the
first byte tells how many, and the bytes behind it hold six bits each (`leading_encodeChar`).  The
bounds on the second byte rule out codes that are too long, and codes of no characters.
-/

namespace ScriptHost.Text

namespace Utf8

/-! ## Single bytes -/

theorem toNat_byte {n : Nat} (h : n < 256) : (UInt8.ofNat n).toNat = n := by
  rw [UInt8.toNat_ofNat']
  exact Nat.mod_eq_of_lt h

/-- The number of bytes that a first byte tells. -/
theorem width_byte {n : Nat} (h : n < 256) : width (UInt8.ofNat n) =
    if n ≤ 0x7F then 1
    else if 0xC2 ≤ n ∧ n ≤ 0xDF then 2
    else if 0xE0 ≤ n ∧ n ≤ 0xEF then 3
    else if 0xF0 ≤ n ∧ n ≤ 0xF4 then 4
    else 0 := by
  simp only [width, Bool.and_eq_true, decide_eq_true_eq, UInt8.le_iff_toNat_le, toNat_byte h]
  rfl

/-- Whether a byte behind the first one lies between two bounds. -/
theorem between_byte {n : Nat} (h : n < 64) (lower upper : UInt8) :
    (decide (lower ≤ UInt8.ofNat (n + 128)) && decide (UInt8.ofNat (n + 128) ≤ upper)) = true ↔
      lower.toNat ≤ n + 128 ∧ n + 128 ≤ upper.toNat := by
  rw [Bool.and_eq_true, decide_eq_true_eq, decide_eq_true_eq, UInt8.le_iff_toNat_le,
    UInt8.le_iff_toNat_le, toNat_byte (by omega)]

theorem isTail_byte {n : Nat} (h : n < 64) : isTail (UInt8.ofNat (n + 128)) = true :=
  (between_byte h 0x80 0xBF).2 ⟨Nat.le_add_left 128 n, Nat.add_le_add_right (Nat.le_of_lt_succ h) 128⟩

theorem low_byte {n : Nat} (h : n < 64) : low (UInt8.ofNat (n + 128)) = n := by
  rw [low, toNat_byte (by omega)]
  omega

/-- The second byte of a character, by what the first one leaves open. -/
theorem isSecond_byte {m n : Nat} (hm : m < 256) (hn : n < 64)
    (h : (m = 0xE0 → 32 ≤ n) ∧ (m = 0xED → n < 32) ∧ (m = 0xF0 → 16 ≤ n) ∧ (m = 0xF4 → n < 16)) :
    isSecond (UInt8.ofNat m) (UInt8.ofNat (n + 128)) = true := by
  obtain ⟨hE0, hED, hF0, hF4⟩ := h
  have hfirst : ∀ b : UInt8, UInt8.ofNat m = b ↔ m = b.toNat := by
    intro b
    rw [← UInt8.toNat_inj, toNat_byte hm]
  unfold isSecond
  simp only [beq_iff_eq, hfirst]
  split
  · next heq =>
    have hlower := hE0 heq
    exact (between_byte hn 0xA0 0xBF).2 ⟨Nat.add_le_add_right hlower 128, by simp; omega⟩
  split
  · next heq =>
    have hupper := hED heq
    exact (between_byte hn 0x80 0x9F).2 ⟨Nat.le_add_left 128 n, by simp; omega⟩
  split
  · next heq =>
    have hlower := hF0 heq
    exact (between_byte hn 0x90 0xBF).2 ⟨Nat.add_le_add_right hlower 128, by simp; omega⟩
  split
  · next heq =>
    have hupper := hF4 heq
    exact (between_byte hn 0x80 0x8F).2 ⟨Nat.le_add_left 128 n, by simp; omega⟩
  · exact isTail_byte hn

/-! ## Characters -/

variable {a b c d : UInt8} {rest : List UInt8}

theorem leading_of_one (h : width a = 1) : leading a rest = .char (Char.ofNat a.toNat) rest := by
  unfold leading
  rw [h]
  rcases rest with _ | ⟨b, _ | ⟨c, _ | ⟨d, rest⟩⟩⟩ <;> rfl

theorem leading_of_two (h : width a = 2) (hb : isTail b = true) :
    leading a (b :: rest) = .char (Char.ofNat (a.toNat % 32 * 64 + low b)) rest := by
  unfold leading
  rw [h]
  exact if_pos hb

theorem leading_of_three (h : width a = 3) (hb : isSecond a b = true) (hc : isTail c = true) :
    leading a (b :: c :: rest) =
      .char (Char.ofNat ((a.toNat % 16 * 64 + low b) * 64 + low c)) rest := by
  have hb' : ¬ (!isSecond a b) = true := by simp [hb]
  unfold leading
  rw [h]
  exact (if_neg hb').trans (if_pos hc)

theorem leading_of_four (h : width a = 4) (hb : isSecond a b = true) (hc : isTail c = true)
    (hd : isTail d = true) :
    leading a (b :: c :: d :: rest) =
      .char (Char.ofNat (((a.toNat % 8 * 64 + low b) * 64 + low c) * 64 + low d)) rest := by
  have hb' : ¬ (!isSecond a b) = true := by simp [hb]
  have hc' : ¬ (!isTail c) = true := by simp [hc]
  unfold leading
  rw [h]
  exact (if_neg hb').trans ((if_neg hc').trans (if_pos hd))

/-- **The first character of an encoded text is read back.** -/
theorem leading_encodeChar (c : Char) (rest : List UInt8) :
    ∃ a tail, String.utf8EncodeChar c = a :: tail ∧ leading a (tail ++ rest) = .char c rest := by
  have hc : Char.ofNat c.val.toNat = c := Char.ofNat_toNat c
  have hvalid : c.val.toNat < 0xD800 ∨ 0xDFFF < c.val.toNat ∧ c.val.toNat < 0x110000 := c.valid
  unfold String.utf8EncodeChar
  generalize c.val.toNat = v at hc hvalid
  -- six bits from each byte but the first
  have h₀ : v % 64 < 64 := Nat.mod_lt v (by decide)
  have h₁ : v / 64 % 64 < 64 := Nat.mod_lt _ (by decide)
  have h₂ : v / 4096 % 64 < 64 := Nat.mod_lt _ (by decide)
  dsimp only
  split
  · refine ⟨_, _, rfl, ?_⟩
    have hw : width (UInt8.ofNat v) = 1 := by rw [width_byte (by omega), if_pos (by omega)]
    rw [List.nil_append, leading_of_one hw, toNat_byte (show v < 256 by omega), hc]
  split
  · refine ⟨_, _, rfl, ?_⟩
    have ha : v / 64 % 32 + 192 < 256 := by omega
    have hw : width (UInt8.ofNat (v / 64 % 32 + 192)) = 2 := by
      rw [width_byte ha, if_neg (by omega), if_pos (by omega)]
    have hv : (v / 64 % 32 + 192) % 32 * 64 + v % 64 = v := by omega
    rw [List.cons_append, List.nil_append, leading_of_two hw (isTail_byte h₀), low_byte h₀,
      toNat_byte ha, hv, hc]
  split
  · refine ⟨_, _, rfl, ?_⟩
    have ha : v / 4096 % 16 + 224 < 256 := by omega
    have hw : width (UInt8.ofNat (v / 4096 % 16 + 224)) = 3 := by
      rw [width_byte ha, if_neg (by omega), if_neg (by omega), if_pos (by omega)]
    have hsecond := isSecond_byte ha h₁ (by omega)
    have hv : ((v / 4096 % 16 + 224) % 16 * 64 + v / 64 % 64) * 64 + v % 64 = v := by omega
    rw [List.cons_append, List.cons_append, List.nil_append,
      leading_of_three hw hsecond (isTail_byte h₀), low_byte h₀, low_byte h₁, toNat_byte ha, hv, hc]
  · refine ⟨_, _, rfl, ?_⟩
    have ha : v / 262144 % 8 + 240 < 256 := by omega
    have hw : width (UInt8.ofNat (v / 262144 % 8 + 240)) = 4 := by
      rw [width_byte ha, if_neg (by omega), if_neg (by omega), if_neg (by omega),
        if_pos (by omega)]
    have hsecond := isSecond_byte ha h₂ (by omega)
    have hv : (((v / 262144 % 8 + 240) % 8 * 64 + v / 4096 % 64) * 64 + v / 64 % 64) * 64 +
        v % 64 = v := by omega
    rw [List.cons_append, List.cons_append, List.cons_append, List.nil_append,
      leading_of_four hw hsecond (isTail_byte h₁) (isTail_byte h₀), low_byte h₀, low_byte h₁,
      low_byte h₂, toNat_byte ha, hv, hc]

/-! ## Texts -/

/-- As many steps as there are bytes are enough. -/
theorem decodeLossyFrom_encode : ∀ (fuel : Nat) (cs read : List Char),
    (cs.flatMap String.utf8EncodeChar).length ≤ fuel →
      decodeLossyFrom fuel read (cs.flatMap String.utf8EncodeChar) = read.reverse ++ cs
  | 0, [], read, _ => by simp [decodeLossyFrom]
  | 0, c :: cs, read, h => by
    obtain ⟨a, tail, hc, -⟩ := leading_encodeChar c []
    rw [List.flatMap_cons, hc] at h
    exact absurd h (by simp)
  | fuel + 1, [], read, _ => by simp [decodeLossyFrom]
  | fuel + 1, c :: cs, read, h => by
    obtain ⟨a, tail, hc, hleading⟩ := leading_encodeChar c (cs.flatMap String.utf8EncodeChar)
    rw [List.flatMap_cons, hc, List.cons_append] at h ⊢
    rw [List.length_cons, List.length_append] at h
    rw [decodeLossyFrom, hleading]
    dsimp only
    rw [decodeLossyFrom_encode fuel cs (c :: read) (by omega)]
    simp

theorem toList_loop (bytes : ByteArray) (i : Nat) (read : List UInt8) :
    ByteArray.toList.loop bytes i read = read.reverse ++ bytes.data.toList.drop i := by
  rw [ByteArray.toList.loop]
  split
  · next h =>
    have hi : i < bytes.data.toList.length := h
    have hget : bytes.get! i = bytes.data.toList[i] := by
      rw [ByteArray.get!, getElem!_pos bytes.data i h, Array.getElem_toList]
    rw [toList_loop bytes (i + 1) (bytes.get! i :: read), List.drop_eq_getElem_cons hi, hget]
    simp
  · next h =>
    have hi : bytes.data.toList.length ≤ i := Nat.le_of_not_lt h
    rw [List.drop_eq_nil_of_le hi, List.append_nil]
termination_by bytes.size - i

theorem encode_eq (s : String) : encode s = s.toList.flatMap String.utf8EncodeChar := by
  have hs : s.toByteArray = s.toList.utf8Encode := by
    rw [← String.toByteArray_ofList, String.ofList_toList]
  rw [encode, String.toUTF8, hs, List.utf8Encode, ByteArray.toList, toList_loop,
    List.toList_data_toByteArray]
  rfl

/-- **A text that is encoded and read back is the same text.** -/
theorem decodeLossy_encode (s : String) : decodeLossy (encode s) = s := by
  rw [decodeLossy, encode_eq, decodeLossyFrom_encode _ _ _ (Nat.le_refl _)]
  simp

/-- Strict decoding does not fail on an encoded text. -/
theorem decodeFrom_encode : ∀ (fuel index : Nat) (cs read : List Char),
    (cs.flatMap String.utf8EncodeChar).length ≤ fuel →
      decodeFrom fuel index read (cs.flatMap String.utf8EncodeChar) = .ok (read.reverse ++ cs)
  | 0, _, [], read, _ => by simp [decodeFrom]
  | 0, _, c :: cs, read, h => by
    obtain ⟨a, tail, hc, -⟩ := leading_encodeChar c []
    rw [List.flatMap_cons, hc] at h
    exact absurd h (by simp)
  | fuel + 1, _, [], read, _ => by simp [decodeFrom]
  | fuel + 1, index, c :: cs, read, h => by
    obtain ⟨a, tail, hc, hleading⟩ := leading_encodeChar c (cs.flatMap String.utf8EncodeChar)
    rw [List.flatMap_cons, hc, List.cons_append] at h ⊢
    rw [List.length_cons, List.length_append] at h
    rw [decodeFrom, hleading]
    dsimp only
    rw [decodeFrom_encode fuel _ cs (c :: read) (by omega)]
    simp

/-- **A text that is encoded is decoded**, without a replacement. -/
theorem decode_encode (s : String) : decode (encode s) = .ok s := by
  rw [decode, encode_eq, decodeFrom_encode _ _ _ _ (Nat.le_refl _)]
  simp [Except.map]

/-! ## NULs -/

/-- Only the NUL has a byte that is zero. -/
theorem zero_mem_encodeChar (c : Char) : 0 ∈ String.utf8EncodeChar c ↔ c = '\x00' := by
  have hnul : c = '\x00' ↔ c.val.toNat = 0 := by
    rw [Char.ext_iff, ← UInt32.toNat_inj]
    rfl
  have hzero : ∀ n < 256, 0 = UInt8.ofNat n ↔ n = 0 := by
    intro n hn
    rw [← UInt8.toNat_inj, toNat_byte hn]
    exact eq_comm
  rw [hnul]
  unfold String.utf8EncodeChar
  have hvalid : c.val.toNat < 0xD800 ∨ 0xDFFF < c.val.toNat ∧ c.val.toNat < 0x110000 := c.valid
  generalize c.val.toNat = v at hvalid
  dsimp only
  -- the bytes of longer codes have a high bit
  split
  · rw [List.mem_singleton, hzero v (by omega)]
  split
  · simp only [List.mem_cons, List.not_mem_nil, or_false]
    rw [hzero _ (by omega), hzero _ (by omega)]
    omega
  split
  · simp only [List.mem_cons, List.not_mem_nil, or_false]
    rw [hzero _ (by omega), hzero _ (by omega), hzero _ (by omega)]
    omega
  · simp only [List.mem_cons, List.not_mem_nil, or_false]
    rw [hzero _ (by omega), hzero _ (by omega), hzero _ (by omega), hzero _ (by omega)]
    omega

end Utf8

/-- A text is refused for its NULs. -/
theorem firstNul?_eq_none_iff {s : String} : firstNul? s = none ↔ '\x00' ∉ s.toList := by
  rw [firstNul?, Utf8.encode_eq, List.findIdx?_eq_none_iff]
  constructor
  · intro h hin
    have hbyte : (0 : UInt8) ∈ s.toList.flatMap String.utf8EncodeChar :=
      List.mem_flatMap.2 ⟨_, hin, (Utf8.zero_mem_encodeChar _).2 rfl⟩
    exact absurd (h 0 hbyte) (by simp)
  · intro h b hb
    obtain ⟨c, hc, hbc⟩ := List.mem_flatMap.1 hb
    refine Bool.eq_false_iff.2 fun hzero => h ?_
    rw [eq_of_beq hzero] at hbc
    rwa [(Utf8.zero_mem_encodeChar c).1 hbc] at hc

/-- A text without NULs is not changed where NULs are left out. -/
theorem strip_of_firstNul? {s : String} (h : firstNul? s = none) : strip s = s := by
  rw [strip, List.filter_eq_self.2 fun c hc => ?_, String.ofList_toList]
  refine bne_iff_ne.2 fun heq => firstNul?_eq_none_iff.1 h ?_
  rwa [← heq]

end ScriptHost.Text
