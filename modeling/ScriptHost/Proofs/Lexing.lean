import ScriptHost.Script.Lexer

/-!
# Texts and their tokens

A token can be written in several ways (`Spelling`): numbers with leading zeros, texts with their
characters escaped or not.  In front of each token of a text, and behind the last one, there may be
blanks and comments (`Separator`).  Where no token goes on with what follows it (`Stops`), the lexer
finds the tokens again, each with the line on which it begins (`lexemes_write`).
-/

namespace ScriptHost.Script

open Number (Double)

/-! ## Steps of the lexer -/

/-- The lexer reads lexemes off the front of a text, which begins on a line. -/
inductive Scans : Nat → List Char → List Lexeme → Nat → List Char → Prop
  | done (line : Nat) (cs : List Char) : Scans line cs [] line cs
  | step {line line' : Nat} {c : Char} {rest cs : List Char} {s : Scanned} {items : List Lexeme}
      (h : step line c rest = .ok s) (hrest : Scans s.line s.rest items line' cs) :
      Scans line (c :: rest) (s.lexeme?.toList ++ items) line' cs

theorem Scans.trans {line line' line'' : Nat} {cs cs' cs'' : List Char} {items items' : List Lexeme}
    (h : Scans line cs items line' cs') (h' : Scans line' cs' items' line'' cs'') :
    Scans line cs (items ++ items') line'' cs'' := by
  induction h with
  | done line cs => exact h'
  | step hstep hrest ih =>
    rw [List.append_assoc]
    exact .step hstep (ih h')

/-- What is scanned in one step. -/
theorem Scans.of_step {line : Nat} {c : Char} {rest : List Char} {s : Scanned}
    (h : Script.step line c rest = .ok s) :
    Scans line (c :: rest) s.lexeme?.toList s.line s.rest := by
  have hscan := Scans.step h (.done s.line s.rest)
  rwa [List.append_nil] at hscan

/-! ### Steps leave less text -/

theorem length_afterComment {line line' : Nat} {previous : Char} {rest : List Char} :
    ∀ {cs : List Char}, afterComment line previous cs = (line', some rest) → rest.length < cs.length
  | [], h => by cases h
  | c :: cs, h => by
    rw [afterComment] at h
    split at h
    · cases h
      exact Nat.lt_succ_self _
    · exact Nat.lt_succ_of_lt (length_afterComment h)

theorem length_stringBody {line : Nat} {cs : List Char} {r : List Char × Nat × List Char}
    (h : stringBody line cs = .ok r) : r.2.2.length < cs.length := by
  fun_induction stringBody line cs generalizing r with
  | case1 | case3 | case4 => cases h
  | case2 line rest =>
    cases h
    exact Nat.lt_succ_self _
  | case5 line c rest e he ih =>
    cases hbody : stringBody line rest with
    | error e => rw [hbody] at h; cases h
    | ok body =>
      rw [hbody] at h
      cases h
      have hlt := ih hbody
      exact Nat.lt_succ_of_lt (Nat.lt_succ_of_lt hlt)
  | case6 line c rest _ _ _ ih =>
    cases hbody : stringBody (lineAfter line c) rest with
    | error e => rw [hbody] at h; cases h
    | ok body =>
      rw [hbody] at h
      cases h
      have hlt := ih hbody
      exact Nat.lt_succ_of_lt hlt

theorem length_dropWhile_le (p : Char → Bool) (cs : List Char) :
    (cs.dropWhile p).length ≤ cs.length :=
  (List.dropWhile_sublist p).length_le

/-- A number is written in at least one character. -/
theorem length_number {c : Char} (hc : c.isDigit = true) (rest : List Char) :
    (number (c :: rest)).2.length ≤ rest.length := by
  have hdrop : ((c :: rest).dropWhile Char.isDigit).length ≤ rest.length := by
    rw [List.dropWhile_cons_of_pos hc]
    exact length_dropWhile_le _ rest
  unfold number
  dsimp only
  split
  · next d more heq =>
    rw [heq] at hdrop
    split
    · have hmore := length_dropWhile_le Char.isDigit (d :: more)
      simp only [List.length_cons] at hdrop hmore ⊢
      omega
    · rwa [heq]
  · exact hdrop

theorem isNamePart_iff {c : Char} :
    isNamePart c = true ↔ isNameStart c = true ∨ c.isDigit = true := by
  simp only [isNamePart, isNameStart, Char.isAlphanum, Bool.or_eq_true]
  exact or_right_comm

/-- **A step leaves less text than it was given.** -/
theorem length_step {line : Nat} {c : Char} {rest : List Char} {s : Scanned}
    (h : step line c rest = .ok s) : s.rest.length ≤ rest.length := by
  unfold step at h
  split at h
  · cases h; exact Nat.le_refl _
  split at h
  · cases h; exact Nat.le_refl _
  split at h
  · split at h
    · next more =>
      cases h
      exact Nat.le_succ_of_le (length_dropWhile_le _ more)
    · next more =>
      split at h
      · next hcomment =>
        cases h
        exact Nat.le_succ_of_le (Nat.le_of_lt (length_afterComment hcomment))
      · cases h
    · cases h
  split at h
  · next hdigit =>
    cases h
    exact length_number hdigit rest
  split at h
  · cases hbody : stringBody line rest with
    | error e => rw [hbody] at h; cases h
    | ok body =>
      rw [hbody] at h
      cases h
      exact Nat.le_of_lt (length_stringBody hbody)
  split at h
  · next hstart =>
    cases h
    rw [List.dropWhile_cons_of_pos (isNamePart_iff.2 (.inl hstart))]
    exact length_dropWhile_le _ rest
  split at h
  · cases h; exact Nat.le_refl _
  · cases h

/-- What is scanned up to the end are the lexemes of a text: there are enough steps. -/
theorem Scans.lexemesFrom {line line' : Nat} {cs rest : List Char} {items : List Lexeme}
    (h : Scans line cs items line' rest) (hrest : rest = []) : ∀ fuel, cs.length ≤ fuel →
      lexemesFrom fuel line cs = .ok ⟨items, line'⟩ := by
  induction h with
  | done line cs =>
    intro fuel _
    subst hrest
    cases fuel <;> rfl
  | @step line line' c rest cs scanned items hstep _ ih =>
    intro fuel hfuel
    cases fuel with
    | zero => exact absurd hfuel (by simp)
    | succ fuel =>
      rw [List.length_cons] at hfuel
      have hlength := length_step hstep
      rw [Script.lexemesFrom, hstep]
      change (Script.lexemesFrom fuel scanned.line scanned.rest >>= _) = _
      rw [ih hrest fuel (by omega)]
      rfl

/-! ## Separators -/

/-- The number of line ends in a text. -/
abbrev lineEnds (cs : List Char) : Nat := cs.count '\n'

theorem lineAfter_eq (line : Nat) (c : Char) : lineAfter line c = line + lineEnds [c] := by
  unfold lineAfter lineEnds
  by_cases hc : c = '\n'
  · rw [if_pos (beq_iff_eq.2 hc), hc]
    rfl
  · rw [if_neg (mt beq_iff_eq.1 hc), List.count_singleton, if_neg (mt beq_iff_eq.1 hc), Nat.add_zero]

/-- Blanks and comments, one after the other. -/
inductive Separator : List Char → Prop
  | nothing : Separator []
  | blank {c : Char} {cs : List Char} (h : Text.isBlank c = true) (hcs : Separator cs) :
      Separator (c :: cs)
  /-- A comment goes on to the end of its line. -/
  | lineComment {body cs : List Char} (h : '\n' ∉ body) (hcs : Separator cs) :
      Separator ('/' :: '/' :: (body ++ '\n' :: cs))
  /-- A comment goes on to the first `*/`. -/
  | blockComment {body cs : List Char} (h : ¬ ['*', '/'] <:+: body) (hcs : Separator cs) :
      Separator ('/' :: '*' :: (body ++ '*' :: '/' :: cs))

theorem separator_of_isBlank : ∀ {cs : List Char}, (∀ c ∈ cs, Text.isBlank c = true) → Separator cs
  | [], _ => .nothing
  | _ :: _, h => .blank (h _ List.mem_cons_self)
    (separator_of_isBlank fun c hc => h c (List.mem_cons_of_mem _ hc))

/-- Blanks and comments behind the last token.  The last line need not have an end. -/
inductive Trailer : List Char → Prop
  | separator {cs : List Char} (h : Separator cs) : Trailer cs
  | lastComment {cs body : List Char} (h : Separator cs) (hbody : '\n' ∉ body) :
      Trailer (cs ++ '/' :: '/' :: body)

namespace Scans

variable {line : Nat} {rest : List Char}

theorem blank {c : Char} (h : Text.isBlank c = true) :
    Scans line (c :: rest) [] (line + lineEnds [c]) rest := by
  rw [← lineAfter_eq]
  refine .of_step (s := ⟨none, lineAfter line c, rest⟩) ?_
  unfold Script.step lineAfter
  by_cases hc : c = '\n'
  · rw [if_pos (beq_iff_eq.2 hc), if_pos (beq_iff_eq.2 hc)]
  · rw [if_neg (mt beq_iff_eq.1 hc), if_pos h, if_neg (mt beq_iff_eq.1 hc)]

theorem lineComment {body : List Char} (h : '\n' ∉ body) (hrest : ∀ c ∈ rest.head?, c = '\n') :
    Scans line ('/' :: '/' :: (body ++ rest)) [] line rest := by
  have hbody : ∀ c ∈ body, (c != '\n') = true := fun c hc =>
    bne_iff_ne.2 fun heq => h (heq ▸ hc)
  have hdrop : (body ++ rest).dropWhile (· != '\n') = rest := by
    rw [List.dropWhile_append_of_pos hbody]
    cases rest with
    | nil => rfl
    | cons c rest =>
      rw [hrest c rfl]
      rfl
  refine .of_step (s := ⟨none, line, rest⟩) ?_
  change Except.ok (⟨none, line, (body ++ rest).dropWhile (· != '\n')⟩ : Scanned) = _
  rw [hdrop]

/-- A comment ends with the first `*/` behind its beginning. -/
theorem afterComment_body (rest : List Char) : ∀ (body : List Char) (line : Nat) (previous : Char),
    ¬ ['*', '/'] <:+: previous :: body →
      afterComment line previous (body ++ '*' :: '/' :: rest) = (line + lineEnds body, some rest)
  | [], line, previous, _ => by
    rw [List.nil_append, afterComment, if_neg (by simp), afterComment]
    rfl
  | c :: body, line, previous, h => by
    have hopen : ¬ (c == '/' && previous == '*') = true := fun hclose => by
      rw [Bool.and_eq_true, beq_iff_eq, beq_iff_eq] at hclose
      rw [hclose.1, hclose.2] at h
      exact h ⟨[], body, rfl⟩
    have hbody : ¬ ['*', '/'] <:+: c :: body := fun hin => h (hin.trans (List.suffix_cons _ _).isInfix)
    rw [List.cons_append, afterComment, if_neg hopen, afterComment_body rest body _ c hbody,
      lineAfter_eq, Nat.add_assoc, lineEnds, ← List.count_append]
    rfl

theorem blockComment {body : List Char} (h : ¬ ['*', '/'] <:+: body) :
    Scans line ('/' :: '*' :: (body ++ '*' :: '/' :: rest)) [] (line + lineEnds body) rest := by
  have hbody : ¬ ['*', '/'] <:+: '\x00' :: body := by
    rw [List.infix_cons_iff]
    rintro (hopening | hin)
    · exact absurd (List.cons_prefix_cons.1 hopening).1 (by decide)
    · exact h hin
  refine .of_step (s := ⟨none, line + lineEnds body, rest⟩) ?_
  unfold Script.step
  simp only [afterComment_body rest body line _ hbody]
  rfl

/-- Blanks and comments are skipped, and their lines counted. -/
theorem separator (rest : List Char) {cs : List Char} (h : Separator cs) : ∀ line,
    Scans line (cs ++ rest) [] (line + lineEnds cs) rest := by
  induction h with
  | nothing => exact fun line => .done line rest
  | @blank c cs hc _ ih =>
    intro line
    have hlines : line + lineEnds (c :: cs) = line + lineEnds [c] + lineEnds cs := by
      rw [Nat.add_assoc, lineEnds, ← List.count_append]
      rfl
    rw [hlines]
    exact (Scans.blank hc).trans (ih _)
  | @lineComment body cs hbody _ ih =>
    intro line
    have hnone : lineEnds body = 0 := List.count_eq_zero.2 hbody
    have hlines : line + lineEnds ('/' :: '/' :: (body ++ '\n' :: cs)) =
        line + lineEnds ['\n'] + lineEnds cs := by
      simp only [lineEnds, List.count_cons, List.count_append, List.count_nil] at hnone ⊢
      simp [hnone]
      omega
    have hcomment : Scans line ('/' :: '/' :: (body ++ '\n' :: (cs ++ rest))) [] line
        ('\n' :: (cs ++ rest)) := .lineComment hbody fun _ heq => (Option.some.inj heq).symm
    rw [hlines, List.cons_append, List.cons_append, List.append_assoc, List.cons_append]
    exact hcomment.trans ((Scans.blank (by decide)).trans (ih _))
  | @blockComment body cs hbody _ ih =>
    intro line
    have hlines : line + lineEnds ('/' :: '*' :: (body ++ '*' :: '/' :: cs)) =
        line + lineEnds body + lineEnds cs := by
      simp only [lineEnds, List.count_cons, List.count_append]
      simp
      omega
    rw [hlines, List.cons_append, List.cons_append, List.append_assoc, List.cons_append,
      List.cons_append]
    exact (Scans.blockComment hbody).trans (ih _)

theorem trailer {cs : List Char} (h : Trailer cs) (line : Nat) :
    Scans line cs [] (line + lineEnds cs) [] := by
  cases h with
  | separator h =>
    have hscan := separator [] h line
    rwa [List.append_nil] at hscan
  | @lastComment cs body h hbody =>
    have hnone : lineEnds body = 0 := List.count_eq_zero.2 hbody
    have hlines : lineEnds (cs ++ '/' :: '/' :: body) = lineEnds cs := by
      simp only [lineEnds, List.count_cons, List.count_append] at hnone ⊢
      simp [hnone]
    have hlast : Scans (line + lineEnds cs) ('/' :: '/' :: (body ++ [])) [] (line + lineEnds cs) [] :=
      .lineComment hbody fun _ heq => by cases heq
    rw [List.append_nil] at hlast
    rw [hlines]
    exact (separator _ h line).trans hlast

end Scans

/-! ## Tokens -/

/-- The characters of a text as they are written between its quotes.  Each of them may be escaped, if
there is an escape, and two of them must be. -/
inductive Glyphs : List Char → List Char → Prop
  | nothing : Glyphs [] []
  | plain {c : Char} {cs written : List Char} (hquote : c ≠ '"') (hescape : c ≠ '\\')
      (h : Glyphs cs written) : Glyphs (c :: cs) (c :: written)
  | escaped {c e : Char} {cs written : List Char} (he : escape? e = some c) (h : Glyphs cs written) :
      Glyphs (c :: cs) ('\\' :: e :: written)

/-- A token as it can be written. -/
inductive Spelling : Token → List Char → Prop
  | word {c : Char} {cs : List Char} (hc : isNameStart c = true)
      (hcs : ∀ d ∈ cs, isNamePart d = true) : Spelling (.word (String.ofList (c :: cs))) (c :: cs)
  | whole {digits : List Char} (hne : digits ≠ []) (h : ∀ d ∈ digits, d.isDigit = true) :
      Spelling (.number (.ofDecimal (decimalValue digits) 0)) digits
  | decimal {digits places : List Char} (hne : digits ≠ []) (h : ∀ d ∈ digits, d.isDigit = true)
      (hne' : places ≠ []) (h' : ∀ d ∈ places, d.isDigit = true) :
      Spelling (.number (.ofDecimal (decimalValue (digits ++ places)) places.length))
        (digits ++ '.' :: places)
  | text {cs written : List Char} (h : Glyphs cs written) :
      Spelling (.text (String.ofList cs)) ('"' :: (written ++ ['"']))
  | mark {c : Char} (h : c ∈ marks) : Spelling (.mark c) [c]

/-- Whether a token that is written in some way ends where `rest` begins.  A word goes on with what can
stand in a name, and a number with digits.  A number without a point goes on with a point and a digit
too. -/
def Stops : Token → List Char → List Char → Prop
  | .word _, _, rest => ∀ c ∈ rest.head?, isNamePart c = false
  | .number _, written, rest => (∀ c ∈ rest.head?, c.isDigit = false) ∧
      ('.' ∈ written ∨ ∀ c more, rest = '.' :: c :: more → c.isDigit = false)
  | .text _, _, _ => True
  | .mark _, _, _ => True

theorem isDigit_facts {c : Char} (h : c.isDigit = true) :
    Text.isBlank c = false ∧ c ≠ '\n' ∧ c ≠ '/' ∧ c ≠ '.' := by
  refine ⟨?_, ?_, ?_, ?_⟩
  · have hrange : 48 ≤ c.toNat ∧ c.toNat ≤ 57 := by
      simpa [Char.isDigit, UInt32.le_iff_toNat_le] using h
    simp only [Text.isBlank, Text.blankRanges, List.any_cons, List.any_nil]
    simp
    omega
  all_goals
    rintro rfl
    revert h
    decide

theorem isNameStart_facts {c : Char} (h : isNameStart c = true) :
    Text.isBlank c = false ∧ c ≠ '\n' ∧ c ≠ '/' ∧ c.isDigit = false ∧ c ≠ '"' := by
  have hrange : 65 ≤ c.toNat ∧ c.toNat ≤ 90 ∨ 97 ≤ c.toNat ∧ c.toNat ≤ 122 ∨ c = '_' := by
    have hletter : c.isAlpha = (c.isUpper || c.isLower) := rfl
    have hupper : c.isUpper = decide (c.val ≥ 'A'.val ∧ c.val ≤ 'Z'.val) := rfl
    have hlower : c.isLower = (decide (c.val ≥ 'a'.val) && decide (c.val ≤ 'z'.val)) := rfl
    simpa [isNameStart, hletter, hupper, hlower, UInt32.le_iff_toNat_le, or_assoc] using h
  refine ⟨?_, ?_, ?_, ?_, ?_⟩
  · simp only [Text.isBlank, Text.blankRanges, List.any_cons, List.any_nil]
    rcases hrange with hrange | hrange | rfl
    · simp; omega
    · simp; omega
    · decide
  · rintro rfl
    revert h
    decide
  · rintro rfl
    revert h
    decide
  · rcases hrange with hrange | hrange | rfl
    · simp [Char.isDigit, UInt32.le_iff_toNat_le]; omega
    · simp [Char.isDigit, UInt32.le_iff_toNat_le]; omega
    · decide
  · rintro rfl
    revert h
    decide

theorem stringBody_other {line : Nat} {c : Char} (hquote : c ≠ '"') (hescape : c ≠ '\\')
    (cs : List Char) :
    stringBody line (c :: cs) = (stringBody (lineAfter line c) cs).map fun r => (c :: r.1, r.2) := by
  rw [stringBody]
  · exact hquote
  · exact fun h => absurd h hescape
  · exact fun _ _ h => absurd h hescape

/-- Glyphs are read back as the characters that they stand for. -/
theorem stringBody_glyphs {cs written : List Char} (h : Glyphs cs written) (rest : List Char) :
    ∀ line, stringBody line (written ++ '"' :: rest) = .ok (cs, line + lineEnds written, rest) := by
  induction h with
  | nothing => exact fun line => rfl
  | @plain c cs written hquote hescape _ ih =>
    intro line
    have hlines : line + lineEnds (c :: written) = lineAfter line c + lineEnds written := by
      rw [lineAfter_eq, Nat.add_assoc, lineEnds, ← List.count_append]
      rfl
    rw [List.cons_append, stringBody_other hquote hescape, ih, hlines]
    rfl
  | @escaped c e cs written he _ ih =>
    intro line
    have hletter : e ≠ '\n' := by
      rintro rfl
      cases he
    have hlines : lineEnds ('\\' :: e :: written) = lineEnds written := by
      rw [lineEnds, List.count_cons_of_ne (by decide), List.count_cons_of_ne hletter]
    rw [List.cons_append, List.cons_append, stringBody, he]
    dsimp only
    rw [ih, hlines]
    rfl

theorem span_digits {digits rest : List Char} (h : ∀ d ∈ digits, d.isDigit = true)
    (hrest : ∀ c ∈ rest.head?, c.isDigit = false) :
    (digits ++ rest).takeWhile Char.isDigit = digits ∧
      (digits ++ rest).dropWhile Char.isDigit = rest := by
  rw [List.takeWhile_append_of_pos h, List.dropWhile_append_of_pos h]
  cases rest with
  | nil => exact ⟨List.append_nil _, rfl⟩
  | cons c rest =>
    have hc : ¬ c.isDigit = true := by simp [hrest c rfl]
    rw [List.takeWhile_cons_of_neg hc, List.dropWhile_cons_of_neg hc, List.append_nil]
    exact ⟨rfl, rfl⟩

theorem number_whole {digits rest : List Char} (h : ∀ d ∈ digits, d.isDigit = true)
    (hrest : ∀ c ∈ rest.head?, c.isDigit = false)
    (hpoint : ∀ c more, rest = '.' :: c :: more → c.isDigit = false) :
    number (digits ++ rest) = (.ofDecimal (decimalValue digits) 0, rest) := by
  obtain ⟨htake, hdrop⟩ := span_digits h hrest
  unfold number
  dsimp only
  rw [htake, hdrop]
  split
  · next c more =>
    rw [if_neg (by simp [hpoint c more rfl])]
  · rfl

theorem number_decimal {digits places rest : List Char} (h : ∀ d ∈ digits, d.isDigit = true)
    (hne : places ≠ []) (h' : ∀ d ∈ places, d.isDigit = true)
    (hrest : ∀ c ∈ rest.head?, c.isDigit = false) :
    number (digits ++ '.' :: (places ++ rest)) =
      (.ofDecimal (decimalValue (digits ++ places)) places.length, rest) := by
  have hpoint : ∀ c ∈ ('.' :: (places ++ rest)).head?, c.isDigit = false := fun _ hc => by
    cases hc
    rfl
  obtain ⟨htake, hdrop⟩ := span_digits h hpoint
  obtain ⟨htake', hdrop'⟩ := span_digits h' hrest
  obtain ⟨d, more, rfl⟩ := List.exists_cons_of_ne_nil hne
  unfold number
  dsimp only
  rw [htake, hdrop]
  change (if d.isDigit then _ else _) = _
  rw [if_pos (h' d List.mem_cons_self)]
  change (Double.ofDecimal (decimalValue (digits ++ (d :: more ++ rest).takeWhile Char.isDigit))
    ((d :: more ++ rest).takeWhile Char.isDigit).length,
      (d :: more ++ rest).dropWhile Char.isDigit) = _
  rw [htake', hdrop']

namespace Scans

variable {line : Nat} {rest : List Char}

/-- A lexeme is read off in one step. -/
theorem token {c : Char} {cs : List Char} {t : Token} {line' : Nat}
    (h : Script.step line c cs = .ok ⟨some ⟨t, line⟩, line', rest⟩) :
    Scans line (c :: cs) [⟨t, line⟩] line' rest :=
  .of_step h

theorem word {c : Char} {cs : List Char} (hc : isNameStart c = true)
    (hcs : ∀ d ∈ cs, isNamePart d = true) (hrest : ∀ c ∈ rest.head?, isNamePart c = false) :
    Scans line (c :: (cs ++ rest)) [⟨.word (String.ofList (c :: cs)), line⟩] line rest := by
  obtain ⟨hblank, hend, hslash, hdigit, hquote⟩ := isNameStart_facts hc
  have hparts : ∀ d ∈ c :: cs, isNamePart d = true :=
    List.forall_mem_cons.2 ⟨isNamePart_iff.2 (.inl hc), hcs⟩
  have hspan : (c :: (cs ++ rest)).takeWhile isNamePart = c :: cs ∧
      (c :: (cs ++ rest)).dropWhile isNamePart = rest := by
    rw [← List.cons_append, List.takeWhile_append_of_pos hparts, List.dropWhile_append_of_pos hparts]
    cases rest with
    | nil => exact ⟨List.append_nil _, rfl⟩
    | cons d rest =>
      have hd : ¬ isNamePart d = true := by simp [hrest d rfl]
      rw [List.takeWhile_cons_of_neg hd, List.dropWhile_cons_of_neg hd, List.append_nil]
      exact ⟨rfl, rfl⟩
  refine token ?_
  unfold Script.step
  simp only [beq_iff_eq, hend, hblank, hslash, hdigit, hquote, hc, if_false, if_true,
    Bool.false_eq_true, hspan.1, hspan.2]

theorem number {digits : List Char} (hne : digits ≠ []) (h : ∀ d ∈ digits, d.isDigit = true)
    {cs : List Char} {value : Double}
    (hnumber : Script.number (digits ++ cs) = (value, rest)) :
    Scans line (digits ++ cs) [⟨.number value, line⟩] line rest := by
  obtain ⟨d, more, rfl⟩ := List.exists_cons_of_ne_nil hne
  obtain ⟨hblank, hend, hslash, -⟩ := isDigit_facts (h d List.mem_cons_self)
  refine token ?_
  rw [List.cons_append] at hnumber
  unfold Script.step
  simp only [beq_iff_eq, hend, hblank, hslash, h d List.mem_cons_self, if_false, if_true,
    Bool.false_eq_true]
  change Except.ok (⟨some ⟨.number (Script.number (d :: (more ++ cs))).1, line⟩, line,
    (Script.number (d :: (more ++ cs))).2⟩ : Scanned) = _
  rw [hnumber]

theorem text {cs written : List Char} (h : Glyphs cs written) :
    Scans line ('"' :: (written ++ '"' :: rest)) [⟨.text (String.ofList cs), line⟩]
      (line + lineEnds written) rest := by
  refine token ?_
  unfold Script.step
  simp only [stringBody_glyphs h rest line]
  rfl

theorem mark {c : Char} (h : c ∈ marks) :
    Scans line (c :: rest) [⟨.mark c, line⟩] line rest := by
  refine token ?_
  simp only [marks, List.mem_cons, List.not_mem_nil, or_false] at h
  rcases h with rfl | rfl | rfl | rfl | rfl | rfl | rfl | rfl | rfl | rfl <;> rfl

/-- **A token is read back** where it ends, with the line on which it begins. -/
theorem spelling {t : Token} {written : List Char} (h : Spelling t written)
    (hstops : Stops t written rest) (line : Nat) :
    Scans line (written ++ rest) [⟨t, line⟩] (line + lineEnds written) rest := by
  have hdigits : ∀ {digits : List Char}, (∀ d ∈ digits, d.isDigit = true) → '\n' ∉ digits :=
    fun hall hin => absurd (hall _ hin) (by decide)
  cases h with
  | @word c cs hc hcs =>
    have hnone : lineEnds (c :: cs) = 0 := by
      refine List.count_eq_zero.2 fun hin => ?_
      rcases List.mem_cons.1 hin with rfl | hin
      · exact absurd hc (by decide)
      · exact absurd (hcs _ hin) (by decide)
    rw [hnone]
    exact word hc hcs hstops
  | whole hne hall =>
    have hnone : lineEnds written = 0 := List.count_eq_zero.2 (hdigits hall)
    have hpoint : '.' ∉ written := fun hin => absurd (hall _ hin) (by decide)
    rw [hnone]
    exact number hne hall (number_whole hall hstops.1 (hstops.2.resolve_left hpoint))
  | @decimal digits places hne hall hne' hall' =>
    have hnone : lineEnds (digits ++ '.' :: places) = 0 := by
      rw [lineEnds, List.count_append, List.count_cons_of_ne (by decide),
        List.count_eq_zero.2 (hdigits hall), List.count_eq_zero.2 (hdigits hall')]
    rw [hnone, List.append_assoc, List.cons_append]
    exact number hne hall (number_decimal hall hne' hall' hstops.1)
  | @text cs written hglyphs =>
    have hlines : lineEnds ('"' :: (written ++ ['"'])) = lineEnds written := by
      simp [lineEnds]
    rw [hlines, List.cons_append, List.append_assoc, List.singleton_append]
    exact text hglyphs
  | @mark c hc =>
    have hnone : lineEnds [c] = 0 := by
      refine List.count_eq_zero.2 fun hin => ?_
      rw [List.mem_singleton] at hin
      subst hin
      exact absurd hc (by decide)
    rw [hnone]
    exact mark hc

end Scans

/-- A token that has blanks or comments behind it ends there. -/
theorem stops_of_separator {cs : List Char} (h : Separator cs) (hne : cs ≠ []) (t : Token)
    (written rest : List Char) : Stops t written (cs ++ rest) := by
  obtain ⟨c, more, rfl, hc⟩ : ∃ c more, cs = c :: more ∧ (Text.isBlank c = true ∨ c = '/') := by
    cases h with
    | nothing => exact absurd rfl hne
    | blank h => exact ⟨_, _, rfl, .inl h⟩
    | lineComment => exact ⟨_, _, rfl, .inr rfl⟩
    | blockComment => exact ⟨_, _, rfl, .inr rfl⟩
  have hpart : ¬ isNamePart c = true := fun hpart => by
    have hfacts : Text.isBlank c = false ∧ c ≠ '/' := by
      rcases isNamePart_iff.1 hpart with hstart | hdigit
      · exact ⟨(isNameStart_facts hstart).1, (isNameStart_facts hstart).2.2.1⟩
      · exact ⟨(isDigit_facts hdigit).1, (isDigit_facts hdigit).2.2.1⟩
    rcases hc with hc | hc
    · exact absurd (hfacts.1.symm.trans hc) (by decide)
    · exact hfacts.2 hc
  cases t with
  | word name =>
    rintro _ ⟨⟩
    exact Bool.eq_false_iff.2 hpart
  | number x =>
    refine ⟨?_, .inr fun d more' heq => ?_⟩
    · rintro _ ⟨⟩
      exact Bool.eq_false_iff.2 fun hdigit => hpart (isNamePart_iff.2 (.inr hdigit))
    · have hpoint : c = '.' := (List.cons.inj heq).1
      rw [hpoint] at hc
      exact absurd hc (by decide)
  | text | mark => trivial

/-! ## Texts -/

/-- A token of a text, as it is written behind blanks and comments. -/
structure Piece where
  gap : List Char
  token : Token
  written : List Char
  separates : Separator gap
  spells : Spelling token written

namespace Piece

/-- The text of pieces, with something behind them. -/
def write (tail : List Char) : List Piece → List Char
  | [] => tail
  | p :: rest => p.gap ++ (p.written ++ write tail rest)

/-- No token of a text goes on with what follows it. -/
def Parted (tail : List Char) : List Piece → Prop
  | [] => True
  | p :: rest => Stops p.token p.written (write tail rest) ∧ Parted tail rest

/-- The lexemes of pieces that stand behind a text.  The lines are counted from one. -/
def lexemes (before : List Char) : List Piece → List Lexeme
  | [] => []
  | p :: rest => ⟨p.token, 1 + lineEnds (before ++ p.gap)⟩ :: lexemes (before ++ p.gap ++ p.written) rest

end Piece

/-- Pieces are read back behind any text. -/
theorem Scans.pieces {tail : List Char} (htail : Trailer tail) : ∀ (pieces : List Piece)
    (before : List Char), Piece.Parted tail pieces →
      Scans (1 + lineEnds before) (Piece.write tail pieces) (Piece.lexemes before pieces)
        (1 + lineEnds before + lineEnds (Piece.write tail pieces)) []
  | [], before, _ => .trailer htail _
  | p :: rest, before, h => by
    obtain ⟨hstops, hrest⟩ := h
    have hgap := Scans.separator (p.written ++ Piece.write tail rest) p.separates (1 + lineEnds before)
    have htoken := Scans.spelling p.spells hstops (1 + lineEnds before + lineEnds p.gap)
    have hothers := Scans.pieces htail rest (before ++ p.gap ++ p.written) hrest
    simp only [lineEnds, List.count_append, ← Nat.add_assoc, Piece.write, Piece.lexemes]
      at hgap htoken hothers ⊢
    exact hgap.trans (htoken.trans hothers)

/-- **The tokens of a text are read back**, each with its line: one more than there are line ends in
front of its first character, in comments and texts too. -/
theorem lexemes_write (pieces : List Piece) {tail : List Char} (htail : Trailer tail)
    (hparted : Piece.Parted tail pieces) :
    lexemes (String.ofList (Piece.write tail pieces)) =
      .ok ⟨Piece.lexemes [] pieces, 1 + lineEnds (Piece.write tail pieces)⟩ := by
  have hscans := Scans.pieces htail pieces [] hparted
  rw [lineEnds, List.count_nil, Nat.add_zero] at hscans
  have hchars : (String.ofList (Piece.write tail pieces)).toList = Piece.write tail pieces :=
    String.toList_ofList
  rw [lexemes, hchars]
  exact hscans.lexemesFrom rfl _ (Nat.le_refl _)

/-- A comment and a text go over two lines, and a second point ends a number. -/
theorem lexemes_write_over_lines :
    lexemes "x =/*\n*/\"\\n\n\"1.5.2 // end" = .ok
      ⟨[⟨.word "x", 1⟩, ⟨.mark '=', 1⟩, ⟨.text "\n\n", 2⟩, ⟨.number (.ofDecimal 15 1), 3⟩,
        ⟨.mark '.', 3⟩, ⟨.number (.ofDecimal 2 0), 3⟩], 3⟩ := by
  have hblank : Separator [' '] := .blank rfl .nothing
  have hcomment : Separator ('/' :: '*' :: (['\n'] ++ '*' :: '/' :: [])) :=
    .blockComment (by decide) .nothing
  have htail : Trailer ([' '] ++ '/' :: '/' :: [' ', 'e', 'n', 'd']) := .lastComment hblank (by decide)
  have hglyphs : Glyphs ['\n', '\n'] ['\\', 'n', '\n'] :=
    .escaped rfl (.plain (by decide) (by decide) .nothing)
  have hdecimal : Spelling _ (['1'] ++ '.' :: ['5']) :=
    .decimal (by simp) (List.forall_mem_singleton.2 rfl) (by simp) (List.forall_mem_singleton.2 rfl)
  have hwhole : Spelling _ ['2'] := .whole (by simp) (List.forall_mem_singleton.2 rfl)
  refine lexemes_write [⟨[], _, ['x'], .nothing, .word rfl (by simp)⟩,
    ⟨_, _, _, hblank, .mark (c := '=') (by decide)⟩, ⟨_, _, _, hcomment, .text hglyphs⟩,
    ⟨[], _, _, .nothing, hdecimal⟩, ⟨[], _, _, .nothing, .mark (c := '.') (by decide)⟩,
    ⟨[], _, _, .nothing, hwhole⟩] htail ⟨stops_of_separator hblank (by simp) _ _ _, trivial, trivial,
      ⟨?_, .inl (by simp)⟩, trivial, stops_of_separator hblank (by simp) _ _ _, trivial⟩
  rintro _ ⟨⟩
  rfl

end ScriptHost.Script
