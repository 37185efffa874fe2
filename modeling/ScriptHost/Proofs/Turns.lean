import ScriptHost.Proofs.Lexing

/-!
# Loops that take turns

A reader of texts is a handful of loops, which end because each turn of them reads something.  Here
the loops are written out, and watched: a run is stopped as soon as a loop asks for another turn
without having read anything since the last one (`Watched.onward`), or has had as many turns as it
was allowed (`Watched.loop`).  A run that is never stopped has done neither.

The first reader that is watched is the lexer.  Its loops, the one over the tokens and those inside
a comment, a number, a name and a string literal, all take at most one turn for each character and
one more, and what they read is what the lexer reads (`Watched.lexemes_eq`).
-/

namespace ScriptHost.Script

open Number (Double)

/-- States of a reader, which know how much is left to be read. -/
class Remaining (σ : Type) where
  left : σ → Nat

/-- A run of a reader under watch.  It has no result at all if it is stopped. -/
abbrev Watched (σ α : Type) := StateT σ (ExceptT CompileError Option) α

/-- The end of a turn: another one, from `b` on, or the result of the loop. -/
inductive Turn (β α : Type) where
  | again (b : β)
  | done (a : α)

namespace Watched

variable {σ α β : Type} [Remaining σ]

/-- What runs without loops of its own needs no watch. -/
instance : MonadLift (StateT σ (Except CompileError)) (Watched σ) where
  monadLift p := fun s => some (p s)

/-- Stops the run. -/
def stop : Watched σ α := fun _ => none

/-- How much is left. -/
def left : Watched σ Nat := do return Remaining.left (← get)

/-- Goes on with `x` if less is left than `before`. -/
def onward (before : Nat) (x : Watched σ α) : Watched σ α := do
  if (← left) < before then x else stop

/-- Takes turns, at most `fuel` of them.  Whoever asks for another turn has read something. -/
def loop (turn : β → Watched σ (Turn β α)) : Nat → β → Watched σ α
  | 0, _ => stop
  | fuel + 1, b => do
    let before ← left
    match ← turn b with
    | .again b' => onward before (loop turn fuel b')
    | .done a => return a

/-! ## What is never stopped -/

section

variable {x : Watched σ α} {f : α → Watched σ β} {s s' : σ} {a : α} {e : CompileError}

omit [Remaining σ] in
theorem bind_of_ok (h : x s = some (.ok (a, s'))) (f : α → Watched σ β) : (x >>= f) s = f a s' := by
  change (x s >>= _) = _
  rw [h]
  rfl

omit [Remaining σ] in
theorem bind_of_error (h : x s = some (.error e)) (f : α → Watched σ β) :
    (x >>= f) s = some (.error e) := by
  change (x s >>= _) = _
  rw [h]
  rfl

theorem onward_eq {before : Nat} (h : Remaining.left s < before) : onward before x s = x s := by
  change (if Remaining.left s < before then x else stop : Watched σ α) s = _
  rw [if_pos h]

/-- A turn that began with `before` left and ended in `o` belongs to a loop that should have the
result `r`.  `R` says what the result of a further turn should be. -/
inductive Ends (R : β → σ → Except CompileError (α × σ) → Prop) (before : Nat)
    (o : Option (Except CompileError (Turn β α × σ))) (r : Except CompileError (α × σ)) : Prop
  | failed {e : CompileError} (h : o = some (.error e)) (hr : r = .error e)
  | done {a : α} {s' : σ} (h : o = some (.ok (.done a, s'))) (hr : r = .ok (a, s'))
  | again {b' : β} {t : σ} (h : o = some (.ok (.again b', t))) (hless : Remaining.left t < before)
      (hrest : R b' t r)

/-- **A loop each turn of which reads something is not stopped**, if it may take a turn more than
there is left. -/
theorem loop_eq {turn : β → Watched σ (Turn β α)} {R : β → σ → Except CompileError (α × σ) → Prop}
    (hturn : ∀ b s r, R b s r → Ends R (Remaining.left s) (turn b s) r) : ∀ (fuel : Nat) {b : β} {s : σ}
      {r : Except CompileError (α × σ)}, R b s r → Remaining.left s < fuel →
        loop turn fuel b s = some r
  | 0, _, _, _, _, hfuel => absurd hfuel (Nat.not_lt_zero _)
  | fuel + 1, b, s, r, hr, hfuel => by
    change (turn b >>= fun t => match t with
      | .again b' => onward (Remaining.left s) (loop turn fuel b')
      | .done a => pure a) s = _
    cases hturn b s r hr with
    | failed h hr =>
      rw [hr]
      exact bind_of_error h _
    | done h hr =>
      rw [hr]
      exact bind_of_ok h _
    | again h hless hrest =>
      rw [bind_of_ok h]
      exact (onward_eq hless).trans (loop_eq hturn fuel hrest (by omega))

/-- The loop has one result. -/
theorem Ends.unique {turn : β → Watched σ (Turn β α)} {R : β → σ → Except CompileError (α × σ) → Prop}
    (hturn : ∀ b s r, R b s r → Ends R (Remaining.left s) (turn b s) r) {b : β} {s : σ}
    {r r' : Except CompileError (α × σ)} (h : R b s r) (h' : R b s r') : r = r' :=
  Option.some.inj ((loop_eq hturn _ h (Nat.lt_succ_self _)).symm.trans
    (loop_eq hturn _ h' (Nat.lt_succ_self _)))

end

/-! ## The lexer -/

end Watched

/-- Where the lexer stands. -/
structure Position where
  line : Nat
  rest : List Char

instance : Remaining Position := ⟨fun p => p.rest.length⟩

namespace Watched

/-- The next character, which is not read. -/
def peek : Watched Position (Option Char) := do return (← get).rest.head?

/-- Reads the next character. -/
def next : Watched Position (Option Char) := do
  let c ← peek
  modify fun p => { p with rest := p.rest.tail }
  return c

/-- Counts the line that ends with `c`. -/
def countLine (c : Char) : Watched Position Unit := modify fun p => { p with line := lineAfter p.line c }

/-- Ends with an error on this line. -/
def fail {α : Type} (near : String) (reason : Reason) : Watched Position α := do
  throw ⟨(← get).line, near, reason⟩

/-- Reads a character of a run of characters that all satisfy `p`. -/
def spanTurn (p : Char → Bool) (taken : List Char) :
    Watched Position (Turn (List Char) (List Char)) := do
  match ← peek with
  | some c =>
    if p c then
      let _ ← next
      return .again (taken ++ [c])
    else return .done taken
  | none => return .done taken

/-- Reads a character of a block comment behind the character `previous`. -/
def commentTurn (previous : Char) : Watched Position (Turn Char Unit) := do
  match ← next with
  | some c =>
    if c == '/' && previous == '*' then return .done ()
    else
      countLine c
      return .again c
  | none => fail endOfFile .unterminatedComment

/-- Reads an escape behind its backslash. -/
def escaped : Watched Position Char := do
  match ← next with
  | some c =>
    match escape? c with
    | some e => return e
    | none => fail (quote c.toString) .invalidEscape
  | none => fail endOfFile .invalidEscape

/-- Reads a character of a string literal. -/
def textTurn (taken : List Char) : Watched Position (Turn (List Char) (List Char)) := do
  match ← next with
  | some c =>
    if c == '"' then return .done taken
    else if c == '\\' then return .again (taken ++ [← escaped])
    else
      countLine c
      return .again (taken ++ [c])
  | none => fail endOfFile .unterminatedText

variable (fuel : Nat)

/-- Reads a number literal.  A point belongs to it if a digit follows. -/
def number : Watched Position Double := do
  let whole ← loop (spanTurn Char.isDigit) fuel []
  let rest := (← get).rest
  if rest.head? == some '.' && rest.tail.head?.any Char.isDigit then
    let _ ← next
    let places ← loop (spanTurn Char.isDigit) fuel []
    return .ofDecimal (decimalValue (whole ++ places)) places.length
  else return .ofDecimal (decimalValue whole) 0

/-- Reads a comment behind its first slash. -/
def comment : Watched Position Unit := do
  let c ← peek
  if c == some '/' then
    let _ ← loop (spanTurn (· != '\n')) fuel []
  else if c == some '*' then
    let _ ← next
    loop commentTurn fuel '\x00'
  else fail (quote "/") .operator

/-- Reads the lexeme, the comment or the blank that begins with `c`. -/
def scan (c : Char) : Watched Position (Option Lexeme) := do
  let line := (← get).line
  if c == '\n' || Text.isBlank c then
    let _ ← next
    countLine c
    return none
  else if c == '/' then
    let _ ← next
    comment fuel
    return none
  else if c.isDigit then
    return some ⟨.number (← number fuel), line⟩
  else if c == '"' then
    let _ ← next
    return some ⟨.text (String.ofList (← loop textTurn fuel [])), line⟩
  else if isNameStart c then
    return some ⟨.word (String.ofList (← loop (spanTurn isNamePart) fuel [])), line⟩
  else if marks.contains c then
    let _ ← next
    return some ⟨.mark c, line⟩
  else fail (quote c.toString) (.invalidCharacter c)

/-- Reads a lexeme, a comment or a blank, unless the text is at its end. -/
def scanTurn (items : List Lexeme) : Watched Position (Turn (List Lexeme) (List Lexeme)) := do
  match ← peek with
  | some c => return .again (items ++ (← scan fuel c).toList)
  | none => return .done items

/-- The lexemes of a source text, if no loop is stopped. -/
def lexemes (source : String) : Option (Except CompileError Lexemes) :=
  ((loop (scanTurn fuel) fuel []).run ⟨1, source.toList⟩).run.map
    (Except.map fun r => ⟨r.1, r.2.line⟩)

/-! ### Its loops are not stopped -/

section

variable {line : Nat} {c : Char} {cs rest taken : List Char} {fuel : Nat}

theorem next_bind {α : Type} (f : Option Char → Watched Position α) :
    (next >>= f) ⟨line, c :: rest⟩ = f (some c) ⟨line, rest⟩ := rfl

theorem span_eq (p : Char → Bool) (taken : List Char) (h : cs.length < fuel) :
    loop (spanTurn p) fuel taken ⟨line, cs⟩ =
      some (.ok (taken ++ cs.takeWhile p, ⟨line, cs.dropWhile p⟩)) := by
  refine loop_eq (R := fun taken s r =>
    r = .ok (taken ++ s.rest.takeWhile p, ⟨s.line, s.rest.dropWhile p⟩)) ?_ fuel rfl h
  rintro taken ⟨line, cs⟩ _ rfl
  cases cs with
  | nil => exact .done rfl (by simp)
  | cons c cs =>
    have hturn : spanTurn p taken ⟨line, c :: cs⟩ =
        (if p c then next >>= fun _ => pure (.again (taken ++ [c])) else pure (.done taken) :
          Watched Position (Turn (List Char) (List Char))) ⟨line, c :: cs⟩ := rfl
    by_cases hc : p c = true
    · rw [if_pos hc] at hturn
      exact .again (hturn.trans rfl) (Nat.lt_succ_self _) (by simp [hc])
    · rw [if_neg hc] at hturn
      exact .done (hturn.trans rfl) (by simp [hc])

/-- The result of a block comment, as the lexer has it. -/
def commentResult : Nat × Option (List Char) → Except CompileError (Unit × Position)
  | (line, some rest) => .ok ((), ⟨line, rest⟩)
  | (line, none) => .error ⟨line, endOfFile, .unterminatedComment⟩

theorem blockComment_eq (previous : Char) (h : cs.length < fuel) :
    loop commentTurn fuel previous ⟨line, cs⟩ = some (commentResult (afterComment line previous cs)) := by
  refine loop_eq (R := fun previous s r =>
    r = commentResult (afterComment s.line previous s.rest)) ?_ fuel rfl h
  rintro previous ⟨line, cs⟩ _ rfl
  cases cs with
  | nil => exact .failed rfl rfl
  | cons c cs =>
    have hturn : commentTurn previous ⟨line, c :: cs⟩ =
        (if c == '/' && previous == '*' then pure (.done ())
          else countLine c >>= fun _ => pure (.again c) :
            Watched Position (Turn Char Unit)) ⟨line, cs⟩ := rfl
    by_cases hc : (c == '/' && previous == '*') = true
    · rw [if_pos hc] at hturn
      exact .done (hturn.trans rfl) (by rw [afterComment, if_pos hc, commentResult])
    · rw [if_neg hc] at hturn
      exact .again (hturn.trans rfl) (Nat.lt_succ_self _) (by rw [afterComment, if_neg hc])

theorem escaped_eq {e : Char} (he : escape? c = some e) :
    escaped ⟨line, c :: rest⟩ = some (.ok (e, ⟨line, rest⟩)) := by
  rw [escaped, next_bind]
  simp only [he]
  rfl

theorem escaped_eq_error (he : escape? c = none) :
    escaped ⟨line, c :: rest⟩ = some (.error ⟨line, quote c.toString, .invalidEscape⟩) := by
  rw [escaped, next_bind]
  simp only [he]
  rfl

theorem text_eq (taken : List Char) (h : cs.length < fuel) :
    loop textTurn fuel taken ⟨line, cs⟩ = some ((stringBody line cs).map fun r =>
      (taken ++ r.1, ⟨r.2.1, r.2.2⟩)) := by
  refine loop_eq (R := fun taken s r => r = (stringBody s.line s.rest).map fun r =>
    (taken ++ r.1, ⟨r.2.1, r.2.2⟩)) ?_ fuel rfl h
  rintro taken ⟨line, cs⟩ _ rfl
  cases cs with
  | nil => exact .failed rfl rfl
  | cons c cs =>
    have hturn : textTurn taken ⟨line, c :: cs⟩ =
        (if c == '"' then pure (.done taken)
          else if c == '\\' then escaped >>= fun e => pure (.again (taken ++ [e]))
          else countLine c >>= fun _ => pure (.again (taken ++ [c])) :
            Watched Position (Turn (List Char) (List Char))) ⟨line, cs⟩ := rfl
    by_cases hquote : c = '"'
    · subst hquote
      exact .done rfl (by simp [stringBody, Except.map])
    by_cases hescape : c = '\\'
    · subst hescape
      cases cs with
      | nil => exact .failed rfl rfl
      | cons c cs =>
        cases he : escape? c with
        | none =>
          exact .failed (hturn.trans (bind_of_error (escaped_eq_error he) _))
            (by simp [stringBody, he, Except.map])
        | some e =>
          refine .again (hturn.trans (bind_of_ok (escaped_eq he) _))
            (Nat.lt_succ_of_lt (Nat.lt_succ_self _)) ?_
          simp only [stringBody, he]
          cases stringBody line cs <;> simp [Except.map]
    rw [if_neg (by simpa using hquote), if_neg (by simpa using hescape)] at hturn
    refine .again hturn (Nat.lt_succ_self _) ?_
    rw [stringBody_other hquote hescape]
    cases stringBody (lineAfter line c) cs <;> simp [Except.map]

theorem number_eq (h : cs.length < fuel) :
    number fuel ⟨line, cs⟩ = some (.ok ((Script.number cs).1, ⟨line, (Script.number cs).2⟩)) := by
  have hwhole : loop (spanTurn Char.isDigit) fuel [] ⟨line, cs⟩ =
      some (.ok (cs.takeWhile Char.isDigit, ⟨line, cs.dropWhile Char.isDigit⟩)) :=
    span_eq Char.isDigit [] h
  have hless := length_dropWhile_le Char.isDigit cs
  rw [number, bind_of_ok hwhole, Script.number]
  generalize cs.takeWhile Char.isDigit = whole
  generalize cs.dropWhile Char.isDigit = tail at hless ⊢
  change (if tail.head? == some '.' && tail.tail.head?.any Char.isDigit then
      next >>= fun _ => loop (spanTurn Char.isDigit) fuel [] >>= fun places =>
        pure (.ofDecimal (decimalValue (whole ++ places)) places.length)
    else pure (.ofDecimal (decimalValue whole) 0) : Watched Position Double) ⟨line, tail⟩ = _
  by_cases hpoint : ∃ d more, tail = '.' :: d :: more ∧ d.isDigit = true
  · obtain ⟨d, more, rfl, hd⟩ := hpoint
    have hplaces : loop (spanTurn Char.isDigit) fuel [] ⟨line, d :: more⟩ =
        some (.ok ((d :: more).takeWhile Char.isDigit, ⟨line, (d :: more).dropWhile Char.isDigit⟩)) :=
      span_eq Char.isDigit [] (by simp only [List.length_cons] at hless ⊢; omega)
    rw [if_pos (by simpa using hd)]
    simp only [if_pos hd]
    exact (next_bind _).trans (bind_of_ok hplaces _)
  · have hnone : ¬ (tail.head? == some '.' && tail.tail.head?.any Char.isDigit) = true := by
      rcases tail with _ | ⟨point, _ | ⟨d, more⟩⟩
      · decide
      · simp
      · simpa using hpoint
    rw [if_neg hnone]
    split
    next d more =>
      rw [if_neg fun hd => hpoint ⟨d, more, rfl, hd⟩]
      rfl
    next => rfl

/-- What the lexer scans, as a result under watch. -/
def scanned (r : Except CompileError Scanned) : Except CompileError (Option Lexeme × Position) :=
  r.map fun s => (s.lexeme?, ⟨s.line, s.rest⟩)

theorem comment_eq (h : rest.length < fuel) :
    (comment fuel >>= fun _ => pure none) ⟨line, rest⟩ = some (scanned (step line '/' rest)) := by
  rcases rest with _ | ⟨c, rest⟩
  · rfl
  by_cases hline : c = '/'
  · subst hline
    have hspan : comment fuel ⟨line, '/' :: rest⟩ =
        some (.ok ((), ⟨line, ('/' :: rest).dropWhile (· != '\n')⟩)) :=
      bind_of_ok (span_eq (· != '\n') [] h) fun _ => pure ()
    exact bind_of_ok hspan _
  by_cases hblock : c = '*'
  · subst hblock
    have hcomment : comment fuel ⟨line, '*' :: rest⟩ =
        some (commentResult (afterComment line '\x00' rest)) :=
      blockComment_eq '\x00' (Nat.lt_of_succ_lt h)
    unfold step
    rcases hbehind : afterComment line '\x00' rest with ⟨line', _ | rest'⟩
    · rw [hbehind] at hcomment
      simp only [hbehind]
      exact bind_of_error hcomment _
    · rw [hbehind] at hcomment
      simp only [hbehind]
      exact bind_of_ok hcomment _
  · have hoperator : comment fuel ⟨line, c :: rest⟩ = some (.error ⟨line, quote "/", .operator⟩) := by
      change (if some c == some '/' then _ else if some c == some '*' then _ else _ :
        Watched Position Unit) ⟨line, c :: rest⟩ = _
      rw [if_neg (by simpa using hline), if_neg (by simpa using hblock)]
      rfl
    have hstep : step line '/' (c :: rest) = .error ⟨line, quote "/", .operator⟩ := by
      have hblank : Text.isBlank '/' = false := by decide
      unfold step
      simp [hblank, hline, hblock]
    rw [hstep]
    exact bind_of_error hoperator _

theorem scan_eq (h : (c :: rest).length < fuel) :
    scan fuel c ⟨line, c :: rest⟩ = some (scanned (step line c rest)) := by
  rw [List.length_cons] at h
  have hscan : scan fuel c ⟨line, c :: rest⟩ =
      (if c == '\n' || Text.isBlank c then next >>= fun _ => countLine c >>= fun _ => pure none
      else if c == '/' then next >>= fun _ => comment fuel >>= fun _ => pure none
      else if c.isDigit then number fuel >>= fun value => pure (some ⟨.number value, line⟩)
      else if c == '"' then next >>= fun _ => loop textTurn fuel [] >>= fun cs =>
        pure (some ⟨.text (String.ofList cs), line⟩)
      else if isNameStart c then loop (spanTurn isNamePart) fuel [] >>= fun cs =>
        pure (some ⟨.word (String.ofList cs), line⟩)
      else if marks.contains c then next >>= fun _ => pure (some ⟨.mark c, line⟩)
      else fail (quote c.toString) (.invalidCharacter c) : Watched Position (Option Lexeme))
        ⟨line, c :: rest⟩ := rfl
  unfold step
  by_cases hend : c = '\n'
  · subst hend
    rfl
  rw [if_neg (by simpa using hend)]
  by_cases hblank : Text.isBlank c = true
  · rw [if_pos hblank]
    rw [if_pos (by simp [hblank])] at hscan
    have hline : lineAfter line c = line := if_neg (by simpa using hend)
    rw [hscan]
    change some (Except.ok (none, (⟨lineAfter line c, rest⟩ : Position))) = _
    rw [hline]
    rfl
  rw [if_neg hblank]
  rw [if_neg (by simp [hblank, hend])] at hscan
  by_cases hslash : c = '/'
  · subst hslash
    exact hscan.trans (comment_eq (Nat.lt_of_succ_lt h))
  rw [if_neg (by simpa using hslash)] at hscan ⊢
  by_cases hdigit : c.isDigit = true
  · rw [if_pos hdigit] at hscan ⊢
    exact hscan.trans (bind_of_ok (number_eq h) _)
  rw [if_neg hdigit] at hscan ⊢
  by_cases hquote : c = '"'
  · subst hquote
    have htext : loop textTurn fuel [] ⟨line, rest⟩ = _ := text_eq [] (Nat.lt_of_succ_lt h)
    rw [if_pos (by decide)] at hscan ⊢
    rw [hscan, next_bind]
    cases hbody : stringBody line rest with
    | error e =>
      rw [hbody] at htext
      exact bind_of_error htext _
    | ok r =>
      rw [hbody] at htext
      exact bind_of_ok htext _
  rw [if_neg (by simpa using hquote)] at hscan ⊢
  by_cases hname : isNameStart c = true
  · rw [if_pos hname] at hscan ⊢
    exact hscan.trans (bind_of_ok (span_eq isNamePart [] h) _)
  rw [if_neg hname] at hscan ⊢
  by_cases hmark : marks.contains c = true
  · rw [if_pos hmark] at hscan ⊢
    exact hscan
  · rw [if_neg hmark] at hscan ⊢
    exact hscan

/-- The results that the loop over the lexemes should have. -/
def Scanning (fuel : Nat) (items : List Lexeme) (s : Position)
    (r : Except CompileError (List Lexeme × Position)) : Prop :=
  s.rest.length < fuel ∧ ∃ turns, s.rest.length ≤ turns ∧
    r = (lexemesFrom turns s.line s.rest).map fun ls => (items ++ ls.items, ⟨ls.lastLine, []⟩)

theorem ends_scanTurn (items : List Lexeme) (s : Position)
    (r : Except CompileError (List Lexeme × Position)) (h : Scanning fuel items s r) :
    Ends (Scanning fuel) (Remaining.left s) (scanTurn fuel items s) r := by
  obtain ⟨line, rest⟩ := s
  obtain ⟨hfuel, turns, hturns, rfl⟩ := h
  rcases rest with _ | ⟨c, rest⟩
  · refine .done rfl ?_
    cases turns <;> simp [lexemesFrom, Except.map]
  rcases turns with _ | turns
  · exact absurd hturns (Nat.not_succ_le_zero _)
  have hscan : scan fuel c ⟨line, c :: rest⟩ = _ := scan_eq hfuel
  have hturn : scanTurn fuel items ⟨line, c :: rest⟩ =
      (scan fuel c >>= fun l => pure (.again (items ++ l.toList))) ⟨line, c :: rest⟩ := rfl
  rw [lexemesFrom]
  cases hstep : step line c rest with
  | error e =>
    rw [hstep] at hscan
    exact .failed (hturn.trans (bind_of_error hscan _)) rfl
  | ok s =>
    rw [hstep] at hscan
    have hless := length_step hstep
    simp only [List.length_cons] at hfuel hturns
    refine .again (t := ⟨s.line, s.rest⟩) (hturn.trans (bind_of_ok hscan _)) (Nat.lt_succ_of_le hless)
      ⟨Nat.lt_of_le_of_lt hless (Nat.lt_of_succ_lt hfuel), turns,
        Nat.le_trans hless (Nat.le_of_succ_le_succ hturns), ?_⟩
    change ((lexemesFrom turns s.line s.rest).bind fun tail => _).map _ = _
    cases lexemesFrom turns s.line s.rest <;> simp [Except.map, Except.bind]

/-- **No loop of the lexer is stopped**, on any text, if it may take a turn more than there are
characters. -/
theorem lexemes_eq (source : String) (h : source.toList.length < fuel) :
    lexemes fuel source = some (Script.lexemes source) := by
  have hloop := loop_eq ends_scanTurn fuel (b := []) (s := ⟨1, source.toList⟩)
    ⟨h, source.toList.length, Nat.le_refl _, rfl⟩ h
  change Option.map _ (loop (scanTurn fuel) fuel [] ⟨1, source.toList⟩) = _
  rw [hloop, Script.lexemes]
  cases lexemesFrom source.toList.length 1 source.toList <;> rfl

end

end Watched

end ScriptHost.Script
