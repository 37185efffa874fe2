import ScriptHost.Proofs.Outcomes

/-!
# Which token is blamed

A list of tokens that is no program has a first token that cannot be right: programs begin with all
tokens before it, but none begins with that one too (`Offending`).  The error points at it or at a
token before it, with one exception (`blames_no_later`).  Behind a minus sign the parser takes the next
token away before it looks whether that is a number, and so an error that a number is missing points at
the token behind the wrong one.
-/

namespace ScriptHost.Script

open Grammar ScriptHost.Script.Parser

/-- The tokens of a text, and its end. -/
def Lexemes.tokens (ls : Lexemes) : List (Option Token) :=
  ls.items.map (fun l => some l.token) ++ [none]

/-- The parser before the token number `i`. -/
def Lexemes.cursor (ls : Lexemes) (i : Nat) : Cursor := ⟨ls.items.drop i, ls.lastLine⟩

/-- Tokens with which a program begins. -/
def BeginProgram (ts : List (Option Token)) : Prop :=
  ∃ ls ss, statementsOfLexemes ls = .ok ss ∧ ts <+: ls.tokens

/-- The token number `i` is the first one that is wrong. -/
structure Offending (ls : Lexemes) (i : Nat) : Prop where
  inside : i < ls.tokens.length
  before (j : Nat) (hj : j < i) : BeginProgram (ls.tokens.take (j + 1))
  wrong : ¬ BeginProgram (ls.tokens.take (i + 1))

section

variable {front rest items : List Lexeme} {last : Nat}

theorem tokens_append (front rest : List Lexeme) (last : Nat) :
    Lexemes.tokens ⟨front ++ rest, last⟩ =
      front.map (fun l => some l.token) ++ Lexemes.tokens ⟨rest, last⟩ := by
  simp [Lexemes.tokens]

theorem take_tokens (rest : List Lexeme) (last : Nat) :
    (Lexemes.tokens ⟨rest, last⟩).take 1 = [firstToken? rest] := by
  cases rest <;> rfl

theorem exists_statements (h : Spelt Spells items) (last : Nat) :
    ∃ ss, statementsOfLexemes ⟨items, last⟩ = .ok ss :=
  exists_statementsOfLexemes_iff.2 h

/-- What could become a program begins one. -/
theorem beginProgram_of_viable {more : List Lexeme} (h : Spelt Spells (front ++ more)) :
    BeginProgram (front.map fun l => some l.token) := by
  obtain ⟨ss, hss⟩ := exists_statements h 0
  refine ⟨⟨front ++ more, 0⟩, ss, hss, ?_⟩
  rw [tokens_append]
  exact List.prefix_append _ _

/-- Lexemes that begin with tokens like those of `front`, and go on with `t?`. -/
theorem split_of_prefix {t? : Option Token} : ∀ {front items : List Lexeme},
    front.map (fun l => some l.token) ++ [t?] <+: Lexemes.tokens ⟨items, last⟩ →
      ∃ front' rest', items = front' ++ rest' ∧ SameTokens front' front ∧ firstToken? rest' = t?
  | [], [], h => ⟨[], [], rfl, rfl, (List.cons_prefix_cons.1 h).1.symm⟩
  | [], l :: items, h => ⟨[], l :: items, rfl, rfl, (List.cons_prefix_cons.1 h).1.symm⟩
  | l :: front, [], h => by
    cases (List.cons_prefix_cons.1 h).1
  | l :: front, l' :: items, h => by
    obtain ⟨hl, h⟩ := List.cons_prefix_cons.1 h
    obtain ⟨front', rest', rfl, hsame, hfirst⟩ := split_of_prefix h
    refine ⟨l' :: front', rest', rfl, ?_, hfirst⟩
    rw [SameTokens, List.map_cons, List.map_cons, Option.some.inj hl, hsame]

/-- Lexemes with a first token like that of `rest` may as well begin as `rest` does. -/
theorem exists_same_head {rest' : List Lexeme} (h : firstToken? rest' = firstToken? rest) :
    ∃ rest'', SameTokens rest' rest'' ∧ rest''.head? = rest.head? := by
  cases rest' with
  | nil =>
    cases rest with
    | nil => exact ⟨[], rfl, rfl⟩
    | cons => cases h
  | cons l' rest' =>
    cases rest with
    | nil => cases h
    | cons l rest =>
      exact ⟨l :: rest', congrArg (· :: rest'.map Lexeme.token) (Option.some.inj h).symm, rfl⟩

theorem not_beginProgram (hwrong : ∀ rest' last', rest'.head? = rest.head? →
    ∃ e, program ⟨front ++ rest', last'⟩ = .error e) :
    ¬ BeginProgram (front.map (fun l => some l.token) ++ [firstToken? rest]) := by
  rintro ⟨⟨items, last⟩, ss, hss, hprefix⟩
  obtain ⟨front', rest', rfl, hsame, hfirst⟩ := split_of_prefix hprefix
  obtain ⟨rest'', hsame', hhead⟩ := exists_same_head hfirst
  have hspells : Spelt Spells (front' ++ rest') := exists_statementsOfLexemes_iff.1 ⟨ss, hss⟩
  obtain ⟨ss₁, hss₁⟩ := hspells
  have hall : SameTokens (front' ++ rest') (front ++ rest'') := by
    rw [SameTokens, List.map_append, List.map_append, hsame, hsame']
  have hother := hss₁.of_sameTokens hall
  obtain ⟨ss₂, hss₂⟩ := exists_statements hother 0
  obtain ⟨e, he⟩ := hwrong rest'' 0 hhead
  have herror : statementsOfLexemes ⟨front ++ rest'', 0⟩ = .error e := congrArg (Except.map Prod.fst) he
  cases herror.symm.trans hss₂

end

/-- **What the parser refuses has a first wrong token, and `Blames` says where the error points.** -/
theorem refused_at {ls : Lexemes} {e : CompileError} (h : statementsOfLexemes ls = .error e) :
    ∃ front rest, ls.items = front ++ rest ∧ Offending ls front.length ∧
      Blames e front rest ls.lastLine := by
  obtain ⟨items, last⟩ := ls
  have hprogram : statementsOfLexemes ⟨items, last⟩ = (program ⟨items, last⟩).map Prod.fst := rfl
  rw [hprogram] at h
  cases outcome_program _ items last (Nat.lt_succ_self _) with
  | accepted front rest ss hitems _ hruns =>
    rw [hitems, hruns rest last rfl] at h
    cases h
  | refused front rest e' hitems hviable herror hblames hdead =>
    rw [herror] at h
    cases h
    subst hitems
    obtain ⟨more, hmore⟩ := hviable
    have htake {k : Nat} (hk : k ≤ front.length) :
        (Lexemes.tokens ⟨front ++ rest, last⟩).take k = (front.map fun l => some l.token).take k := by
      rw [tokens_append, List.take_append_of_le_length (by simpa using hk)]
    refine ⟨front, rest, rfl, ?_, hblames⟩
    constructor
    case inside => simp [Lexemes.tokens]
    case before =>
      intro j hj
      obtain ⟨ls, ss, hss, hprefix⟩ := beginProgram_of_viable hmore
      rw [htake hj]
      exact ⟨ls, ss, hss, (List.take_prefix _ _).trans hprefix⟩
    case wrong =>
      have hnext : (Lexemes.tokens ⟨front ++ rest, last⟩).take (front.length + 1) =
          front.map (fun l => some l.token) ++ [firstToken? rest] := by
        rw [tokens_append, ← List.length_map fun l : Lexeme => some l.token,
          List.take_length_add_append, take_tokens]
      rw [hnext]
      exact not_beginProgram hdead

/-- **No token behind the first wrong one is blamed**, but where a number is missing behind a minus
sign: then the error points at the token behind the wrong one. -/
theorem blames_no_later {source : String} {ls : Lexemes} {e : CompileError}
    (hls : lexemes source = .ok ls) (h : parse source = .error e) :
    ∃ i, Offending ls i ∧
      (e.reason ≠ .expected .negatedNumber → ∃ j, j ≤ i ∧ e.At (ls.cursor j)) ∧
      (e.reason = .expected .negatedNumber →
        ∃ j, i = j + 1 ∧ (ls.cursor j).token? = some (.mark '-') ∧ e.At (ls.cursor (i + 1))) := by
  have hparse : statementsOfLexemes ls = .error e := by
    rw [parse, hls] at h
    exact h
  obtain ⟨items, last⟩ := ls
  obtain ⟨front, rest, rfl, hoffending, hblames⟩ := refused_at hparse
  refine ⟨front.length, hoffending, ?_⟩
  cases hblames with
  | offending h hreason =>
    exact ⟨fun _ => ⟨_, Nat.le_refl _, by simpa [Lexemes.cursor] using h⟩,
      fun hreason' => absurd hreason' hreason⟩
  | @introducing front f hfront hf h hreason =>
    subst hfront
    refine ⟨fun _ => ⟨front.length, by simp, by simpa [Lexemes.cursor] using h⟩,
      fun hreason' => absurd hreason' hreason⟩
  | @skipped front m hfront hm h hreason =>
    subst hfront
    refine ⟨fun hreason' => absurd hreason hreason', fun _ => ⟨front.length, by simp, ?_, ?_⟩⟩
    · simpa [Lexemes.cursor, Cursor.token?] using hm
    · have htail : (front ++ [m] ++ rest).drop ((front ++ [m]).length + 1) = rest.tail := by
        rw [List.drop_length_add_append, List.drop_one]
      rwa [Lexemes.cursor, htail]

/-- A minus sign before a name, and another name on the next line. -/
def negatedName : Lexemes := ⟨[⟨.mark '-', 1⟩, ⟨.word "x", 1⟩, ⟨.word "y", 2⟩], 2⟩

/-- The first name is wrong, and the other one is blamed. -/
theorem blames_no_later_negated :
    let e : CompileError := ⟨2, quote "y", .expected .negatedNumber⟩
    lexemes "-x\ny" = .ok negatedName ∧ parse "-x\ny" = .error e ∧ Offending negatedName 1 ∧
      e.At (negatedName.cursor 2) ∧ ∀ j ≤ 1, ¬ e.At (negatedName.cursor j) := by
  intro e
  have hls : lexemes "-x\ny" = .ok negatedName := by rfl
  have hrefused : statementsOfLexemes negatedName = .error e := by rfl
  have h : parse "-x\ny" = .error e := by rw [parse, hls]; exact hrefused
  obtain ⟨i, hoffending, -, hbehind⟩ := blames_no_later hls h
  obtain ⟨j, rfl, hminus, hat⟩ := hbehind rfl
  have hinside : j + 1 < 4 := hoffending.inside
  have hfirst : j = 0 := by
    rcases j with _ | _ | _ | j
    · rfl
    · cases hminus
    · cases hminus
    · omega
  subst hfirst
  refine ⟨hls, h, hoffending, hat, ?_⟩
  rintro (_ | _ | j) hj ⟨hline, -⟩
  · cases hline
  · cases hline
  · omega

end ScriptHost.Script
