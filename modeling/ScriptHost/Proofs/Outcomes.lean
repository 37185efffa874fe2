import ScriptHost.Proofs.Progress
import ScriptHost.Proofs.Tokenwise

/-!
# How the parser leaves off

A parser that reads a list of lexemes from the front comes to an end in one of two ways
(`Parser.Outcome`).  It accepts a front part, or it refuses the list at some place: what stands before
that place could have gone on to something acceptable, but no list that goes on with the lexeme at that
place is accepted.  In both cases it has looked no further than to that lexeme, and the error points at
it, or close to it (`Parser.Blames`).  Parsers one after the other have such an outcome if each of them
has (`Parser.Outcome.bind`), so it is shown for one production of the grammar after the other.

What lies further ahead may be of any length, so the counts that bound the loops of the parser must go
first.  They do not matter (`Parser.commaListFrom_eq` and the like), because a loop that takes turns
has one result (`Watched.Ends.unique`).
-/

namespace ScriptHost.Script

open Grammar

/-- The error points at the token at which the parser stands. -/
def CompileError.At (e : CompileError) (c : Cursor) : Prop := e.line = c.line ∧ e.near = c.near

/-! ## The counts of the parser do not matter -/

namespace Parser

open Watched

section

variable {α β : Type} {c : Cursor}

theorem bind_congr {p : Parser α} {f g : α → Parser β}
    (h : ∀ a c', p c = .ok (a, c') → f a c' = g a c') : (p >>= f) c = (p >>= g) c := by
  cases hp : p c with
  | error e => rw [bind_of_error hp, bind_of_error hp]
  | ok r =>
    rw [bind_of_ok hp, bind_of_ok hp]
    exact h _ _ hp

/-- The method calls behind `receiver`. -/
def suffixes (receiver : Expr) : Parser Expr := do
  suffixesFrom expression (← get).rest.length receiver

/-- The members of a class behind those of `decl`. -/
def members (decl : ClassDecl) : Parser ClassDecl := do membersFrom ((← get).rest.length + 1) decl

/-- The statements of a program. -/
def program : Parser (List Statement) := do statementsFrom (← get).rest.length

theorem tracks_expression_self (n : Nat) : Tracks n (expression : Watched Cursor Expr) expression where
  follows _ _ := rfl
  reads _ _ _ hc h := reads_of_recognizes (recognizes_expression n) Expression.ne_nil (Nat.le_of_lt hc) h

theorem expression_eq (c : Cursor) : expression c = (primary expression >>= suffixes) c := by
  have hnested : Tracks c.rest.length (onward c.rest.length (Watched.expression c.rest.length))
      expression := tracks_expression (fun _ => follows_expression) (recognizes_expression _)
  have hread := follows_expression_of_nested hnested (recognizes_expression _) (Nat.lt_succ_self _)
  exact Option.some.inj ((follows_expression (Nat.lt_succ_self _)).symm.trans hread)

theorem suffixesFrom_eq {turns : Nat} (receiver : Expr) (h : c.rest.length ≤ turns) :
    suffixesFrom expression turns receiver c = suffixes receiver c := by
  have hn : c.rest.length < c.rest.length + 1 := Nat.lt_succ_self _
  exact Ends.unique (ends_suffixTurn (tracks_expression_self _) (recognizes_expression _))
    ⟨hn, hn, turns, h, rfl⟩ ⟨hn, hn, _, Nat.le_refl _, rfl⟩

theorem commaListFrom_eq {p : Parser α} (hp : ∀ n, Tracks n (p : Watched Cursor α) p) {turns : Nat}
    (h : c.rest.length ≤ turns) : commaListFrom p turns c = commaList p c := by
  have hn : c.rest.length < c.rest.length + 1 := Nat.lt_succ_self _
  have hmap : Except.map id (commaListFrom p turns c) = Except.map id (commaList p c) :=
    Ends.unique (ends_elementTurn (hp _)) (b := []) ⟨hn, turns, h, rfl⟩ ⟨hn, _, Nat.le_refl _, rfl⟩
  rwa [Except.map_id] at hmap

theorem membersFrom_eq {turns : Nat} (decl : ClassDecl) (h : c.rest.length < turns) :
    membersFrom turns decl c = members decl c :=
  Ends.unique ends_memberTurn ⟨Nat.lt_succ_self _, turns, h, rfl⟩
    ⟨Nat.lt_succ_self _, _, Nat.lt_succ_self _, rfl⟩

theorem statementsFrom_eq {turns : Nat} (h : c.rest.length ≤ turns) :
    statementsFrom turns c = program c := by
  have hn : c.rest.length < c.rest.length + 1 := Nat.lt_succ_self _
  have hmap : Except.map id (statementsFrom turns c) = Except.map id (program c) :=
    Ends.unique ends_statementTurn (b := []) ⟨hn, turns, h, rfl⟩ ⟨hn, _, Nat.le_refl _, rfl⟩
  rwa [Except.map_id] at hmap

/-! ### How a loop goes on -/

theorem bind_congr_left {p q : Parser α} (f : α → Parser β) (h : p c = q c) :
    (p >>= f) c = (q >>= f) c := by
  change (p c >>= _) = (q c >>= _)
  rw [h]

theorem commaList_eq {p : Parser α} (hp : ∀ n, Tracks n (p : Watched Cursor α) p) (c : Cursor) :
    commaList p c = (p >>= fun first => atMark ',' >>= fun more =>
      if more then advance >>= fun _ => commaList p >>= fun as => pure (first :: as)
      else pure [first]) c := by
  rw [← commaListFrom_eq hp (Nat.le_succ _), commaListFrom]
  refine bind_congr fun first c' h => ?_
  have hless := (hp _).reads c c' first (Nat.lt_succ_self _) h
  obtain ⟨items, last⟩ := c'
  rw [atMark_bind, atMark_bind]
  split
  next hcomma =>
    obtain ⟨_, rest, rfl, -⟩ := cons_of_token hcomma
    rw [Parser.advance_bind, Parser.advance_bind]
    exact bind_congr_left _ (commaListFrom_eq hp (Nat.le_of_lt (Nat.lt_of_succ_lt hless)))
  next => rfl

variable {l : Lexeme} {rest : List Lexeme} {last : Nat}

theorem suffixes_of_other (receiver : Expr) (h : firstToken? rest ≠ some (.mark '.')) :
    suffixes receiver ⟨rest, last⟩ = .ok (receiver, ⟨rest, last⟩) := by
  rw [← suffixesFrom_eq receiver (Nat.le_succ _), suffixesFrom, atMark_bind, if_neg (not_token h)]
  rfl

/-- The arguments of the method that was named last, and the method calls behind it. -/
def callBehind (receiver : Expr) (method : String) : Parser Expr := do
  if ← atMark '(' then
    advance
    let arguments ← closedList expression ')' .argumentClosing
    suffixes (.call receiver method arguments)
  else suffixes (.getter receiver method)

theorem suffixes_of_point (receiver : Expr) (hl : l.token = .mark '.') :
    suffixes receiver ⟨l :: rest, last⟩ =
      (name .memberName >>= fun method => callBehind receiver method) ⟨rest, last⟩ := by
  change suffixesFrom expression (rest.length + 1) receiver ⟨l :: rest, last⟩ = _
  rw [suffixesFrom, atMark_bind, if_pos (token_of_cons hl), Parser.advance_bind]
  refine bind_congr fun method c' h => ?_
  obtain ⟨_, rest, rfl, -, rfl⟩ := name_sound h
  rw [callBehind, atMark_bind, atMark_bind]
  split
  next hopen =>
    obtain ⟨_, rest, rfl, -⟩ := cons_of_token hopen
    rw [Parser.advance_bind, Parser.advance_bind]
    refine bind_congr fun arguments c' h => suffixesFrom_eq _ ?_
    have hless := reads_of_recognizes (recognizes_elements _ (recognizes_expression _) (.inl rfl))
      Closed.ne_nil (Nat.le_refl _) h
    simp only [List.length_cons] at hless ⊢
    omega
  next => exact suffixesFrom_eq _ (by simp)

variable {line line' : Nat} (decl : ClassDecl)

theorem members_of_construct :
    members decl ⟨⟨.word "construct", line⟩ :: rest, last⟩ =
      (name .constructorName >>= fun constructor => parameters >>= fun arity => body >>= fun _ =>
        members { decl with constructors := decl.constructors ++ [methodSignature constructor arity] })
        ⟨rest, last⟩ := by
  change membersFrom (rest.length + 1 + 1) decl ⟨⟨.word "construct", line⟩ :: rest, last⟩ = _
  rw [membersFrom_construct]
  refine bind_congr fun constructor c' h => ?_
  obtain ⟨_, items, rfl, -, rfl⟩ := name_sound h
  refine bind_congr fun arity c' h => ?_
  have hless := reads_of_recognizes (recognizes_parameters _) Parameters.ne_nil (Nat.le_refl _) h
  refine bind_congr fun _ c'' h => membersFrom_eq _ ?_
  obtain ⟨items', last⟩ := c'
  obtain ⟨_, _, _, rest', rfl, rfl, -⟩ := body_sound h
  simp only [List.length_append, List.length_cons] at hless ⊢
  omega

/-- A foreign method behind the words that announce it, and the members behind it. -/
def methodBehind (isStatic : Bool) : Parser ClassDecl := do
  let method ← name .methodName
  if ← atMark '(' then
    let arity ← parameters
    members { decl with methods := decl.methods ++ [⟨isStatic, signature method (some arity)⟩] }
  else members { decl with methods := decl.methods ++ [⟨isStatic, signature method none⟩] }

theorem methodFrom_eq {turns : Nat} (isStatic : Bool) (h : c.rest.length ≤ turns) :
    methodFrom turns decl isStatic c = methodBehind decl isStatic c := by
  obtain ⟨items, last⟩ := c
  refine bind_congr fun method c' hname => ?_
  obtain ⟨_, rest, rfl, -, rfl⟩ := name_sound hname
  simp only [List.length_cons] at h
  rw [atMark_bind, atMark_bind]
  split
  next =>
    rw [bind_map_left]
    refine bind_congr fun arity c' harity => membersFrom_eq _ ?_
    have hless := reads_of_recognizes (recognizes_parameters _) Parameters.ne_nil (Nat.le_refl _) harity
    exact Nat.lt_of_lt_of_le hless (Nat.le_of_succ_le h)
  next => exact membersFrom_eq _ h

theorem members_of_foreign_static :
    members decl ⟨⟨.word "foreign", line⟩ :: ⟨.word "static", line'⟩ :: rest, last⟩ =
      methodBehind decl true ⟨rest, last⟩ :=
  membersFrom_foreign_static.trans (methodFrom_eq decl true (show rest.length ≤ rest.length + 2 by omega))

theorem members_of_foreign (h : firstToken? rest ≠ some (.word "static")) :
    members decl ⟨⟨.word "foreign", line⟩ :: rest, last⟩ = methodBehind decl false ⟨rest, last⟩ :=
  (membersFrom_foreign h).trans (methodFrom_eq decl false (Nat.le_succ _))

theorem program_of_cons :
    program ⟨l :: rest, last⟩ =
      (action >>= fun a => program >>= fun ss => pure (⟨a, l.line⟩ :: ss)) ⟨l :: rest, last⟩ := by
  change statementsFrom (rest.length + 1) ⟨l :: rest, last⟩ = _
  have hstatement : statement ⟨l :: rest, last⟩ =
      (action >>= fun a => pure ⟨a, l.line⟩) ⟨l :: rest, last⟩ := rfl
  rw [statementsFrom, Parser.peek_bind]
  cases hp : action ⟨l :: rest, last⟩ with
  | error e =>
    rw [Parser.bind_of_error hp]
    exact Parser.bind_of_error (hstatement.trans (Parser.bind_of_error hp _)) _
  | ok r =>
    obtain ⟨a, c'⟩ := r
    obtain ⟨ls, rest', hitems, rfl, hls, -⟩ := action_sound hp
    obtain ⟨_, _, rfl, -⟩ := hls.begins
    have hlength := congrArg List.length hitems
    simp only [List.length_append, List.length_cons] at hlength
    rw [Parser.bind_of_ok hp]
    refine (Parser.bind_of_ok (hstatement.trans (Parser.bind_of_ok hp _)) _).trans ?_
    exact bind_congr_left _ (statementsFrom_eq (show rest'.length ≤ rest.length by omega))

end

/-! ## Outcomes -/

/-- Where an error points if `front` could have gone on, but not with `rest`. -/
inductive Blames (e : CompileError) (front rest : List Lexeme) (last : Nat) : Prop
  /-- At the token that comes next. -/
  | offending (h : e.At ⟨rest, last⟩) (hreason : e.reason ≠ .expected .negatedNumber)
  /-- At a word before it that should have introduced a class. -/
  | introducing {front' : List Lexeme} {f : Lexeme} (hfront : front = front' ++ [f])
      (hf : f.token = .word "foreign") (h : e.At ⟨f :: rest, last⟩)
      (hreason : e.reason ≠ .expected .negatedNumber)
  /-- Behind it, since it was skipped as if it were the number behind a minus sign. -/
  | skipped {front' : List Lexeme} {m : Lexeme} (hfront : front = front' ++ [m])
      (hm : m.token = .mark '-') (h : e.At ⟨rest.tail, last⟩)
      (hreason : e.reason = .expected .negatedNumber)

theorem Blames.append {e : CompileError} {front rest : List Lexeme} {last : Nat}
    (h : Blames e front rest last) (ls : List Lexeme) : Blames e (ls ++ front) rest last := by
  cases h with
  | offending h hreason => exact .offending h hreason
  | introducing hfront hf h hreason =>
    exact .introducing (by rw [hfront, List.append_assoc]) hf h hreason
  | skipped hfront hm h hreason => exact .skipped (by rw [hfront, List.append_assoc]) hm h hreason

/-- What a parser makes of `items`, of which it should read a front part with the property `P`.  It
reads one, or it ends with an error where the lexemes so far could have become one, but not with the
one that comes next.  All that lies further ahead makes no difference. -/
inductive Outcome {α : Type} (p : Parser α) (P : List Lexeme → Prop) (items : List Lexeme)
    (last : Nat) : Prop
  | accepted (front rest : List Lexeme) (a : α) (hitems : items = front ++ rest) (hfront : P front)
      (hruns : ∀ rest' last', rest'.head? = rest.head? →
        p ⟨front ++ rest', last'⟩ = .ok (a, ⟨rest', last'⟩))
  | refused (front rest : List Lexeme) (e : CompileError) (hitems : items = front ++ rest)
      (hviable : ∃ more, P (front ++ more)) (herror : p ⟨items, last⟩ = .error e)
      (hblames : Blames e front rest last)
      (hdead : ∀ rest' last', rest'.head? = rest.head? →
        ∃ e', p ⟨front ++ rest', last'⟩ = .error e')

theorem head?_append_congr {rest rest' : List Lexeme} (front : List Lexeme)
    (h : rest'.head? = rest.head?) : (front ++ rest').head? = (front ++ rest).head? := by
  cases front with
  | nil => exact h
  | cons => rfl

theorem firstToken?_append_congr {rest rest' : List Lexeme} (front : List Lexeme)
    (h : rest'.head? = rest.head?) : firstToken? (front ++ rest') = firstToken? (front ++ rest) :=
  congrArg (Option.map Lexeme.token) (head?_append_congr front h)

section

variable {α β : Type} {p q : Parser α} {P Q R : List Lexeme → Prop} {items rest : List Lexeme}
  {l : Lexeme} {last : Nat}

theorem Outcome.mono (h : Outcome p P items last) (hP : ∀ ls, P ls → Q ls) :
    Outcome p Q items last := by
  cases h with
  | accepted front rest a hitems hfront hruns =>
    exact .accepted front rest a hitems (hP _ hfront) hruns
  | refused front rest e hitems hviable herror hblames hdead =>
    obtain ⟨more, hmore⟩ := hviable
    exact .refused front rest e hitems ⟨more, hP _ hmore⟩ herror hblames hdead

/-- The next lexeme alone decides between the branches of a parser. -/
theorem Outcome.ofHead (h : Outcome q P items last)
    (hp : ∀ items' last', items'.head? = items.head? → p ⟨items', last'⟩ = q ⟨items', last'⟩) :
    Outcome p P items last := by
  cases h with
  | accepted front rest a hitems hfront hruns =>
    subst hitems
    exact .accepted front rest a rfl hfront fun rest' last' hrest =>
      (hp _ _ (head?_append_congr _ hrest)).trans (hruns rest' last' hrest)
  | refused front rest e hitems hviable herror hblames hdead =>
    subst hitems
    refine .refused front rest e rfl hviable ((hp _ _ rfl).trans herror) hblames
      fun rest' last' hrest => ?_
    obtain ⟨e', he'⟩ := hdead rest' last' hrest
    exact ⟨e', (hp _ _ (head?_append_congr _ hrest)).trans he'⟩

theorem Outcome.branch (h : Outcome q P items last)
    (hp : ∀ items' last', firstToken? items' = firstToken? items →
      p ⟨items', last'⟩ = q ⟨items', last'⟩) : Outcome p P items last :=
  h.ofHead fun items' last' hhead => hp items' last' (firstToken?_append_congr [] hhead)

/-- Two lexemes decide, where the first one alone is no reason to end. -/
theorem Outcome.ofTwo (h : Outcome q P (l :: rest) last) (hnone : ¬ P [])
    (hok : ∃ rest' last' r, q ⟨l :: rest', last'⟩ = .ok r)
    (hp : ∀ rest' last', firstToken? rest' = firstToken? rest →
      p ⟨l :: rest', last'⟩ = q ⟨l :: rest', last'⟩) : Outcome p P (l :: rest) last := by
  cases h with
  | accepted front rest a hitems hfront hruns =>
    rcases front with _ | ⟨l, front⟩
    · exact absurd hfront hnone
    cases hitems
    exact .accepted (l :: front) rest a rfl hfront fun rest' last' hrest =>
      (hp _ _ (firstToken?_append_congr front hrest)).trans (hruns rest' last' hrest)
  | refused front rest e hitems hviable herror hblames hdead =>
    rcases front with _ | ⟨l, front⟩
    · obtain ⟨rest', last', r, hr⟩ := hok
      obtain ⟨e', he'⟩ := hdead (l :: rest') last' (by simpa using congrArg List.head? hitems)
      cases he'.symm.trans hr
    cases hitems
    refine .refused (l :: front) rest e rfl hviable ((hp _ _ rfl).trans herror) hblames
      fun rest' last' hrest => ?_
    obtain ⟨e', he'⟩ := hdead rest' last' hrest
    exact ⟨e', (hp _ _ (firstToken?_append_congr front hrest)).trans he'⟩

theorem Outcome.pure (a : α) (h : P []) : Outcome (pure a) P items last :=
  .accepted [] items a rfl h fun _ _ _ => rfl

/-- A token with which nothing begins. -/
theorem Outcome.fail (reason : Reason) (hP : ∃ ls, P ls) (hreason : reason ≠ .expected .negatedNumber) :
    Outcome (fail reason : Parser α) P items last :=
  .refused [] items _ rfl hP rfl (.offending ⟨rfl, rfl⟩ hreason) fun _ _ _ => ⟨_, rfl⟩

theorem Outcome.missing (what : Expectation) (hP : ∃ ls, P ls) (hwhat : what ≠ .negatedNumber) :
    Outcome (missing what : Parser α) P items last :=
  .fail _ hP (by simpa using hwhat)

/-- Lexemes that lie behind the parser already. -/
theorem Outcome.behindAll (ls : List Lexeme) (h : Outcome q Q rest last)
    (hp : ∀ rest' last', firstToken? rest' = firstToken? rest →
      p ⟨ls ++ rest', last'⟩ = q ⟨rest', last'⟩) (hQ : ∀ ls', Q ls' → P (ls ++ ls')) :
    Outcome p P (ls ++ rest) last := by
  cases h with
  | accepted front rest a hitems hfront hruns =>
    subst hitems
    refine .accepted (ls ++ front) rest a (List.append_assoc ..).symm (hQ _ hfront)
      fun rest' last' hrest => ?_
    rw [List.append_assoc]
    exact (hp _ _ (firstToken?_append_congr front hrest)).trans (hruns rest' last' hrest)
  | refused front rest e hitems hviable herror hblames hdead =>
    subst hitems
    obtain ⟨more, hmore⟩ := hviable
    refine .refused (ls ++ front) rest e (List.append_assoc ..).symm
      ⟨more, by rw [List.append_assoc]; exact hQ _ hmore⟩ ((hp _ _ rfl).trans herror)
      (hblames.append ls) fun rest' last' hrest => ?_
    obtain ⟨e', he'⟩ := hdead rest' last' hrest
    rw [List.append_assoc]
    exact ⟨e', (hp _ _ (firstToken?_append_congr front hrest)).trans he'⟩

theorem Outcome.behind (h : Outcome q Q rest last)
    (hp : ∀ rest' last', firstToken? rest' = firstToken? rest →
      p ⟨l :: rest', last'⟩ = q ⟨rest', last'⟩) (hQ : ∀ ls, Q ls → P (l :: ls)) :
    Outcome p P (l :: rest) last :=
  h.behindAll [l] hp hQ

/-- A lexeme that is read on its own. -/
theorem Outcome.one {a : α} (hp : ∀ rest' last', p ⟨l :: rest', last'⟩ = .ok (a, ⟨rest', last'⟩))
    (h : P [l]) : Outcome p P (l :: rest) last :=
  .behind (Q := (· = [])) (.pure a rfl) (fun rest' last' _ => hp rest' last')
    (by rintro _ rfl; exact h)

theorem Outcome.bind {f : α → Parser β} (h : Outcome p P items last)
    (hf : ∀ front rest a, items = front ++ rest → P front → Outcome (f a) Q rest last)
    (hR : ∀ front more, P front → Q more → R (front ++ more)) (hQ : ∃ more, Q more) :
    Outcome (p >>= f) R items last := by
  cases h with
  | accepted front rest a hitems hfront hruns =>
    subst hitems
    have hbind : ∀ rest' last', rest'.head? = rest.head? →
        (p >>= f) ⟨front ++ rest', last'⟩ = f a ⟨rest', last'⟩ := fun rest' last' hrest =>
      bind_of_ok (hruns rest' last' hrest) f
    cases hf front rest a rfl hfront with
    | accepted front' rest' b hitems hfront' hruns' =>
      subst hitems
      refine .accepted (front ++ front') rest' b (List.append_assoc ..).symm
        (hR _ _ hfront hfront') fun rest'' last' hrest => ?_
      rw [List.append_assoc, hbind _ _ (head?_append_congr _ hrest)]
      exact hruns' _ _ hrest
    | refused front' rest' e hitems hviable herror hblames hdead =>
      subst hitems
      obtain ⟨more, hmore⟩ := hviable
      refine .refused (front ++ front') rest' e (List.append_assoc ..).symm
        ⟨more, by rw [List.append_assoc]; exact hR _ _ hfront hmore⟩ ((hbind _ _ rfl).trans herror)
        (hblames.append front) fun rest'' last' hrest => ?_
      rw [List.append_assoc, hbind _ _ (head?_append_congr _ hrest)]
      exact hdead _ _ hrest
  | refused front rest e hitems hviable herror hblames hdead =>
    obtain ⟨more, hmore⟩ := hviable
    obtain ⟨more', hmore'⟩ := hQ
    refine .refused front rest e hitems ⟨more ++ more', ?_⟩ (Parser.bind_of_error herror f) hblames
      fun rest' last' hrest => ?_
    · rw [← List.append_assoc]
      exact hR _ _ hmore hmore'
    · obtain ⟨e', he'⟩ := hdead rest' last' hrest
      exact ⟨e', Parser.bind_of_error he' f⟩

/-- Lexemes of which a front part satisfies `P`, and the others `Q`. -/
def Then (P Q : List Lexeme → Prop) (ls : List Lexeme) : Prop :=
  ∃ front more, ls = front ++ more ∧ P front ∧ Q more

theorem Outcome.andThen {f : α → Parser β} (h : Outcome p P items last)
    (hf : ∀ front rest a, items = front ++ rest → P front → Outcome (f a) Q rest last)
    (hQ : ∃ more, Q more) : Outcome (p >>= f) (Then P Q) items last :=
  h.bind hf (fun front more hfront hmore => ⟨front, more, rfl, hfront, hmore⟩) hQ

theorem exists_then {P Q : List Lexeme → Prop} (hP : ∃ ls, P ls) (hQ : ∃ ls, Q ls) :
    ∃ ls, Then P Q ls := by
  obtain ⟨front, hfront⟩ := hP
  obtain ⟨more, hmore⟩ := hQ
  exact ⟨front ++ more, front, more, rfl, hfront, hmore⟩

theorem Outcome.map (h : Outcome p P items last) (f : α → β) :
    Outcome (p >>= fun a => Pure.pure (f a)) P items last :=
  h.bind (Q := (· = [])) (fun _ _ _ _ _ => .pure _ rfl)
    (by rintro front _ hfront rfl; rwa [List.append_nil]) ⟨[], rfl⟩

end

/-! ## The productions -/

/-- The mark `m` on its own. -/
def IsMark (m : Char) (ls : List Lexeme) : Prop := ∃ l, ls = [l] ∧ l.token = .mark m

section

variable {items rest : List Lexeme} {t : Token} {last : Nat}

theorem cons_of_first (h : firstToken? items = some t) :
    ∃ l rest, items = l :: rest ∧ l.token = t := by
  cases items with
  | nil => cases h
  | cons l rest => exact ⟨l, rest, rfl, Option.some.inj h⟩

theorem token_of_first (h : firstToken? items = some t) :
    (Cursor.token? ⟨items, last⟩ == some t) = true :=
  beq_iff_eq.2 h

theorem outcome_mark (m : Char) (what : Expectation) (hwhat : what ≠ .negatedNumber)
    (items : List Lexeme) (last : Nat) : Outcome (mark m what) (IsMark m) items last := by
  by_cases hm : firstToken? items = some (.mark m)
  · obtain ⟨l, rest, rfl, hl⟩ := cons_of_first hm
    exact .one (fun _ _ => mark_of_token hl) ⟨l, rfl, hl⟩
  · refine .branch (.missing what ⟨_, ⟨.mark m, 0⟩, rfl, rfl⟩ hwhat) fun items' last' h => ?_
    rw [mark, atMark_bind, if_neg (not_token (h ▸ hm))]

theorem name_of_other {what : Expectation}
    (h : ∀ w, firstToken? items = some (.word w) → isKeyword w = true) :
    name what ⟨items, last⟩ = (missing what : Parser String) ⟨items, last⟩ := by
  rcases items with _ | ⟨⟨t, line⟩, items⟩
  · rfl
  cases t with
  | word w =>
    change (if isKeyword w then (missing what : Parser String) else _) _ = _
    rw [if_pos (h w rfl)]
  | number | text | mark => rfl

theorem spelt_name : Spelt Name [⟨.word "x", 0⟩] := ⟨"x", .mk ⟨rfl, by decide⟩⟩

theorem outcome_name (what : Expectation) (hwhat : what ≠ .negatedNumber) (items : List Lexeme)
    (last : Nat) : Outcome (name what) (Spelt Name) items last := by
  by_cases hname : ∃ w, firstToken? items = some (.word w) ∧ isKeyword w = false
  · obtain ⟨w, hfirst, hkeyword⟩ := hname
    obtain ⟨l, rest, rfl, hl⟩ := cons_of_first hfirst
    exact .one (fun _ _ => name_of_names ⟨hl, hkeyword⟩) ⟨w, .mk ⟨hl, hkeyword⟩⟩
  · refine .branch (.missing what ⟨_, spelt_name⟩ hwhat) fun items' last' h => ?_
    refine name_of_other fun w hw => ?_
    rw [h] at hw
    cases hkeyword : isKeyword w with
    | true => rfl
    | false => exact absurd ⟨w, hw, hkeyword⟩ hname

end

section

variable {α : Type} {p : Parser α} {P : List Lexeme → α → Prop} {n : Nat}

/-- An element of a list, or all of them, behind a first one. -/
def Remainder (P : List Lexeme → α → Prop) (ls : List Lexeme) : Prop :=
  ls = [] ∨ ∃ comma ls', ls = comma :: ls' ∧ comma.token = .mark ',' ∧ Spelt (Separated P) ls'

theorem outcome_commaList (hp : ∀ n, Watched.Tracks n (p : Watched Cursor α) p)
    (houtcome : ∀ items last, items.length < n → Outcome p (Spelt P) items last) : 
    ∀ (items : List Lexeme) (last : Nat), items.length < n →
      Outcome (commaList p) (Spelt (Separated P)) items last := by
  intro items
  induction hlength : items.length using Nat.strongRecOn generalizing items with
  | ind k ih =>
    intro last hn
    subst hlength
    refine .branch ?_ fun items' last' _ => commaList_eq hp ⟨items', last'⟩
    refine (houtcome items last hn).bind (Q := Remainder P) (fun front rest first hitems _ => ?_) ?_
      ⟨[], .inl rfl⟩
    · subst hitems
      by_cases hcomma : firstToken? rest = some (.mark ',')
      · obtain ⟨comma, rest, rfl, hl⟩ := cons_of_first hcomma
        have hless : rest.length < (front ++ comma :: rest).length := by
          simp only [List.length_append, List.length_cons]
          omega
        have hmore := ih _ hless rest rfl last (Nat.lt_trans hless hn)
        refine (hmore.map fun as => first :: as).behind (fun rest' last' _ => ?_)
          fun ls hls => .inr ⟨comma, ls, rfl, hl, hls⟩
        rw [atMark_bind, if_pos (token_of_cons hl), Parser.advance_bind]
      · refine (Outcome.pure [first] (.inl rfl)).branch fun items' last' h => ?_
        rw [atMark_bind, if_neg (not_token (h ▸ hcomma))]
    · rintro front more ⟨a, ha⟩ (rfl | ⟨comma, ls, rfl, hcomma, as, has⟩)
      · exact ⟨[a], by rw [List.append_nil]; exact .one ha⟩
      · exact ⟨a :: as, .more ha hcomma has⟩

theorem outcome_closedList (hp : ∀ n, Watched.Tracks n (p : Watched Cursor α) p)
    (houtcome : ∀ items last, items.length < n → Outcome p (Spelt P) items last) (closing : Char)
    (what : Expectation) (hwhat : what ≠ .negatedNumber) (items : List Lexeme) (last : Nat)
    (hn : items.length < n) :
    Outcome (closedList p closing what) (Spelt (Closed P closing)) items last := by
  have hclosing : ∃ more, IsMark closing more := ⟨_, ⟨.mark closing, 0⟩, rfl, rfl⟩
  by_cases hempty : firstToken? items = some (.mark closing)
  · have hmark := (outcome_mark closing what hwhat items last).map fun _ => ([] : List α)
    refine (hmark.mono ?_).branch fun items' last' h => ?_
    · rintro _ ⟨c, rfl, hc⟩
      exact ⟨[], .empty hc⟩
    · rw [← h] at hempty
      rw [closedList, atMark_bind, if_pos (token_of_first hempty)]
      rfl
  · have hlist := (outcome_commaList hp houtcome items last hn).bind
      (fun _ rest as _ _ => (outcome_mark closing what hwhat rest last).map fun _ => as)
      (R := Spelt (Closed P closing)) ?_ hclosing
    · refine hlist.branch fun items' last' h => ?_
      rw [closedList, atMark_bind, if_neg (not_token (h ▸ hempty))]
    · rintro front _ ⟨as, has⟩ ⟨c, rfl, hc⟩
      exact ⟨as, .full has hc⟩

end

section

variable {items rest : List Lexeme} {line last n : Nat}

theorem spelt_expression : Spelt Expression [⟨.word "null", 0⟩] :=
  ⟨.null, expression_of_primary (.null rfl)⟩

theorem primary_of_other {nested : Parser Expr} (h : ∀ t, firstToken? items = some t → ¬ Opens t) :
    primary nested ⟨items, last⟩ = (missing .expression : Parser Expr) ⟨items, last⟩ := by
  rcases items with _ | ⟨⟨t, line⟩, items⟩
  · rfl
  have hopens := h t rfl
  cases t with
  | number | text => exact absurd trivial hopens
  | word w =>
    simp only [Opens, not_or] at hopens
    obtain ⟨htrue, hfalse, hnull, hkeyword⟩ := hopens
    rw [primary_of_word htrue hfalse hnull, if_pos (by simpa using hkeyword)]
  | mark m =>
    simp only [Opens, not_or] at hopens
    exact primary_of_mark hopens.1 hopens.2.1 hopens.2.2

theorem primary_of_minus {nested : Parser Expr} (h : ∀ v, firstToken? rest ≠ some (.number v)) :
    primary nested ⟨⟨.mark '-', line⟩ :: rest, last⟩ =
      (missing .negatedNumber : Parser Expr) ⟨rest.tail, last⟩ := by
  rcases rest with _ | ⟨⟨t, line'⟩, rest⟩
  · rfl
  cases t with
  | number v => exact absurd rfl (h v)
  | word | text | mark => rfl

theorem primary_of_spelling {ls : List Lexeme} {e : Expr} (h : Primary ls e) (rest : List Lexeme)
    (last : Nat) : primary expression ⟨ls ++ rest, last⟩ = .ok (e, ⟨rest, last⟩) :=
  (recognizes_primary (recognizes_expression _)).complete rest last (Nat.le_succ _) h trivial

theorem outcome_minus (line : Nat) (rest : List Lexeme) (last : Nat) :
    Outcome (primary expression) (Spelt Primary) (⟨.mark '-', line⟩ :: rest) last := by
  by_cases hnumber : ∃ v, firstToken? rest = some (.number v)
  · obtain ⟨v, hfirst⟩ := hnumber
    obtain ⟨l, rest, rfl, hl⟩ := cons_of_first hfirst
    have hprimary : Primary [⟨.mark '-', line⟩, l] _ := .negative rfl hl
    exact .accepted [_, l] rest _ rfl ⟨_, hprimary⟩ fun rest' last' _ =>
      primary_of_spelling hprimary rest' last'
  · have hother : ∀ v, firstToken? rest ≠ some (.number v) := fun v h => hnumber ⟨v, h⟩
    refine .refused [_] rest _ rfl ⟨[⟨.number (.ofDecimal 0 0), 0⟩], _, .negative rfl rfl⟩
      (primary_of_minus hother) (.skipped (List.nil_append _).symm rfl ⟨rfl, rfl⟩ rfl)
      fun rest' last' h => ?_
    have hfirst : firstToken? rest' = firstToken? rest := firstToken?_append_congr [] h
    exact ⟨_, primary_of_minus fun v => hfirst ▸ hother v⟩

theorem outcome_primary
    (hnested : ∀ items last, items.length < n → Outcome expression (Spelt Expression) items last)
    (items : List Lexeme) (last : Nat) (hn : items.length ≤ n) :
    Outcome (primary expression) (Spelt Primary) items last := by
  by_cases hopens : ∃ t, firstToken? items = some t ∧ Opens t
  · obtain ⟨t, hfirst, hopens⟩ := hopens
    obtain ⟨⟨t', line⟩, rest, rfl, hl⟩ := cons_of_first hfirst
    obtain rfl : t' = t := hl
    have hrest : rest.length < n := hn
    have hone {e : Expr} (h : Primary [⟨t', line⟩] e) :
        Outcome (primary expression) (Spelt Primary) (⟨t', line⟩ :: rest) last :=
      .one (primary_of_spelling h) ⟨e, h⟩
    cases t' with
    | number v => exact hone (.number rfl)
    | text w => exact hone (.text rfl)
    | word w =>
      rcases hopens with rfl | rfl | rfl | hw
      · exact hone (.bool true rfl)
      · exact hone (.bool false rfl)
      · exact hone (.null rfl)
      · exact hone (.variable ⟨rfl, hw⟩)
    | mark m =>
      rcases hopens with rfl | rfl | rfl
      · exact outcome_minus line rest last
      · have hinner := (hnested rest last hrest).bind
          (fun _ rest e _ _ => (outcome_mark ')' .groupClosing (by decide) rest last).map fun _ => e)
          (R := fun ls => Spelt Primary (⟨.mark '(', line⟩ :: ls)) ?_ ⟨_, ⟨.mark ')', 0⟩, rfl, rfl⟩
        · exact hinner.behind (fun _ _ _ => primary_of_group) fun _ h => h
        · rintro front _ ⟨e, he⟩ ⟨c, rfl, hc⟩
          exact ⟨e, .group rfl he hc⟩
      · have helements := outcome_closedList tracks_expression_self hnested ']' .listClosing
          (by decide) rest last hrest
        refine (helements.map Expr.list).behind (fun _ _ _ => primary_of_list) ?_
        rintro ls ⟨es, hes⟩
        exact ⟨.list es, .list rfl hes⟩
  · refine .branch (.missing .expression ⟨[⟨.word "null", 0⟩], .null, .null rfl⟩ (by decide))
      fun items' last' h => ?_
    exact primary_of_other fun t ht hopen => hopens ⟨t, h ▸ ht, hopen⟩

/-- Method calls, on whatever expression. -/
def Calls (ls : List Lexeme) : Prop := ∀ e, Spelt (Suffixes e) ls

theorem calls_nil : Calls [] := fun e => ⟨e, .nothing e⟩

/-- What may stand behind the point and the name of a method call. -/
def BehindName (ls : List Lexeme) : Prop :=
  ∀ (d n : Lexeme) (w : String), d.token = .mark '.' → n.Names w → Calls (d :: n :: ls)

theorem Calls.behindName {ls : List Lexeme} (h : Calls ls) : BehindName ls := by
  intro d n w hd hn e
  obtain ⟨e', he'⟩ := h (.getter e w)
  exact ⟨e', .getter hd hn he'⟩

theorem behindName_arguments {o : Lexeme} {arguments ls : List Lexeme} (ho : o.token = .mark '(')
    (harguments : Spelt (Closed Expression ')') arguments) (h : Calls ls) :
    BehindName (o :: (arguments ++ ls)) := by
  intro d n w hd hn e
  obtain ⟨es, hes⟩ := harguments
  obtain ⟨e', he'⟩ := h (.call e w es)
  exact ⟨e', .call hd hn ho hes he'⟩

theorem outcome_suffixes
    (hnested : ∀ items last, items.length < n → Outcome expression (Spelt Expression) items last) :
    ∀ (items : List Lexeme) (last : Nat) (receiver : Expr), items.length < n →
      Outcome (suffixes receiver) Calls items last := by
  intro items
  induction hlength : items.length using Nat.strongRecOn generalizing items with
  | ind k ih =>
    intro last receiver hn
    subst hlength
    by_cases hpoint : firstToken? items = some (.mark '.')
    · obtain ⟨d, rest, rfl, hd⟩ := cons_of_first hpoint
      have hcall := (outcome_name .memberName (by decide) rest last).bind
        (f := callBehind receiver) (Q := BehindName) (R := fun ls => Calls (d :: ls))
        (fun front rest' method hitems _ => ?_) ?_ ⟨[], calls_nil.behindName⟩
      · exact hcall.behind (fun _ _ _ => suffixes_of_point receiver hd) fun _ h => h
      · have hless : rest'.length < (d :: rest).length := by
          rw [hitems]
          simp only [List.length_cons, List.length_append]
          omega
        by_cases hopen : firstToken? rest' = some (.mark '(')
        · obtain ⟨o, rest', rfl, ho⟩ := cons_of_first hopen
          have hless := Nat.lt_of_succ_lt hless
          have harguments := (outcome_closedList tracks_expression_self hnested ')' .argumentClosing
            (by decide) rest' last (Nat.lt_trans hless hn)).bind
            (f := fun arguments => suffixes (.call receiver method arguments))
            (Q := Calls) (R := fun ls => BehindName (o :: ls)) (fun front rest'' es hitems _ => ?_)
            (fun _ _ => behindName_arguments ho) ⟨[], calls_nil⟩
          · refine harguments.behind (fun _ _ _ => ?_) fun _ h => h
            rw [callBehind, atMark_bind, if_pos (token_of_cons ho), Parser.advance_bind]
          · have hless : rest''.length < (d :: rest).length := by
              rw [hitems, List.length_append] at hless
              omega
            exact ih _ hless rest'' rfl last _ (Nat.lt_trans hless hn)
        · refine ((ih _ hless rest' rfl last (.getter receiver method) (Nat.lt_trans hless hn)).mono
            fun _ => Calls.behindName).branch fun items' last' h => ?_
          rw [callBehind, atMark_bind, if_neg (not_token (h ▸ hopen))]
      · rintro _ more ⟨w, ⟨hl⟩⟩ hmore
        exact hmore d _ w hd hl
    · refine (Outcome.pure receiver calls_nil).branch fun items' last' h => ?_
      exact suffixes_of_other receiver (h ▸ hpoint)

theorem outcome_expression : ∀ (n : Nat) (items : List Lexeme) (last : Nat), items.length < n →
    Outcome expression (Spelt Expression) items last
  | n + 1, items, last, hn => by
    have hnested := outcome_expression n
    refine .branch ?_ fun items' last' _ => expression_eq ⟨items', last'⟩
    refine (outcome_primary hnested items last (Nat.le_of_lt_succ hn)).bind
      (fun front rest e hitems hfront => ?_) ?_ ⟨[], calls_nil⟩
    · obtain ⟨_, hfront⟩ := hfront
      obtain ⟨l, front, rfl, -⟩ := hfront.opens
      rw [hitems] at hn
      simp only [List.length_append, List.length_cons] at hn
      exact outcome_suffixes hnested rest last e (by omega)
    · rintro front more ⟨e, he⟩ hmore
      obtain ⟨e', he'⟩ := hmore e
      exact ⟨e', .mk he he'⟩

end

section

variable {items rest : List Lexeme} {last : Nat}

theorem outcome_parameters (items : List Lexeme) (last : Nat) :
    Outcome parameters (Spelt Parameters) items last := by
  have hnames (rest : List Lexeme) := outcome_closedList (tracks_name .parameterName)
    (fun items last _ => outcome_name .parameterName (by decide) items last) ')' .parameterClosing
    (by decide) rest last (Nat.lt_succ_self _)
  have hclosing : Spelt (Closed Name ')') [⟨.mark ')', 0⟩] := ⟨[], .empty rfl⟩
  refine (outcome_mark '(' .parameterOpening (by decide) items last).bind
    (fun _ rest _ _ _ => (hnames rest).map List.length) ?_ ⟨_, hclosing⟩
  rintro _ more ⟨o, rfl, ho⟩ ⟨names, hmore⟩
  exact ⟨names.length, .mk ho hmore⟩

theorem spelt_parameters : Spelt Parameters [⟨.mark '(', 0⟩, ⟨.mark ')', 0⟩] :=
  ⟨0, .mk rfl (.empty rfl)⟩

/-- A body in balanced braces. -/
def Block (ls : List Lexeme) : Prop :=
  ∃ o inner c, ls = o :: (inner ++ [c]) ∧ o.token = .mark '\x7b' ∧ Balanced inner ∧
    c.token = .mark '\x7d'

theorem block_of_closes {o : Lexeme} {ls : List Lexeme} (ho : o.token = .mark '\x7b')
    (h : Closes 1 ls) : Block (o :: ls) := by
  obtain _ | @⟨_, inner, _, c, hinner, hc, hnone⟩ := h
  cases hnone
  exact ⟨o, inner, c, rfl, ho, hinner, hc⟩

theorem block_braces : Block [⟨.mark '\x7b', 0⟩, ⟨.mark '\x7d', 0⟩] :=
  ⟨_, [], _, rfl, rfl, .nothing, rfl⟩

/-- Braces that are not closed can be closed. -/
theorem afterBody?_append_braces : ∀ {depth : Nat} {items : List Lexeme},
    afterBody? depth items = none →
    ∃ n, afterBody? depth (items ++ List.replicate n ⟨.mark '\x7d', 0⟩) = some []
  | 0, items, h => by
    rw [afterBody?] at h
    cases h
  | depth + 1, [], _ => by
    refine ⟨depth + 1, ?_⟩
    rw [List.nil_append]
    induction depth + 1 with
    | zero => rfl
    | succ depth ih => rwa [List.replicate_succ, afterBody?, if_neg (by simp), if_pos (by simp)]
  | depth + 1, l :: items, h => by
    simp only [List.cons_append, afterBody?] at h ⊢
    by_cases hopen : (l.token == .mark '\x7b') = true
    · rw [if_pos hopen] at h
      simpa only [if_pos hopen] using afterBody?_append_braces h
    rw [if_neg hopen] at h
    by_cases hclose : (l.token == .mark '\x7d') = true
    · rw [if_pos hclose] at h
      simpa only [if_neg hopen, if_pos hclose] using afterBody?_append_braces h
    · rw [if_neg hclose] at h
      simpa only [if_neg hopen, if_neg hclose] using afterBody?_append_braces h

theorem body_of_unclosed {o : Lexeme} (ho : o.token = .mark '\x7b') (h : afterBody? 1 rest = none) :
    body ⟨o :: rest, last⟩ = .error ⟨last, endOfFile, .expected .bodyClosing⟩ := by
  rw [body, bind_of_ok (mark_of_token ho), get_bind]
  simp only [h]
  rfl

theorem outcome_body (items : List Lexeme) (last : Nat) : Outcome body Block items last := by
  by_cases hopen : firstToken? items = some (.mark '\x7b')
  · obtain ⟨o, rest, rfl, ho⟩ := cons_of_first hopen
    cases hbody : afterBody? 1 rest with
    | some rest' =>
      obtain ⟨ls, rfl, hls⟩ := afterBody?_sound hbody
      have hblock := block_of_closes ho hls
      refine .accepted (o :: ls) rest' () rfl hblock fun rest'' last' _ => ?_
      obtain ⟨_, inner, c, heq, ho, hinner, hc⟩ := hblock
      cases heq
      simpa using body_of_balanced ho hinner hc
    | none =>
      obtain ⟨n, hclosed⟩ := afterBody?_append_braces hbody
      obtain ⟨ls, heq, hls⟩ := afterBody?_sound hclosed
      rw [List.append_nil] at heq
      refine .refused (o :: rest) [] _ (List.append_nil _).symm
        ⟨_, block_of_closes ho (heq ▸ hls)⟩ (body_of_unclosed ho hbody)
        (.offending ⟨rfl, rfl⟩ (by simp)) fun rest' last' h => ?_
      have hnone : rest' = [] := by
        cases rest' with
        | nil => rfl
        | cons => cases h
      rw [hnone, List.append_nil]
      exact ⟨_, body_of_unclosed ho hbody⟩
  · refine .branch (.missing .bodyOpening ⟨_, block_braces⟩ (by decide)) fun items' last' h => ?_
    refine Parser.bind_of_error ?_ _
    rw [mark, atMark_bind, if_neg (not_token (h ▸ hopen))]
    rfl

/-- The members of a class and the brace that closes it. -/
def ClassRest (ls : List Lexeme) : Prop :=
  ∃ ls' c constructors methods, ls = ls' ++ [c] ∧ c.token = .mark '\x7d' ∧
    Members ls' constructors methods

theorem classRest_brace {c : Lexeme} (hc : c.token = .mark '\x7d') : ClassRest [c] :=
  ⟨[], c, [], [], rfl, hc, .nothing⟩

theorem exists_classRest : ∃ ls, ClassRest ls := ⟨[⟨.mark '\x7d', 0⟩], classRest_brace rfl⟩

theorem classRest_constructor {k : Lexeme} (hk : k.token = .word "construct") {ls : List Lexeme}
    (h : Then (Spelt Name) (Then (Spelt Parameters) (Then Block ClassRest)) ls) :
    ClassRest (k :: ls) := by
  obtain ⟨_, _, rfl, ⟨w, ⟨hn⟩⟩, parameters, _, rfl, ⟨arity, hparameters⟩, _, _, rfl,
    ⟨o, inner, c, rfl, ho, hinner, hc⟩, ls, c', constructors, methods, rfl, hc', hmembers⟩ := h
  exact ⟨_, c', _, _, by simp, hc', .constructor hk hn hparameters ho hinner hc hmembers⟩

theorem classRest_method {f : Lexeme} (hf : f.token = .word "foreign") {modifier ls : List Lexeme}
    {isStatic : Bool} (hmodifier : Modifier modifier isStatic)
    (h : Then (Spelt Name) (Then (Spelt Arity) ClassRest) ls) :
    ClassRest (f :: (modifier ++ ls)) := by
  obtain ⟨_, _, rfl, ⟨w, ⟨hn⟩⟩, parameters, _, rfl, ⟨arity?, hparameters⟩, ls, c, constructors,
    methods, rfl, hc, hmembers⟩ := h
  exact ⟨_, c, _, _, by simp, hc, .method hf hmodifier hn hparameters hmembers⟩

theorem members_of_other {t : Token} (decl : ClassDecl) (h : firstToken? items = some t)
    (hclose : t ≠ .mark '\x7d') (hconstruct : t ≠ .word "construct") (hforeign : t ≠ .word "foreign") :
    members decl ⟨items, last⟩ = (fail .unsupportedMember : Parser ClassDecl) ⟨items, last⟩ := by
  obtain ⟨⟨_, line⟩, rest, rfl, rfl⟩ := cons_of_first h
  exact membersFrom_other hclose hconstruct hforeign

theorem outcome_methodBehind {n : Nat}
    (hmembers : ∀ items last decl, items.length < n → Outcome (members decl) ClassRest items last)
    (items : List Lexeme) (last : Nat) (decl : ClassDecl) (isStatic : Bool) (hn : items.length < n) :
    Outcome (methodBehind decl isStatic) (Then (Spelt Name) (Then (Spelt Arity) ClassRest)) items
      last := by
  refine (outcome_name .methodName (by decide) items last).andThen
    (fun front rest method hitems _ => ?_) (exists_then ⟨[], none, .none⟩ exists_classRest)
  have hless : rest.length ≤ items.length := by rw [hitems]; simp
  by_cases hopen : firstToken? rest = some (.mark '(')
  · refine Outcome.branch (Outcome.mono ((outcome_parameters rest last).andThen
      (fun front' rest' arity hitems' _ => hmembers rest' last
        { decl with methods := decl.methods ++ [⟨isStatic, signature method (some arity)⟩] } ?_)
      exists_classRest) ?_) fun items' last' h => ?_
    · have hless' : rest'.length ≤ rest.length := by rw [hitems']; simp
      omega
    · rintro _ ⟨parameters, more, rfl, ⟨arity, hparameters⟩, hmore⟩
      exact ⟨parameters, more, rfl, ⟨some arity, .some hparameters⟩, hmore⟩
    · rw [atMark_bind, if_pos (token_of_first (h.trans hopen))]
  · refine Outcome.branch (Outcome.mono (hmembers rest last
      { decl with methods := decl.methods ++ [⟨isStatic, signature method none⟩] } (by omega)) ?_)
      fun items' last' h => ?_
    · exact fun ls hls => ⟨[], ls, rfl, ⟨none, .none⟩, hls⟩
    · rw [atMark_bind, if_neg (not_token (h ▸ hopen))]

theorem outcome_members : ∀ (n : Nat) (items : List Lexeme) (last : Nat) (decl : ClassDecl),
    items.length < n → Outcome (members decl) ClassRest items last
  | n + 1, [], last, decl, _ => by
    refine .branch (.missing .classClosing exists_classRest (by decide)) fun items' last' h => ?_
    cases items' with
    | nil => rfl
    | cons => cases h
  | n + 1, ⟨t, line⟩ :: rest, last, decl, hn => by
    have hmembers := outcome_members n
    have hless : rest.length < n := Nat.lt_of_succ_lt_succ hn
    by_cases hclose : t = .mark '\x7d'
    · subst hclose
      exact .one (fun _ _ => rfl) (classRest_brace rfl)
    by_cases hconstruct : t = .word "construct"
    · subst hconstruct
      have hbehind := (outcome_name .constructorName (by decide) rest last).andThen
        (fun _ items₁ constructor hitems₁ _ => (outcome_parameters items₁ last).andThen
          (fun _ items₂ arity hitems₂ _ => (outcome_body items₂ last).andThen
            (fun _ items₃ _ hitems₃ _ => hmembers items₃ last
              { decl with constructors := decl.constructors ++ [methodSignature constructor arity] } ?_)
            exists_classRest) (exists_then ⟨_, block_braces⟩ exists_classRest))
        (exists_then ⟨_, spelt_parameters⟩ (exists_then ⟨_, block_braces⟩ exists_classRest))
      · exact hbehind.behind (fun _ _ _ => members_of_construct decl)
          fun _ => classRest_constructor rfl
      · have hlength := congrArg List.length hitems₁
        rw [hitems₂, hitems₃] at hlength
        simp only [List.length_append] at hlength
        omega
    by_cases hforeign : t = .word "foreign"
    · subst hforeign
      by_cases hstatic : firstToken? rest = some (.word "static")
      · obtain ⟨l, rest, rfl, hl⟩ := cons_of_first hstatic
        obtain ⟨_, line'⟩ := l
        cases hl
        exact (outcome_methodBehind hmembers rest last decl true (Nat.lt_of_succ_lt hless)).behindAll
          [_, _] (fun _ _ _ => members_of_foreign_static decl)
          fun _ => classRest_method rfl (.static rfl)
      · exact (outcome_methodBehind hmembers rest last decl false hless).behind
          (fun rest' last' h => members_of_foreign decl (h ▸ hstatic))
          fun _ => classRest_method rfl .none
    · refine .branch (.fail .unsupportedMember exists_classRest (by decide)) fun items' last' h => ?_
      exact members_of_other decl h hclose hconstruct hforeign

end

/-! ## Statements -/

section

variable {items rest : List Lexeme} {l : Lexeme} {t : Token} {line last : Nat}

theorem outcome_classDecl (isForeign : Bool) (hl : l.token = .word "class") (rest : List Lexeme)
    (last : Nat) :
    Outcome (classDecl isForeign) (Spelt (ClassSpelling isForeign)) (l :: rest) last := by
  have hbehind := (outcome_name .className (by decide) rest last).andThen
    (fun _ items w _ _ => (outcome_mark '\x7b' .classOpening (by decide) items last).andThen
      (fun _ items _ _ _ =>
        outcome_members _ items last ⟨w, isForeign, [], []⟩ (Nat.lt_succ_self _)) exists_classRest)
    (exists_then ⟨_, ⟨.mark '\x7b', 0⟩, rfl, rfl⟩ exists_classRest)
  refine hbehind.behind (fun _ _ _ => rfl) ?_
  rintro _ ⟨_, _, rfl, ⟨w, ⟨hn⟩⟩, _, _, rfl, ⟨o, rfl, ho⟩, ls, c, constructors, methods, rfl, hc,
    hmembers⟩
  exact ⟨_, .mk hl hn ho hmembers hc⟩

theorem spelt_class (isForeign : Bool) : Spelt (ClassSpelling isForeign)
    [⟨.word "class", 0⟩, ⟨.word "C", 0⟩, ⟨.mark '\x7b', 0⟩, ⟨.mark '\x7d', 0⟩] :=
  ⟨_, .mk (w := "C") rfl ⟨rfl, by decide⟩ rfl .nothing rfl⟩

/-- What stands behind the word `import`. -/
def importBehind : Parser Action := do
  match ← peek with
  | some (.text source) =>
    advance
    if ← atWord "for" then
      advance
      return .importModule source (← commaList (name .variableName))
    else return .importModule source []
  | _ => missing .importSource

theorem importBehind_of_text (source : String) :
    importBehind ⟨⟨.text source, line⟩ :: rest, last⟩ =
      (atWord "for" >>= fun more =>
        if more then advance >>= fun _ => commaList (name .variableName) >>= fun names =>
          pure (.importModule source names)
        else pure (.importModule source [])) ⟨rest, last⟩ := rfl

theorem importBehind_of_other (h : ∀ source, firstToken? rest ≠ some (.text source)) :
    importBehind ⟨rest, last⟩ = (missing .importSource : Parser Action) ⟨rest, last⟩ := by
  rcases rest with _ | ⟨⟨t, line⟩, rest⟩
  · rfl
  cases t with
  | text source => exact absurd rfl (h source)
  | word | number | mark => rfl

theorem outcome_import (line : Nat) (rest : List Lexeme) (last : Nat) :
    Outcome action (Spelt Does) (⟨.word "import", line⟩ :: rest) last := by
  suffices hbehind : Outcome importBehind (fun ls => Spelt Does (⟨.word "import", line⟩ :: ls)) rest
      last from hbehind.behind (fun _ _ _ => rfl) fun _ h => h
  by_cases htext : ∃ source, firstToken? rest = some (.text source)
  · obtain ⟨source, hfirst⟩ := htext
    obtain ⟨⟨_, line'⟩, rest, rfl, rfl⟩ := cons_of_first hfirst
    by_cases hfor : firstToken? rest = some (.word "for")
    · obtain ⟨f, rest, rfl, hf⟩ := cons_of_first hfor
      have hnames := outcome_commaList (tracks_name .variableName)
        (fun items last _ => outcome_name .variableName (by decide) items last) rest last
        (Nat.lt_succ_self _)
      refine (hnames.map (Action.importModule source)).behindAll [_, f] (fun rest' last' _ => ?_) ?_
      · rw [List.cons_append, List.singleton_append, importBehind_of_text, atWord_bind,
          if_pos (token_of_cons hf), Parser.advance_bind]
      · rintro ls ⟨names, hls⟩
        exact ⟨_, .importNames rfl rfl hf hls⟩
    · refine (Outcome.pure (P := (· = [])) (Action.importModule source []) rfl).behind
        (fun rest' last' h => ?_) ?_
      · rw [importBehind_of_text, atWord_bind, if_neg (not_token (h ▸ hfor))]
      · rintro _ rfl
        exact ⟨_, .importModule rfl rfl⟩
  · refine .branch (.missing .importSource ⟨[⟨.text "", 0⟩], _, .importModule rfl rfl⟩ (by decide))
      fun items' last' h => importBehind_of_other fun source hsource => htext ⟨source, h ▸ hsource⟩

theorem outcome_var (line : Nat) (rest : List Lexeme) (last : Nat) :
    Outcome action (Spelt Does) (⟨.word "var", line⟩ :: rest) last := by
  have hbehind := (outcome_name .variableName (by decide) rest last).bind
    (f := fun target => atMark '=' >>= fun more =>
      if more then advance >>= fun _ => expression >>= fun e => pure (Action.define target e)
      else pure (Action.define target .null))
    (Q := fun ls => ls = [] ∨ Then (IsMark '=') (Spelt Expression) ls)
    (R := fun ls => Spelt Does (⟨.word "var", line⟩ :: ls))
    (fun _ rest target _ _ => ?_) ?_ ⟨[], .inl rfl⟩
  · exact hbehind.behind (fun _ _ _ => action_of_var) fun _ h => h
  · by_cases hvalue : firstToken? rest = some (.mark '=')
    · obtain ⟨q, rest, rfl, hq⟩ := cons_of_first hvalue
      refine ((outcome_expression _ rest last (Nat.lt_succ_self _)).map (Action.define target)).behind
        (fun rest' last' _ => ?_) fun ls hls => .inr ⟨[q], ls, rfl, ⟨q, rfl, hq⟩, hls⟩
      rw [atMark_bind, if_pos (token_of_cons hq), Parser.advance_bind]
    · refine (Outcome.pure (Action.define target .null) (.inl rfl)).branch fun items' last' h => ?_
      rw [atMark_bind, if_neg (not_token (h ▸ hvalue))]
  · rintro _ _ ⟨w, ⟨hn⟩⟩ (rfl | ⟨_, ls, rfl, ⟨q, rfl, hq⟩, e, he⟩)
    · exact ⟨_, .introduce rfl hn⟩
    · exact ⟨_, .define rfl hn hq he⟩

theorem expression_of_other (h : ∀ t, firstToken? items = some t → ¬ Opens t) :
    expression ⟨items, last⟩ = (missing .expression : Parser Expr) ⟨items, last⟩ :=
  (expression_eq _).trans (Parser.bind_of_error (primary_of_other h) _)

/-- Where no expression begins, nor anything else, an expression is missing. -/
theorem action_of_other (hopens : ¬ Opens t) (himport : t ≠ .word "import") (hvar : t ≠ .word "var")
    (hclass : t ≠ .word "class")
    (hforeign : ¬ (t = .word "foreign" ∧ firstToken? rest = some (.word "class"))) :
    action ⟨⟨t, line⟩ :: rest, last⟩ =
      (missing .expression : Parser Action) ⟨⟨t, line⟩ :: rest, last⟩ := by
  rw [action_of_expression himport hvar hclass hforeign]
  · refine Parser.bind_of_error (expression_of_other fun t' ht' => ?_) _
    cases ht'
    exact hopens
  · rintro w rfl hkeyword
    exact absurd (.inr (.inr (.inr hkeyword))) hopens

theorem outcome_foreign (line : Nat) (rest : List Lexeme) (last : Nat) :
    Outcome action (Spelt Does) (⟨.word "foreign", line⟩ :: rest) last := by
  have hdoes : ∀ ls, Spelt (ClassSpelling true) ls → Spelt Does (⟨.word "foreign", line⟩ :: ls) := by
    rintro ls ⟨decl, hdecl⟩
    exact ⟨_, .declareForeign rfl hdecl⟩
  by_cases hclass : firstToken? rest = some (.word "class")
  · obtain ⟨⟨_, line'⟩, rest, rfl, rfl⟩ := cons_of_first hclass
    refine ((outcome_classDecl true rfl rest last).map Action.declare).behind (fun rest' last' h => ?_)
      hdoes
    obtain ⟨⟨_, line'⟩, rest', rfl, rfl⟩ := cons_of_first (h.trans hclass)
    exact action_of_foreign_class
  · have hother (rest' : List Lexeme) (last' : Nat) (h : rest'.head? = rest.head?) :
        action ⟨⟨.word "foreign", line⟩ :: rest', last'⟩ =
          (missing .expression : Parser Action) ⟨⟨.word "foreign", line⟩ :: rest', last'⟩ := by
      have hfirst : firstToken? rest' = firstToken? rest := firstToken?_append_congr [] h
      exact action_of_other (by unfold Opens; decide) (by decide) (by decide) (by decide)
        fun h' => hclass (hfirst ▸ h'.2)
    exact .refused [_] rest _ rfl ⟨_, hdoes _ (spelt_class true)⟩ (hother rest last rfl)
      (.introducing (List.nil_append _).symm rfl ⟨rfl, rfl⟩ (by simp))
      fun rest' last' h => ⟨_, hother rest' last' h⟩

/-- Each token with which an expression may begin begins one. -/
theorem exists_expression (h : Opens l.token) : ∃ ls, Spelt Expression (l :: ls) := by
  obtain ⟨t, line⟩ := l
  cases t with
  | number v => exact ⟨[], _, expression_of_primary (.number rfl)⟩
  | text w => exact ⟨[], _, expression_of_primary (.text rfl)⟩
  | word w =>
    rcases h with rfl | rfl | rfl | hw
    · exact ⟨[], _, expression_of_primary (.bool true rfl)⟩
    · exact ⟨[], _, expression_of_primary (.bool false rfl)⟩
    · exact ⟨[], _, expression_of_primary (.null rfl)⟩
    · exact ⟨[], _, expression_of_primary (.variable ⟨rfl, hw⟩)⟩
  | mark m =>
    rcases h with rfl | rfl | rfl
    · exact ⟨[⟨.number (.ofDecimal 0 0), 0⟩], _, expression_of_primary (.negative rfl rfl)⟩
    · obtain ⟨e, he⟩ := spelt_expression
      exact ⟨_ ++ [⟨.mark ')', 0⟩], e, expression_of_primary (.group rfl he rfl)⟩
    · exact ⟨[⟨.mark ']', 0⟩], _, expression_of_primary (.list rfl (.empty rfl))⟩

theorem ends_nil (ls : List Lexeme) : Ends ls [] :=
  ⟨by simp [firstToken?], fun _ => by simp [firstToken?]⟩

theorem outcome_action (l : Lexeme) (rest : List Lexeme) (last : Nat) :
    Outcome action (Spelt Does) (l :: rest) last := by
  obtain ⟨t, line⟩ := l
  by_cases himport : t = .word "import"
  · rw [himport]
    exact outcome_import line rest last
  by_cases hvar : t = .word "var"
  · rw [hvar]
    exact outcome_var line rest last
  by_cases hclass : t = .word "class"
  · subst hclass
    refine (((outcome_classDecl false rfl rest last).map Action.declare).mono ?_).ofHead
      fun items' last' h => ?_
    · rintro ls ⟨decl, hdecl⟩
      exact ⟨_, .declare hdecl⟩
    · cases items' with
      | nil => cases h
      | cons l items' =>
        cases h
        exact action_of_class
  by_cases hforeign : t = .word "foreign"
  · rw [hforeign]
    exact outcome_foreign line rest last
  by_cases hopens : Opens t
  · by_cases hassign : ∃ w, t = .word w ∧ isKeyword w = false ∧ firstToken? rest = some (.mark '=')
    · obtain ⟨w, rfl, hw, hfirst⟩ := hassign
      obtain ⟨⟨_, line'⟩, rest, rfl, rfl⟩ := cons_of_first hfirst
      refine ((outcome_expression _ rest last (Nat.lt_succ_self _)).map (Action.assign w)).behindAll
        [_, _] (fun _ _ _ => action_of_assignment hw) ?_
      rintro ls ⟨e, he⟩
      exact ⟨_, .assign ⟨rfl, hw⟩ rfl he⟩
    · obtain ⟨ls, e, hls⟩ := exists_expression (l := ⟨t, line⟩) hopens
      have hvalue := (recognizes_expression _).complete [] last (Nat.le_refl _) hls (ends_nil _)
      have hok : (expression >>= fun e => Pure.pure (Action.evaluate e)) ⟨⟨t, line⟩ :: (ls ++ []), last⟩ =
          .ok (.evaluate e, ⟨[], last⟩) := bind_of_ok hvalue _
      have hread := outcome_expression _ (⟨t, line⟩ :: rest) last (Nat.lt_succ_self _)
      refine ((hread.map Action.evaluate).ofTwo ?_ ⟨_, _, _, hok⟩ fun rest' last' h => ?_).mono ?_
      · rintro ⟨e, he⟩
        exact he.ne_nil rfl
      · exact action_of_expression himport hvar hclass (fun h' => hforeign h'.1)
          fun w hw hkeyword hfirst => hassign ⟨w, hw, hkeyword, h ▸ hfirst⟩
      · rintro ls ⟨e, he⟩
        exact ⟨_, .evaluate he⟩
  · have hvariable : Does [⟨.word "var", 0⟩, ⟨.word "x", 0⟩] (.define "x" .null) :=
      .introduce rfl ⟨rfl, by decide⟩
    refine .branch (.missing .expression ⟨_, _, hvariable⟩ (by decide)) fun items' last' h => ?_
    obtain ⟨⟨_, line'⟩, rest', rfl, rfl⟩ := cons_of_first h
    exact action_of_other hopens himport hvar hclass fun h' => hforeign h'.1

/-- **A program is accepted, or refused at the first lexeme with which no program goes on.** -/
theorem outcome_program : ∀ (n : Nat) (items : List Lexeme) (last : Nat), items.length < n →
    Outcome program (Spelt Spells) items last
  | n + 1, [], last, _ => by
    refine (Outcome.pure ([] : List Statement) ⟨[], .nothing⟩).ofHead fun items' last' h => ?_
    cases items' with
    | nil => rfl
    | cons => cases h
  | n + 1, l :: rest, last, hn => by
    have hmore := (outcome_action l rest last).bind
      (fun front rest' a hitems hfront => (outcome_program n rest' last ?_).map
        fun ss => (⟨a, l.line⟩ : Statement) :: ss) (R := Spelt Spells) ?_ ⟨[], [], .nothing⟩
    · refine hmore.ofHead fun items' last' h => ?_
      cases items' with
      | nil => cases h
      | cons l items' =>
        cases h
        exact program_of_cons
    · obtain ⟨a, hfront⟩ := hfront
      obtain ⟨l', ls, rfl, -⟩ := hfront.begins
      have hlength := congrArg List.length hitems
      simp only [List.length_cons, List.length_append] at hlength hn
      omega
    · rintro front more ⟨a, hfront⟩ ⟨ss, hss⟩
      obtain ⟨l', ls, rfl, -⟩ := hfront.begins
      exact ⟨_, .statement (.mk hfront) trivial hss⟩

end

end Parser

end ScriptHost.Script
