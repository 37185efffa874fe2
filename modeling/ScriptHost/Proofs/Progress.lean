import ScriptHost.Proofs.Parsing
import ScriptHost.Proofs.Turns

/-!
# The parser comes to an end

The functions of the parser are written out with their loops, and watched (`ScriptHost.Proofs.Turns`):
a run is stopped if a turn asks for another one without having read a lexeme, or if an expression
descends to a nested one before it has read a lexeme of its own.  At the end of the lexemes the parser
can stand still, since `Parser.advance` stays there.  What keeps it from turning round there is that
each turn either fails or reads something that the grammar has not empty (`Grammar.Expression.ne_nil`
and the like), or that it looks for the end itself.

A watched function does as the function of the parser does (`Watched.Follows`); a turn of a loop ends
in a result or with less to be read (`Watched.Ends`).  The loops of the parser are counted down from
what is left, and the count does not matter as long as it is not less than that.  So the relations
between a loop and its result (`Watched.Listing` and those below it) leave the count open.
-/

namespace ScriptHost.Script

open ScriptHost.Script.Parser Grammar

instance : Remaining Cursor := ⟨fun c => c.rest.length⟩

@[simp]
theorem left_cursor (c : Cursor) : Remaining.left c = c.rest.length := rfl

namespace Watched

variable {α : Type} (fuel : Nat)

/-! ## The parser under watch -/

/-- Reads an element of a list, and the comma behind it if there is one. -/
def elementTurn (p : Watched Cursor α) (items : List α) :
    Watched Cursor (Turn (List α) (List α)) := do
  let item ← p
  if ← atMark ',' then
    advance
    return .again (items ++ [item])
  else return .done (items ++ [item])

/-- Reads a possibly empty list up to the mark `closing`, and that mark. -/
def closedList (p : Watched Cursor α) (closing : Char) (what : Expectation) :
    Watched Cursor (List α) := do
  let items ← if ← atMark closing then pure [] else loop (elementTurn p) fuel []
  mark closing what
  return items

/-- Reads a primary expression.  One that no other is nested in has no loop in it. -/
def primary (nested : Watched Cursor Expr) : Watched Cursor Expr := do
  let token ← Parser.peek
  if token == some (.mark '(') then
    advance
    let inner ← nested
    mark ')' .groupClosing
    return inner
  else if token == some (.mark '[') then
    advance
    return .list (← closedList fuel nested ']' .listClosing)
  else Parser.primary (missing .expression)

/-- Reads a method call behind `receiver`, if there is one. -/
def suffixTurn (nested : Watched Cursor Expr) (receiver : Expr) :
    Watched Cursor (Turn Expr Expr) := do
  if ← atMark '.' then
    advance
    let method ← name .memberName
    if ← atMark '(' then
      advance
      return .again (.call receiver method (← closedList fuel nested ')' .argumentClosing))
    else return .again (.getter receiver method)
  else return .done receiver

/-- Reads an expression.  Whoever descends to a nested one has read something of this one. -/
def expression : Nat → Watched Cursor Expr
  | 0 => stop
  | fuel + 1 => do
    let before ← left
    let nested := onward before (expression fuel)
    let first ← primary (fuel + 1) nested
    loop (suffixTurn (fuel + 1) nested) (fuel + 1) first

/-- Reads a parameter list and returns the number of its names. -/
def parameters : Watched Cursor Nat := do
  mark '(' .parameterOpening
  return (← closedList fuel (name .parameterName : Parser String) ')' .parameterClosing).length

/-- Skips a token of a body in which `depth` braces are open. -/
def bodyTurn (depth : Nat) : Watched Cursor (Turn Nat Unit) := do
  if depth = 0 then return .done ()
  else
    let token ← Parser.peek
    advance
    match token with
    | some t =>
      if t == .mark '\x7b' then return .again (depth + 1)
      else if t == .mark '\x7d' then return .again (depth - 1)
      else return .again depth
    | none => missing .bodyClosing

/-- Skips a body in balanced braces. -/
def body : Watched Cursor Unit := do
  mark '\x7b' .bodyOpening
  loop bodyTurn fuel 1

/-- Reads a foreign method behind the words that announce it. -/
def foreignMethod (decl : ClassDecl) (isStatic : Bool) : Watched Cursor (Turn ClassDecl ClassDecl) := do
  let method ← name .methodName
  let arity? ← if ← atMark '(' then some <$> parameters fuel else pure none
  return .again { decl with methods := decl.methods ++ [⟨isStatic, signature method arity?⟩] }

/-- Reads a member of a class behind those of `decl`, or the brace that closes the class. -/
def memberTurn (decl : ClassDecl) : Watched Cursor (Turn ClassDecl ClassDecl) := do
  match ← Parser.peek with
  | some (.mark '\x7d') =>
    advance
    return .done decl
  | none => missing .classClosing
  | some (.word "construct") =>
    advance
    let constructor ← name .constructorName
    let arity ← parameters fuel
    body fuel
    return .again
      { decl with constructors := decl.constructors ++ [methodSignature constructor arity] }
  | some (.word "foreign") =>
    advance
    if ← atWord "static" then
      advance
      foreignMethod fuel decl true
    else foreignMethod fuel decl false
  | _ => Parser.fail .unsupportedMember

/-- Reads a class declaration from the word `class` on. -/
def classDecl (isForeign : Bool) : Watched Cursor ClassDecl := do
  advance
  let className ← name .className
  mark '\x7b' .classOpening
  loop (memberTurn fuel) fuel ⟨className, isForeign, [], []⟩

/-- Reads what a statement does. -/
def action : Watched Cursor Action := do
  if ← atWord "import" then
    advance
    match ← Parser.peek with
    | some (.text source) =>
      advance
      if ← atWord "for" then
        advance
        return .importModule source
          (← loop (elementTurn (name .variableName : Parser String)) fuel [])
      else return .importModule source []
    | _ => missing .importSource
  else if ← atWord "var" then
    advance
    let target ← name .variableName
    if ← atMark '=' then
      advance
      return .define target (← expression fuel)
    else return .define target .null
  else if ← atWord "class" then
    return .declare (← classDecl fuel false)
  else
    let c ← get
    match c.token?, c.second? with
    | some (.word "foreign"), some (.word "class") =>
      advance
      return .declare (← classDecl fuel true)
    | some (.word w), some (.mark '=') =>
      if isKeyword w then return .evaluate (← expression fuel)
      else
        advance
        advance
        return .assign w (← expression fuel)
    | _, _ => return .evaluate (← expression fuel)

/-- Reads a statement, unless the program is at its end. -/
def statementTurn (ss : List Statement) :
    Watched Cursor (Turn (List Statement) (List Statement)) := do
  match ← Parser.peek with
  | none => return .done ss
  | some _ =>
    let line := (← get).line
    return .again (ss ++ [⟨← action fuel, line⟩])

/-- The statements that the lexemes of a module spell, if no loop is stopped. -/
def statements (ls : Lexemes) : Option (Except CompileError (List Statement)) :=
  ((loop (statementTurn fuel) fuel []).run ⟨ls.items, ls.lastLine⟩).run.map (Except.map Prod.fst)

/-! ## Its loops are not stopped -/

section

variable {fuel n : Nat} {β : Type}

/-- At `c`, `x` is not stopped, and does as `p` does. -/
def Follows (x : Watched Cursor α) (p : Parser α) (c : Cursor) : Prop := x c = some (p c)

theorem Follows.bind {x : Watched Cursor α} {p : Parser α} {f : α → Watched Cursor β}
    {g : α → Parser β} {c : Cursor} (hx : Follows x p c)
    (hf : ∀ a c', p c = .ok (a, c') → Follows (f a) (g a) c') : Follows (x >>= f) (p >>= g) c := by
  unfold Follows at hx
  cases hp : p c with
  | error e =>
    rw [hp] at hx
    rw [Follows, bind_of_error hx, Parser.bind_of_error hp]
  | ok r =>
    rw [hp] at hx
    rw [Follows, bind_of_ok hx, Parser.bind_of_ok hp]
    exact hf _ _ hp

/-- What the parser does without loops is done as it is. -/
theorem Follows.lift {p : Parser α} {f : α → Watched Cursor β} {g : α → Parser β} {c c' : Cursor}
    {a : α} (hp : p c = .ok (a, c')) (h : Follows (f a) (g a) c') :
    Follows (liftM p >>= f) (p >>= g) c := by
  refine .bind rfl fun a' c'' hp' => ?_
  cases hp.symm.trans hp'
  exact h

/-- What follows behind the next lexeme. -/
theorem Follows.behind {f : Unit → Watched Cursor β} {p p' : Parser β} {l : Lexeme}
    {rest : List Lexeme} {last : Nat} (hp : p ⟨l :: rest, last⟩ = p' ⟨rest, last⟩)
    (h : Follows (f ()) p' ⟨rest, last⟩) :
    Follows (liftM (Parser.advance : Parser Unit) >>= f) p ⟨l :: rest, last⟩ := by
  rw [Follows, hp]
  exact h

theorem Follows.congr {x x' : Watched Cursor α} {p p' : Parser α} {c : Cursor}
    (h : Follows x' p' c) (hx : x = x') (hp : p = p') : Follows x p c := by
  rw [hx, hp]
  exact h

theorem Follows.peek {f : Option Token → Watched Cursor β} {p : Parser β} {c : Cursor}
    (h : Follows (f c.token?) p c) : Follows (liftM Parser.peek >>= f) p c := h

theorem Follows.left {f : Nat → Watched Cursor β} {p : Parser β} {c : Cursor}
    (h : Follows (f c.rest.length) p c) : Follows (Watched.left >>= f) p c := h

/-- A turn may begin with what is not stopped. -/
theorem Ends.bind {γ δ : Type} {R : β → Cursor → Except CompileError (γ × Cursor) → Prop}
    {before : Nat} {x : Watched Cursor δ} {p : Parser δ} {f : δ → Watched Cursor (Turn β γ)}
    {g : δ → Parser γ} {c : Cursor} (hx : Follows x p c)
    (hf : ∀ a c', p c = .ok (a, c') → Ends R before (f a c') (g a c')) :
    Ends R before ((x >>= f) c) ((p >>= g) c) := by
  unfold Follows at hx
  cases hp : p c with
  | error e =>
    rw [hp] at hx
    exact .failed (bind_of_error hx _) (Parser.bind_of_error hp _)
  | ok r =>
    rw [hp] at hx
    rw [bind_of_ok hx, Parser.bind_of_ok hp]
    exact hf _ _ hp

theorem advance_bind (f : Unit → Watched Cursor β) (l : Lexeme) (rest : List Lexeme) (last : Nat) :
    (liftM (advance : Parser Unit) >>= f) ⟨l :: rest, last⟩ = f () ⟨rest, last⟩ := rfl

theorem peek_bind (f : Option Token → Watched Cursor β) (c : Cursor) :
    (liftM Parser.peek >>= f) c = f c.token? c := rfl

theorem atMark_bind (m : Char) (f : Bool → Watched Cursor β) (c : Cursor) :
    (liftM (atMark m) >>= f) c = f (c.token? == some (.mark m)) c := rfl

theorem Ends.lift {γ δ : Type} {R : β → Cursor → Except CompileError (γ × Cursor) → Prop}
    {before : Nat} {p : Parser δ} {f : δ → Watched Cursor (Turn β γ)} {g : δ → Parser γ}
    {c c' : Cursor} {a : δ} (hp : p c = .ok (a, c')) (h : Ends R before (f a c') (g a c')) :
    Ends R before ((liftM p >>= f : Watched Cursor (Turn β γ)) c) ((p >>= g) c) := by
  refine .bind rfl fun a' c'' hp' => ?_
  cases hp.symm.trans hp'
  exact h

/-- What a parser recognizes, it reads. -/
theorem reads_of_recognizes {p : Parser α} {P : List Lexeme → α → Prop}
    {Stops : List Lexeme → List Lexeme → Prop} (hp : Recognizes p n P Stops)
    (hP : ∀ {ls a}, P ls a → ls ≠ []) {c c' : Cursor} {a : α} (hc : c.rest.length ≤ n)
    (h : p c = .ok (a, c')) : c'.rest.length < c.rest.length := by
  obtain ⟨items, last⟩ := c
  obtain ⟨ls, rest, rfl, rfl, hls, -⟩ := hp.sound hc h
  have hpos := List.length_pos_iff.2 (hP hls)
  have hlength : (ls ++ rest).length = ls.length + rest.length := List.length_append
  show rest.length < (ls ++ rest).length
  omega

/-- On less than `n` lexemes `x` is not stopped, and does as `p` does, which reads something. -/
structure Tracks (n : Nat) (x : Watched Cursor α) (p : Parser α) : Prop where
  follows (c : Cursor) (hc : c.rest.length < n) : Follows x p c
  reads (c c' : Cursor) (a : α) (hc : c.rest.length < n) (h : p c = .ok (a, c')) :
    c'.rest.length < c.rest.length

theorem tracks_name (what : Expectation) (n : Nat) :
    Tracks n (name what : Parser String) (name what) where
  follows _ _ := rfl
  reads c c' w _ h := by
    obtain ⟨items, last⟩ := c
    obtain ⟨l, rest, rfl, -, rfl⟩ := name_sound h
    exact Nat.lt_succ_self _

/-- The results that the loop over the elements of a list should have. -/
def Listing (p : Parser α) (n : Nat) (items : List α) (c : Cursor)
    (r : Except CompileError (List α × Cursor)) : Prop :=
  c.rest.length < n ∧ ∃ turns, c.rest.length ≤ turns ∧
    r = (commaListFrom p turns c).map fun as => (items ++ as.1, as.2)

theorem ends_elementTurn {x : Watched Cursor α} {p : Parser α} (hx : Tracks n x p) (items : List α)
    (c : Cursor) (r : Except CompileError (List α × Cursor)) (h : Listing p n items c r) :
    Ends (Listing p n) (Remaining.left c) (elementTurn x items c) r := by
  obtain ⟨hn, turns, hturns, rfl⟩ := h
  have hsame : x c = some (p c) := hx.follows c hn
  cases hp : p c with
  | error e =>
    rw [hp] at hsame
    have hlist : commaListFrom p turns c = .error e := by
      cases turns <;> exact Parser.bind_of_error hp _
    exact .failed (bind_of_error hsame _) (by rw [hlist]; rfl)
  | ok a =>
    obtain ⟨a, rest, last⟩ := a
    rw [hp] at hsame
    have hreads := hx.reads c _ a hn hp
    rcases turns with _ | turns
    · omega
    have hturn : elementTurn x items c =
        (if Cursor.token? ⟨rest, last⟩ == some (.mark ',') then
          (advance : Parser Unit) >>= fun _ => pure (.again (items ++ [a]))
        else pure (.done (items ++ [a])) : Watched Cursor (Turn (List α) (List α))) ⟨rest, last⟩ :=
      bind_of_ok hsame _
    rw [commaListFrom, Parser.bind_of_ok hp, Parser.atMark_bind]
    split at hturn
    next hcomma =>
      obtain ⟨comma, rest, rfl, hl⟩ := cons_of_token hcomma
      have hless : rest.length < c.rest.length := Nat.lt_of_succ_lt hreads
      refine .again (t := ⟨rest, last⟩) hturn hless
        ⟨Nat.lt_trans hless hn, turns, Nat.le_of_lt_succ (Nat.lt_of_lt_of_le hless hturns), ?_⟩
      rw [if_pos hcomma, Parser.advance_bind]
      cases hmore : commaListFrom p turns ⟨rest, last⟩ with
      | error e =>
        rw [Parser.bind_of_error hmore]
        rfl
      | ok as =>
        rw [Parser.bind_of_ok hmore]
        exact congrArg (fun l => Except.ok (l, as.2)) (List.append_cons items a as.1)
    next hcomma =>
      rw [if_neg hcomma]
      exact .done hturn rfl

theorem follows_elements {x : Watched Cursor α} {p : Parser α} (hx : Tracks n x p) {c : Cursor}
    (hn : c.rest.length < n) (hfuel : c.rest.length < fuel) :
    Follows (loop (elementTurn x) fuel []) (commaList p) c := by
  have hloop := loop_eq (ends_elementTurn hx) fuel (b := [])
    ⟨hn, c.rest.length, Nat.le_refl _, rfl⟩ hfuel
  rw [Follows, hloop, commaList, get_bind]
  cases commaListFrom p c.rest.length c <;> rfl

theorem follows_closedList {x : Watched Cursor α} {p : Parser α} (hx : Tracks n x p) (closing : Char)
    (what : Expectation) {c : Cursor} (hn : c.rest.length < n) (hfuel : c.rest.length < fuel) :
    Follows (closedList fuel x closing what) (Parser.closedList p closing what) c := by
  refine .bind rfl fun b c' h => ?_
  cases h
  split
  · exact .bind rfl fun _ _ _ => Follows.bind rfl fun _ _ _ => rfl
  · exact .bind (follows_elements hx hn hfuel) fun _ _ _ => Follows.bind rfl fun _ _ _ => rfl

/-- Where no expression is nested in it, a primary expression is the same whatever reads those. -/
theorem primary_congr {q q' : Parser Expr} {c : Cursor} (hgroup : c.token? ≠ some (.mark '('))
    (hlist : c.token? ≠ some (.mark '[')) : Parser.primary q c = Parser.primary q' c := by
  rw [Parser.primary, Parser.primary, get_bind, get_bind, Parser.peek_bind,
    Parser.peek_bind]
  refine congrFun ?_ c
  split
  case h_4 h => exact absurd h hgroup
  case h_5 h => exact absurd h hlist
  all_goals rfl

theorem follows_primary {x : Watched Cursor Expr} {q : Parser Expr} {c : Cursor}
    (hx : Tracks c.rest.length x q) (hfuel : c.rest.length < fuel) :
    Follows (primary fuel x) (Parser.primary q) c := by
  obtain ⟨items, last⟩ := c
  rw [primary]
  refine .peek ?_
  split
  next hgroup =>
    obtain ⟨⟨_, line⟩, rest, rfl, rfl⟩ := cons_of_token hgroup
    have hinner := hx.follows ⟨rest, last⟩ (Nat.lt_succ_self _)
    exact .behind primary_of_group (.bind hinner fun _ _ _ => .bind rfl fun _ _ _ => rfl)
  next hgroup =>
    split
    next hlist =>
      obtain ⟨⟨_, line⟩, rest, rfl, rfl⟩ := cons_of_token hlist
      have helements := follows_closedList hx ']' .listClosing (c := ⟨rest, last⟩)
        (Nat.lt_succ_self _) (Nat.lt_of_succ_lt hfuel)
      exact .behind primary_of_list (.bind helements fun _ _ _ => rfl)
    next hlist =>
      exact congrArg some (primary_congr (fun h => hgroup (beq_iff_eq.2 h))
        fun h => hlist (beq_iff_eq.2 h))

/-- The results that the loop over the calls behind an expression should have. -/
def Suffixing (q : Parser Expr) (fuel n : Nat) (receiver : Expr) (c : Cursor)
    (r : Except CompileError (Expr × Cursor)) : Prop :=
  c.rest.length < n ∧ c.rest.length < fuel ∧ ∃ turns, c.rest.length ≤ turns ∧
    r = suffixesFrom q turns receiver c

theorem ends_suffixTurn {x : Watched Cursor Expr} {q : Parser Expr} (hx : Tracks n x q)
    (hq : Recognizes q n Expression Parser.Ends) (receiver : Expr) (c : Cursor)
    (r : Except CompileError (Expr × Cursor)) (h : Suffixing q fuel n receiver c r) :
    Ends (Suffixing q fuel n) (Remaining.left c) (suffixTurn fuel x receiver c) r := by
  obtain ⟨items, last⟩ := c
  obtain ⟨hn, hfuel, turns, hturns, rfl⟩ := h
  rcases turns with _ | turns
  · obtain rfl := List.eq_nil_of_length_eq_zero (Nat.le_zero.1 hturns)
    exact .done rfl rfl
  rw [suffixesFrom]
  refine .lift rfl ?_
  split
  next hdot =>
    obtain ⟨d, rest, rfl, -⟩ := cons_of_token hdot
    refine .lift rfl ?_
    refine .bind rfl fun method c' hname => ?_
    obtain ⟨l, rest, rfl, -, rfl⟩ := name_sound hname
    refine .lift rfl ?_
    simp only [List.length_cons] at hn hfuel hturns
    split
    next hopen =>
      obtain ⟨o, rest, rfl, -⟩ := cons_of_token hopen
      simp only [List.length_cons] at hn hfuel hturns
      have hrest : rest.length < n := by omega
      have harguments := follows_closedList hx ')' .argumentClosing (c := ⟨rest, last⟩) hrest
        (show rest.length < fuel by omega)
      refine .lift rfl ?_
      refine .bind harguments fun es c' h => ?_
      have hreads : c'.rest.length < rest.length :=
        reads_of_recognizes (recognizes_elements _ hq (.inl rfl)) Closed.ne_nil (c := ⟨rest, last⟩)
          (Nat.le_of_lt hrest) h
      refine .again rfl ?_ ⟨Nat.lt_trans hreads hrest, by omega, turns, by omega, rfl⟩
      exact Nat.lt_succ_of_lt (Nat.lt_succ_of_lt (Nat.lt_succ_of_lt hreads))
    next hopen =>
      refine .again (t := ⟨rest, last⟩) rfl (Nat.lt_succ_of_lt (Nat.lt_succ_self _))
        ⟨Nat.lt_of_succ_lt (Nat.lt_of_succ_lt hn), Nat.lt_of_succ_lt (Nat.lt_of_succ_lt hfuel), turns,
          Nat.le_of_succ_le (Nat.le_of_succ_le_succ hturns), rfl⟩
  next hdot => exact .done rfl rfl

/-- **An expression is read without a stop**, and as the parser reads it, if the watch does not stop
those nested in it. -/
theorem follows_expression_of_nested {q : Parser Expr} {c : Cursor}
    (hx : Tracks c.rest.length (onward c.rest.length (expression fuel)) q)
    (hq : Recognizes q c.rest.length Expression Parser.Ends) (hfuel : c.rest.length < fuel + 1) :
    Follows (expression (fuel + 1)) (Parser.primary q >>= fun first => get >>= fun c' =>
      suffixesFrom q c'.rest.length first) c := by
  rw [expression]
  refine .left ?_
  refine .bind (follows_primary hx hfuel) fun first c' h => ?_
  have hless : c'.rest.length < c.rest.length :=
    reads_of_recognizes (recognizes_primary hq) Primary.ne_nil (Nat.le_succ _) h
  exact loop_eq (ends_suffixTurn hx hq) (fuel + 1)
    ⟨hless, Nat.lt_trans hless hfuel, _, Nat.le_refl _, rfl⟩ (Nat.lt_trans hless hfuel)

theorem tracks_expression {q : Parser Expr} {before : Nat}
    (hsame : ∀ c : Cursor, c.rest.length < before → Follows (expression fuel) q c)
    (hq : Recognizes q before Expression Parser.Ends) :
    Tracks before (onward before (expression fuel)) q where
  follows c hc := (onward_eq hc).trans (hsame c hc)
  reads _ _ _ hc h := reads_of_recognizes hq Expression.ne_nil (Nat.le_of_lt hc) h

/-- Each nested expression stands behind a lexeme of the one that it is nested in, so as many may be
nested in each other as there are lexemes. -/
theorem follows_expressionWithin : ∀ {fuel depth : Nat} (c : Cursor), c.rest.length < fuel →
    c.rest.length < depth → Follows (expression fuel) (expressionWithin depth) c
  | fuel + 1, depth + 1, c, hfuel, hdepth => by
    have hq : Recognizes (expressionWithin depth) c.rest.length Expression Parser.Ends :=
      (recognizes_expressionWithin depth).mono (Nat.le_of_lt_succ hdepth)
    rw [expressionWithin]
    refine follows_expression_of_nested (tracks_expression (fun c' hc' => ?_) hq) hq hfuel
    exact follows_expressionWithin c' (by omega) (by omega)

theorem follows_expression {c : Cursor} (h : c.rest.length < fuel) :
    Follows (expression fuel) Parser.expression c := by
  rw [Follows, Parser.expression, get_bind]
  exact follows_expressionWithin c h (Nat.lt_succ_self _)

theorem follows_parameters {c : Cursor} (hfuel : c.rest.length < fuel) :
    Follows (parameters fuel) Parser.parameters c := by
  obtain ⟨items, last⟩ := c
  refine .bind rfl fun _ c' h => ?_
  obtain ⟨_, rest, rfl, -, rfl⟩ := mark_sound h
  have hrest : rest.length < fuel := Nat.lt_of_succ_lt hfuel
  exact .bind (follows_closedList (tracks_name _ fuel) ')' .parameterClosing hrest hrest)
    fun _ _ _ => rfl

/-- The result of a body in which `depth` braces are open, as the parser has it. -/
def bodyResult (depth : Nat) (c : Cursor) : Except CompileError (Unit × Cursor) :=
  match afterBody? depth c.rest with
  | some rest => .ok ((), { c with rest := rest })
  | none => .error ⟨c.lastLine, endOfFile, .expected .bodyClosing⟩

theorem bodyTurns_eq (depth : Nat) {c : Cursor} (hfuel : c.rest.length < fuel) :
    loop bodyTurn fuel depth c = some (bodyResult depth c) := by
  refine loop_eq (R := fun depth c r => r = bodyResult depth c) ?_ fuel rfl hfuel
  rintro depth ⟨items, last⟩ _ rfl
  rcases depth with _ | depth
  · exact .done rfl (by rw [bodyResult, afterBody?])
  rcases items with _ | ⟨l, rest⟩
  · exact .failed rfl rfl
  have hturn : bodyTurn (depth + 1) ⟨l :: rest, last⟩ =
      (if l.token == .mark '\x7b' then pure (.again (depth + 2))
        else if l.token == .mark '\x7d' then pure (.again depth)
        else pure (.again (depth + 1)) : Watched Cursor (Turn Nat Unit)) ⟨rest, last⟩ := rfl
  have hless : rest.length < (l :: rest).length := Nat.lt_succ_self _
  by_cases hopen : (l.token == .mark '\x7b') = true
  · rw [if_pos hopen] at hturn
    exact .again hturn hless (by rw [bodyResult, bodyResult, afterBody?, if_pos hopen])
  rw [if_neg hopen] at hturn
  by_cases hclose : (l.token == .mark '\x7d') = true
  · rw [if_pos hclose] at hturn
    exact .again hturn hless (by rw [bodyResult, bodyResult, afterBody?, if_neg hopen, if_pos hclose])
  · rw [if_neg hclose] at hturn
    exact .again hturn hless (by rw [bodyResult, bodyResult, afterBody?, if_neg hopen, if_neg hclose])

theorem follows_body {c : Cursor} (hfuel : c.rest.length < fuel) :
    Follows (body fuel) Parser.body c := by
  obtain ⟨items, last⟩ := c
  refine .bind rfl fun _ c' h => ?_
  obtain ⟨_, rest, rfl, -, rfl⟩ := mark_sound h
  rw [Follows, bodyTurns_eq 1 (Nat.lt_of_succ_lt hfuel), get_bind, bodyResult]
  cases afterBody? 1 rest <;> rfl

/-- The results that the loop over the members of a class should have. -/
def Collecting (fuel : Nat) (decl : ClassDecl) (c : Cursor)
    (r : Except CompileError (ClassDecl × Cursor)) : Prop :=
  c.rest.length < fuel ∧ ∃ turns, c.rest.length < turns ∧ r = membersFrom turns decl c

section Members

variable {line line' last : Nat} {rest : List Lexeme} {decl : ClassDecl}

theorem memberTurn_construct :
    memberTurn fuel decl ⟨⟨.word "construct", line⟩ :: rest, last⟩ =
      ((name .constructorName : Parser String) >>= fun constructor => parameters fuel >>= fun arity =>
        body fuel >>= fun _ => pure (.again { decl with
          constructors := decl.constructors ++ [methodSignature constructor arity] }) :
        Watched Cursor (Turn ClassDecl ClassDecl)) ⟨rest, last⟩ := rfl

theorem memberTurn_foreign_static :
    memberTurn fuel decl ⟨⟨.word "foreign", line⟩ :: ⟨.word "static", line'⟩ :: rest, last⟩ =
      foreignMethod fuel decl true ⟨rest, last⟩ := rfl

theorem memberTurn_foreign (h : firstToken? rest ≠ some (.word "static")) :
    memberTurn fuel decl ⟨⟨.word "foreign", line⟩ :: rest, last⟩ =
      foreignMethod fuel decl false ⟨rest, last⟩ := by
  change (if Cursor.token? ⟨rest, last⟩ == some (.word "static") then _ else _ :
    Watched Cursor (Turn ClassDecl ClassDecl)) ⟨rest, last⟩ = _
  rw [if_neg (not_token h)]

theorem memberTurn_other {t : Token} (hclose : t ≠ .mark '\x7d') (hconstruct : t ≠ .word "construct")
    (hforeign : t ≠ .word "foreign") :
    memberTurn fuel decl ⟨⟨t, line⟩ :: rest, last⟩ =
      (liftM (Parser.fail .unsupportedMember : Parser (Turn ClassDecl ClassDecl)) :
        Watched Cursor (Turn ClassDecl ClassDecl)) ⟨⟨t, line⟩ :: rest, last⟩ := by
  rw [memberTurn, peek_bind]
  refine congrFun ?_ (⟨⟨t, line⟩ :: rest, last⟩ : Cursor)
  split
  case h_1 h => exact absurd (Option.some.inj h) hclose
  case h_2 h => cases h
  case h_3 h => exact absurd (Option.some.inj h) hconstruct
  case h_4 h => exact absurd (Option.some.inj h) hforeign
  case h_5 => rfl

theorem ends_foreignMethod {before turns : Nat} (isStatic : Bool) {c : Cursor}
    (hfuel : c.rest.length < fuel) (hturns : c.rest.length ≤ turns) (hbefore : c.rest.length < before) :
    Ends (Collecting fuel) before (foreignMethod fuel decl isStatic c)
      (methodFrom turns decl isStatic c) := by
  obtain ⟨items, last⟩ := c
  refine .bind rfl fun method c' h => ?_
  obtain ⟨_, rest, rfl, -, rfl⟩ := name_sound h
  simp only [List.length_cons] at hfuel hturns hbefore
  refine .lift rfl ?_
  split
  next =>
    have hparameters : Follows (parameters fuel) Parser.parameters ⟨rest, last⟩ :=
      follows_parameters (Nat.lt_of_succ_lt hfuel)
    refine .bind (p := some <$> Parser.parameters) ?_ fun arity? c' h => ?_
    · rw [map_eq_pure_bind, map_eq_pure_bind]
      exact .bind hparameters fun _ _ _ => rfl
    rw [map_eq_pure_bind] at h
    obtain ⟨arity, c', h, hsome⟩ := ok_of_bind h
    cases hsome
    have hread : c'.rest.length < rest.length :=
      reads_of_recognizes (c := ⟨rest, last⟩) (recognizes_parameters _) Parameters.ne_nil
        (Nat.le_refl _) h
    exact .again rfl (show c'.rest.length < before by omega) ⟨by omega, turns, by omega, rfl⟩
  next =>
    exact .again (t := ⟨rest, last⟩) rfl (Nat.lt_of_succ_lt hbefore)
      ⟨Nat.lt_of_succ_lt hfuel, turns, hturns, rfl⟩

theorem ends_memberTurn (decl : ClassDecl) (c : Cursor)
    (r : Except CompileError (ClassDecl × Cursor)) (h : Collecting fuel decl c r) :
    Ends (Collecting fuel) (Remaining.left c) (memberTurn fuel decl c) r := by
  obtain ⟨items, last⟩ := c
  obtain ⟨hfuel, _ | turns, hturns, rfl⟩ := h
  · exact absurd hturns (Nat.not_lt_zero _)
  rcases items with _ | ⟨⟨t, line⟩, items⟩
  · exact .failed rfl rfl
  simp only [List.length_cons, left_cursor] at hfuel hturns ⊢
  by_cases hclose : t = .mark '\x7d'
  · subst hclose
    exact .done rfl rfl
  by_cases hconstruct : t = .word "construct"
  · subst hconstruct
    rw [memberTurn_construct, membersFrom_construct]
    refine .bind rfl fun constructor c' h => ?_
    obtain ⟨_, items, rfl, -, rfl⟩ := name_sound h
    simp only [List.length_cons] at hfuel hturns
    have hparameters : Follows (parameters fuel) Parser.parameters ⟨items, last⟩ :=
      follows_parameters (show items.length < fuel by omega)
    refine .bind hparameters fun arity c' h => ?_
    have hread : c'.rest.length < items.length :=
      reads_of_recognizes (c := ⟨items, last⟩) (recognizes_parameters _) Parameters.ne_nil
        (Nat.le_refl _) h
    refine .bind (follows_body (by omega)) fun _ c'' h => ?_
    have hskipped : c''.rest.length < c'.rest.length := by
      obtain ⟨o, ls, c, rest, hitems, rfl, -⟩ := body_sound h
      simp only [hitems, List.length_cons, List.length_append]
      omega
    exact .again rfl (show c''.rest.length < items.length + 1 + 1 by omega)
      ⟨by omega, turns, by omega, rfl⟩
  by_cases hforeign : t = .word "foreign"
  · subst hforeign
    by_cases hstatic : firstToken? items = some (.word "static")
    · rcases items with _ | ⟨⟨_, line'⟩, items⟩
      · cases hstatic
      cases hstatic
      simp only [List.length_cons] at hfuel hturns ⊢
      rw [memberTurn_foreign_static, membersFrom_foreign_static]
      have hless : items.length < items.length + 1 + 1 := by omega
      exact ends_foreignMethod true (Nat.lt_trans hless hfuel) (show items.length ≤ turns by omega)
        hless
    · rw [memberTurn_foreign hstatic, membersFrom_foreign hstatic]
      exact ends_foreignMethod false (Nat.lt_of_succ_lt hfuel) (show items.length ≤ turns by omega)
        (Nat.lt_succ_self _)
  · exact .failed (memberTurn_other hclose hconstruct hforeign)
      (membersFrom_other hclose hconstruct hforeign)

end Members

theorem follows_classDecl (isForeign : Bool) {c : Cursor} (hfuel : c.rest.length < fuel) :
    Follows (classDecl fuel isForeign) (Parser.classDecl isForeign) c := by
  obtain ⟨items, last⟩ := c
  refine .lift rfl ?_
  have htail : items.tail.length ≤ items.length := by simp
  refine .bind rfl fun className c' h => ?_
  obtain ⟨_, rest, hitems, -, rfl⟩ := name_sound h
  refine .bind rfl fun _ c' h => ?_
  obtain ⟨_, rest, rfl, -, rfl⟩ := mark_sound h
  simp only [hitems, List.length_cons] at htail hfuel
  have hrest : rest.length < fuel := by omega
  exact loop_eq ends_memberTurn fuel ⟨hrest, rest.length + 1, Nat.lt_succ_self _, rfl⟩ hrest

theorem follows_names {c : Cursor} (hfuel : c.rest.length < fuel) :
    Follows (loop (elementTurn (name .variableName : Parser String)) fuel [])
      (commaList (name .variableName)) c :=
  follows_elements (tracks_name _ fuel) hfuel hfuel

theorem follows_action {c : Cursor} (hfuel : c.rest.length < fuel) :
    Follows (action fuel) Parser.action c := by
  obtain ⟨items, last⟩ := c
  have hbehind {rest : List Lexeme} (hrest : rest.length ≤ items.length) : rest.length < fuel :=
    Nat.lt_of_le_of_lt hrest hfuel
  refine .lift rfl ?_
  split
  next =>
    refine .lift rfl ?_
    have htail : items.tail.length ≤ items.length := by simp
    change Follows _ _ ⟨items.tail, last⟩
    generalize items.tail = items' at htail
    refine .lift rfl ?_
    rcases items' with _ | ⟨⟨t, line⟩, rest⟩
    · rfl
    cases t with
    | text source =>
      refine .lift rfl ?_
      refine .lift rfl ?_
      split
      next =>
        refine .lift rfl ?_
        exact .bind (follows_names (hbehind (by simp at htail ⊢; omega))) fun _ _ _ => rfl
      next => rfl
    | word | number | mark => rfl
  refine .lift rfl ?_
  split
  next =>
    refine .lift rfl ?_
    refine .bind rfl fun target c' h => ?_
    obtain ⟨_, rest, hitems, -, rfl⟩ := name_sound h
    have hrest : rest.length < items.tail.length := by simp [hitems]
    refine .lift rfl ?_
    split
    next =>
      refine .lift rfl ?_
      exact .bind (follows_expression (hbehind (by simp at hrest ⊢; omega))) fun _ _ _ => rfl
    next => rfl
  refine .lift rfl ?_
  split
  next => exact .bind (follows_classDecl false hfuel) fun _ _ _ => rfl
  refine .lift rfl ?_
  by_cases hdeclares : Cursor.token? ⟨items, last⟩ = some (.word "foreign") ∧
      Cursor.second? ⟨items, last⟩ = some (.word "class")
  · obtain ⟨hfirst, hsecond⟩ := hdeclares
    simp only [hfirst, hsecond]
    refine .lift rfl ?_
    exact .bind (follows_classDecl true (hbehind (by simp))) fun _ _ _ => rfl
  by_cases hassigns : ∃ w, Cursor.token? ⟨items, last⟩ = some (.word w) ∧
      Cursor.second? ⟨items, last⟩ = some (.mark '=')
  · obtain ⟨w, hfirst, hsecond⟩ := hassigns
    simp only [hfirst, hsecond]
    split
    next => exact .bind (follows_expression hfuel) fun _ _ _ => rfl
    next =>
      refine .lift rfl ?_
      refine .lift rfl ?_
      exact .bind (follows_expression (hbehind (by simp; omega))) fun _ _ _ => rfl
  · have halone : Follows (expression fuel >>= fun e => pure (Action.evaluate e))
        (Parser.expression >>= fun e => pure (Action.evaluate e)) ⟨items, last⟩ :=
      .bind (follows_expression hfuel) fun _ _ _ => rfl
    refine halone.congr ?_ ?_
    all_goals
      split
      next hfirst hsecond => exact absurd ⟨hfirst, hsecond⟩ hdeclares
      next w hfirst hsecond => exact absurd ⟨w, hfirst, hsecond⟩ hassigns
      next => rfl

/-- The results that the loop over the statements of a program should have. -/
def Stating (fuel : Nat) (ss : List Statement) (c : Cursor)
    (r : Except CompileError (List Statement × Cursor)) : Prop :=
  c.rest.length < fuel ∧ ∃ turns, c.rest.length ≤ turns ∧
    r = (statementsFrom turns c).map fun more => (ss ++ more.1, more.2)

theorem ends_statementTurn (ss : List Statement) (c : Cursor)
    (r : Except CompileError (List Statement × Cursor)) (h : Stating fuel ss c r) :
    Ends (Stating fuel) (Remaining.left c) (statementTurn fuel ss c) r := by
  obtain ⟨items, last⟩ := c
  obtain ⟨hfuel, turns, hturns, rfl⟩ := h
  rcases items with _ | ⟨l, items⟩
  · refine .done rfl ?_
    cases turns <;> exact congrArg (fun ss => Except.ok (ss, _)) (List.append_nil ss)
  rcases turns with _ | turns
  · exact absurd hturns (Nat.not_succ_le_zero _)
  have hturn : statementTurn fuel ss ⟨l :: items, last⟩ =
      (action fuel >>= fun a => pure (.again (ss ++ [⟨a, l.line⟩])) :
        Watched Cursor (Turn (List Statement) (List Statement))) ⟨l :: items, last⟩ := rfl
  have hstatement : statement ⟨l :: items, last⟩ =
      (Parser.action >>= fun a => pure ⟨a, l.line⟩) ⟨l :: items, last⟩ := rfl
  have haction : action fuel ⟨l :: items, last⟩ = some (Parser.action ⟨l :: items, last⟩) :=
    follows_action hfuel
  rw [statementsFrom, Parser.peek_bind]
  cases hp : Parser.action ⟨l :: items, last⟩ with
  | error e =>
    rw [hp] at haction
    have hfirst := hstatement.trans (Parser.bind_of_error hp _)
    exact .failed (hturn.trans (bind_of_error haction _))
      (congrArg (Except.map _) (Parser.bind_of_error hfirst _))
  | ok r =>
    obtain ⟨a, c'⟩ := r
    rw [hp] at haction
    obtain ⟨ls, rest, hitems, rfl, hls, -⟩ := action_sound hp
    obtain ⟨l', ls', rfl, -⟩ := hls.begins
    have hless : rest.length < (l :: items).length := by
      rw [hitems, List.cons_append, List.length_cons, List.length_append]
      omega
    refine .again (t := ⟨rest, last⟩) (hturn.trans (bind_of_ok haction _)) hless
      ⟨Nat.lt_trans hless hfuel, turns, Nat.le_of_lt_succ (Nat.lt_of_lt_of_le hless hturns), ?_⟩
    have hfirst := hstatement.trans (Parser.bind_of_ok hp _)
    refine (congrArg (Except.map _) (Parser.bind_of_ok hfirst _)).trans ?_
    cases hmore : statementsFrom turns ⟨rest, last⟩ with
    | error e =>
      rw [Parser.bind_of_error hmore]
      rfl
    | ok more =>
      rw [Parser.bind_of_ok hmore]
      exact congrArg (fun ss => Except.ok (ss, more.2)) (List.append_cons ss _ more.1)

/-- **No loop of the parser is stopped**, and no descent to a nested expression, on any lexemes, if
as many turns may be taken and as many expressions be nested as there are lexemes, and one more. -/
theorem statements_eq {ls : Lexemes} (h : ls.items.length < fuel) :
    statements fuel ls = some (statementsOfLexemes ls) := by
  have hloop := loop_eq ends_statementTurn fuel (b := []) (s := ⟨ls.items, ls.lastLine⟩)
    ⟨h, ls.items.length, Nat.le_refl _, rfl⟩ h
  change Option.map _ (loop (statementTurn fuel) fuel [] ⟨ls.items, ls.lastLine⟩) = _
  rw [hloop, statementsOfLexemes]
  cases statementsFrom ls.items.length ⟨ls.items, ls.lastLine⟩ <;> rfl

end

end Watched

/-- **Reading always comes to an end**, on any text and on any lexemes, broken and truncated ones
included.  A run under watch, which may take a turn more in each loop than there is to be read, and
may nest one expression more, is never stopped: each turn but the last one of a loop and each descent
to a nested expression has read something.  The run gives what the lexer and the parser give. -/
theorem reading_ends (fuel : Nat) (source : String) (ls : Lexemes) :
    (source.toList.length < fuel → Watched.lexemes fuel source = some (lexemes source)) ∧
      (ls.items.length < fuel → Watched.statements fuel ls = some (statementsOfLexemes ls)) :=
  ⟨Watched.lexemes_eq source, Watched.statements_eq⟩

/-- A class that breaks off in a parameter list. -/
def unfinishedClass : Lexemes :=
  ⟨[⟨.word "class", 1⟩, ⟨.word "C", 1⟩, ⟨.mark '\x7b', 1⟩, ⟨.word "construct", 2⟩, ⟨.word "new", 2⟩,
    ⟨.mark '(', 2⟩], 3⟩

/-- A comment that is not closed, and a class that breaks off. -/
theorem reading_ends_truncated :
    "/* ..".toList.length < 6 ∧
    Watched.lexemes 6 "/* .." = some (.error ⟨1, endOfFile, .unterminatedComment⟩) ∧
    unfinishedClass.items.length < 7 ∧
    Watched.statements 7 unfinishedClass =
      some (.error ⟨3, endOfFile, .expected .parameterName⟩) := by
  have hlength : "/* ..".toList.length < 6 := by decide
  have hitems : unfinishedClass.items.length < 7 := by decide
  exact ⟨hlength, ((reading_ends 6 "/* .." unfinishedClass).1 hlength).trans (congrArg some rfl),
    hitems, ((reading_ends 7 "/* .." unfinishedClass).2 hitems).trans (congrArg some rfl)⟩

end ScriptHost.Script
