import ScriptHost.Proofs.Grammar
import ScriptHost.Script.Parser

/-!
# The parser recognizes the grammar

What each function of the parser reads is what a production of the grammar allows, and conversely
(`Parser.Recognizes`).  The parser takes as many method calls behind an expression as it can, so an
expression is read as such only where no call follows it (`Parser.Ends`); this is all the context that
the lookahead depends on, and a whole program is read in the greedy way and in no other
(`statementsOfLexemes_eq_ok_iff`).
-/

namespace ScriptHost.Script

open Grammar

namespace Parser

variable {α β : Type}

/-! ## Running a parser -/

section Running

variable {p : Parser α} {f : α → Parser β} {c c' c'' : Cursor} {a : α} {b : β}

theorem ok_of_bind (h : (p >>= f) c = .ok (b, c'')) :
    ∃ a c', p c = .ok (a, c') ∧ f a c' = .ok (b, c'') := by
  change (p c >>= fun x => f x.1 x.2) = _ at h
  cases hp : p c with
  | error e =>
    rw [hp] at h
    cases h
  | ok x =>
    rw [hp] at h
    exact ⟨x.1, x.2, rfl, h⟩

theorem bind_of_ok (h : p c = .ok (a, c')) (f : α → Parser β) : (p >>= f) c = f a c' := by
  change (p c >>= _) = _
  rw [h]
  rfl

theorem bind_of_error {e : CompileError} (h : p c = .error e) (f : α → Parser β) :
    (p >>= f) c = .error e := by
  change (p c >>= _) = _
  rw [h]
  rfl

theorem get_bind (f : Cursor → Parser β) (c : Cursor) : (get >>= f) c = f c c := rfl

theorem peek_bind (f : Option Token → Parser β) (c : Cursor) : (peek >>= f) c = f c.token? c := rfl

theorem advance_bind (f : Unit → Parser β) (l : Lexeme) (rest : List Lexeme) (last : Nat) :
    (advance >>= f) ⟨l :: rest, last⟩ = f () ⟨rest, last⟩ := rfl

theorem atMark_bind (m : Char) (f : Bool → Parser β) (c : Cursor) :
    (atMark m >>= f) c = f (c.token? == some (.mark m)) c := rfl

theorem atWord_bind (w : String) (f : Bool → Parser β) (c : Cursor) :
    (atWord w >>= f) c = f (c.token? == some (.word w)) c := rfl

end Running

section Lookahead

variable {items rest : List Lexeme} {last : Nat} {t : Token}

theorem cons_of_token (h : (Cursor.token? ⟨items, last⟩ == some t) = true) :
    ∃ l rest, items = l :: rest ∧ l.token = t := by
  have htoken := beq_iff_eq.1 h
  cases items with
  | nil => cases htoken
  | cons l rest => exact ⟨l, rest, rfl, Option.some.inj htoken⟩

theorem token_of_cons {l : Lexeme} (h : l.token = t) :
    (Cursor.token? ⟨l :: rest, last⟩ == some t) = true :=
  beq_iff_eq.2 (congrArg some h)

theorem not_token (h : firstToken? rest ≠ some t) :
    ¬ (Cursor.token? ⟨rest, last⟩ == some t) = true :=
  fun h' => h (beq_iff_eq.1 h')

end Lookahead

/-! ## What a parser recognizes -/

/-- Of at most `n` lexemes `p` reads those of which `P` holds, where `Ends` holds of them and those
behind them. -/
structure Recognizes (p : Parser α) (n : Nat) (P : List Lexeme → α → Prop)
    (Ends : List Lexeme → List Lexeme → Prop) : Prop where
  sound {items : List Lexeme} {last : Nat} {a : α} {c' : Cursor} (hitems : items.length ≤ n)
    (h : p ⟨items, last⟩ = .ok (a, c')) :
    ∃ ls rest, items = ls ++ rest ∧ c' = ⟨rest, last⟩ ∧ P ls a ∧ Ends ls rest
  complete (rest : List Lexeme) (last : Nat) {ls : List Lexeme} {a : α}
    (hitems : (ls ++ rest).length ≤ n) (h : P ls a) (hends : Ends ls rest) : p ⟨ls ++ rest, last⟩ = .ok (a, ⟨rest, last⟩)

theorem Recognizes.mono {p : Parser α} {n m : Nat} {P : List Lexeme → α → Prop}
    {Stops : List Lexeme → List Lexeme → Prop} (h : Recognizes p n P Stops) (hm : m ≤ n) :
    Recognizes p m P Stops where
  sound hitems := h.sound (Nat.le_trans hitems hm)
  complete rest last _ _ hitems := h.complete rest last (Nat.le_trans hitems hm)

/-- Whatever follows. -/
def Anyway (_ _ : List Lexeme) : Prop := True

/-- No call of a method follows, nor do the arguments of the last one. -/
def Ends (ls rest : List Lexeme) : Prop := firstToken? rest ≠ some (.mark '.') ∧ Meets ls rest

section Recognizing

variable {items ls rest : List Lexeme} {l : Lexeme} {last : Nat} {c' : Cursor} {what : Expectation}

theorem mark_of_token {m : Char} (hl : l.token = .mark m) :
    mark m what ⟨l :: rest, last⟩ = .ok ((), ⟨rest, last⟩) := by
  rw [mark, atMark_bind, if_pos (token_of_cons hl)]
  rfl

theorem mark_sound {m : Char} {u : Unit} (h : mark m what ⟨items, last⟩ = .ok (u, c')) :
    ∃ l rest, items = l :: rest ∧ l.token = .mark m ∧ c' = ⟨rest, last⟩ := by
  rw [mark, atMark_bind] at h
  split at h
  next hmark =>
    obtain ⟨l, rest, rfl, hl⟩ := cons_of_token hmark
    cases h
    exact ⟨l, rest, rfl, hl, rfl⟩
  next => cases h

theorem name_of_names {w : String} (hl : l.Names w) :
    name what ⟨l :: rest, last⟩ = .ok (w, ⟨rest, last⟩) := by
  have htoken : Cursor.token? ⟨l :: rest, last⟩ = some (.word w) := congrArg some hl.1
  rw [name, peek_bind, htoken]
  simp only [hl.2]
  rfl

theorem name_sound {w : String} (h : name what ⟨items, last⟩ = .ok (w, c')) :
    ∃ l rest, items = l :: rest ∧ l.Names w ∧ c' = ⟨rest, last⟩ := by
  rcases items with _ | ⟨⟨t, line⟩, rest⟩
  · cases h
  · cases t with
    | word w' =>
      change (if isKeyword w' then (missing what : Parser String) else advance >>= fun _ => pure w')
        _ = _ at h
      split at h
      next => cases h
      next hkeyword =>
        cases h
        exact ⟨_, rest, rfl, ⟨rfl, by simpa using hkeyword⟩, rfl⟩
    | number | text | mark => cases h

theorem recognizes_name (what : Expectation) (n : Nat) :
    Recognizes (name what) n Name Anyway where
  sound _ h := by
    obtain ⟨l, rest, rfl, hl, rfl⟩ := name_sound h
    exact ⟨[l], rest, rfl, rfl, .mk hl, trivial⟩
  complete _ _ _ _ _ h _ := by
    obtain ⟨hl⟩ := h
    exact name_of_names hl

end Recognizing

/-! ## Lists -/

section Lists

variable {p : Parser α} {n : Nat} {P : List Lexeme → α → Prop}
  {Stops : List Lexeme → List Lexeme → Prop} {as : List α} {last : Nat}

theorem commaListFrom_sound (hp : Recognizes p n P Stops) : ∀ (fuel : Nat) {items : List Lexeme}
    {as : List α} {c' : Cursor}, items.length ≤ n → commaListFrom p fuel ⟨items, last⟩ = .ok (as, c') →
      ∃ ls rest, items = ls ++ rest ∧ c' = ⟨rest, last⟩ ∧ Separated P ls as
  | 0, items, as, c', hitems, h => by
    obtain ⟨a, c₁, hfirst, h⟩ := ok_of_bind h
    obtain ⟨ls, rest, rfl, rfl, hP, -⟩ := hp.sound hitems hfirst
    cases h
    exact ⟨ls, rest, rfl, rfl, .one hP⟩
  | fuel + 1, items, as, c', hitems, h => by
    obtain ⟨a, c₁, hfirst, h⟩ := ok_of_bind h
    obtain ⟨ls, rest, rfl, rfl, hP, -⟩ := hp.sound hitems hfirst
    rw [atMark_bind] at h
    split at h
    next hmark =>
      obtain ⟨comma, rest, rfl, hcomma⟩ := cons_of_token hmark
      rw [advance_bind] at h
      obtain ⟨as', c₂, hmore, h⟩ := ok_of_bind h
      have hlength : rest.length ≤ n := by
        simp only [List.length_append, List.length_cons] at hitems
        omega
      obtain ⟨ls', rest', rfl, rfl, hP'⟩ := commaListFrom_sound hp fuel hlength hmore
      cases h
      exact ⟨ls ++ comma :: ls', rest', by simp, rfl, .more hP hcomma hP'⟩
    next =>
      cases h
      exact ⟨ls, rest, rfl, rfl, .one hP⟩

/-- Where no comma follows, all the elements are read. -/
theorem commaListFrom_complete (hp : Recognizes p n P Stops)
    (hcomma : ∀ ls rest, firstToken? rest = some (.mark ',') → Stops ls rest) {ls rest : List Lexeme}
    (h : Separated P ls as) (hstops : ∀ ls, Stops ls rest)
    (hrest : firstToken? rest ≠ some (.mark ',')) (hitems : (ls ++ rest).length ≤ n) : ∀ fuel,
      ls.length ≤ fuel → commaListFrom p fuel ⟨ls ++ rest, last⟩ = .ok (as, ⟨rest, last⟩) := by
  induction h with
  | one h =>
    intro fuel _
    have hfirst := hp.complete rest last hitems h (hstops _)
    cases fuel with
    | zero =>
      rw [commaListFrom, bind_of_ok hfirst]
      rfl
    | succ fuel =>
      rw [commaListFrom, bind_of_ok hfirst, atMark_bind, if_neg (not_token hrest)]
      rfl
  | @more ls ls' comma a as h hmark _ ih =>
    intro fuel hfuel
    simp only [List.length_append, List.length_cons] at hfuel hitems
    cases fuel with
    | zero => omega
    | succ fuel =>
      have hmore := ih (by simp only [List.length_append]; omega) fuel (by omega)
      have hfirst := hp.complete (comma :: (ls' ++ rest)) last
        (by simp only [List.length_append, List.length_cons]; omega) h
        (hcomma _ _ (congrArg some hmark))
      rw [List.append_assoc, List.cons_append, commaListFrom, bind_of_ok hfirst, atMark_bind,
        if_pos (token_of_cons hmark), advance_bind]
      exact bind_of_ok hmore _

/-- A list is read up to its closing mark, if that mark ends an element and does not begin one. -/
theorem recognizes_closedList {closing : Char} {what : Expectation} (hp : Recognizes p n P Stops)
    (hopens : ∀ ls a, P ls a → ∃ l ls', ls = l :: ls' ∧ l.token ≠ .mark closing)
    (hstops : ∀ ls rest, firstToken? rest = some (.mark ',') ∨ firstToken? rest = some (.mark closing) →
      Stops ls rest) (hclosing : closing ≠ ',') :
    Recognizes (closedList p closing what) n (Closed P closing) Anyway where
  sound {items last as c'} hitems h := by
    rw [closedList, atMark_bind] at h
    split at h
    next =>
      obtain ⟨_, c₁, hempty, h⟩ := ok_of_bind h
      cases hempty
      obtain ⟨_, c₂, hmark, h⟩ := ok_of_bind h
      obtain ⟨l, rest, rfl, hl, rfl⟩ := mark_sound hmark
      cases h
      exact ⟨[l], rest, rfl, rfl, .empty hl, trivial⟩
    next =>
      obtain ⟨as', c₁, hlist, h⟩ := ok_of_bind h
      rw [commaList, get_bind] at hlist
      obtain ⟨ls, rest, rfl, rfl, hls⟩ := commaListFrom_sound hp _ hitems hlist
      obtain ⟨_, c₂, hmark, h⟩ := ok_of_bind h
      obtain ⟨l, rest, rfl, hl, rfl⟩ := mark_sound hmark
      cases h
      exact ⟨ls ++ [l], rest, by simp, rfl, .full hls hl, trivial⟩
  complete rest last ls as hitems h _ := by
    cases h with
    | @empty c hc =>
      have hempty : (pure [] : Parser (List α)) ⟨c :: rest, last⟩ = .ok ([], ⟨c :: rest, last⟩) := rfl
      rw [List.singleton_append, closedList, atMark_bind, if_pos (token_of_cons hc),
        bind_of_ok hempty]
      exact bind_of_ok (mark_of_token hc) _
    | @full ls c _ h hc =>
      have hfirst : ∃ l ls', ls = l :: ls' ∧ l.token ≠ .mark closing := by
        cases h with
        | one h => exact hopens _ _ h
        | more h =>
          obtain ⟨l, ls', rfl, hl⟩ := hopens _ _ h
          exact ⟨l, _, rfl, hl⟩
      have hopen : firstToken? (ls ++ c :: rest) ≠ some (.mark closing) := by
        obtain ⟨l, ls', rfl, hl⟩ := hfirst
        exact fun h => hl (Option.some.inj h)
      have hbehind : firstToken? (c :: rest) = some (.mark closing) := congrArg some hc
      have hlist : commaList p ⟨ls ++ c :: rest, last⟩ = .ok (as, ⟨c :: rest, last⟩) := by
        rw [commaList, get_bind]
        refine commaListFrom_complete hp (fun ls rest h => hstops ls rest (.inl h)) h
          (fun ls => hstops ls _ (.inr hbehind)) (by simp [hbehind, hclosing]) (by simpa using hitems)
          _ (by simp)
      rw [List.append_assoc, List.singleton_append, closedList, atMark_bind,
        if_neg (not_token hopen), bind_of_ok hlist]
      exact bind_of_ok (mark_of_token hc) _

end Lists

/-! ## Expressions -/

section Expressions

variable {nested : Parser Expr} {n : Nat}

theorem ends_of_mark {m : Char} (hdot : m ≠ '.') (hopen : m ≠ '(') {ls rest : List Lexeme}
    (h : firstToken? rest = some (.mark m)) : Ends ls rest := by
  simp [Ends, Meets, h, hdot, hopen]

theorem opens_ne_mark {t : Token} {m : Char} (h : Opens t) (hm : m = ')' ∨ m = ']') :
    t ≠ .mark m := by
  rintro rfl
  rcases hm with rfl | rfl <;> simp [Opens] at h

/-- The arguments of a call, or the elements of a list. -/
theorem recognizes_elements {closing : Char} (what : Expectation)
    (hnested : Recognizes nested n Expression Ends) (hclosing : closing = ')' ∨ closing = ']') :
    Recognizes (closedList nested closing what) n (Closed Expression closing) Anyway := by
  refine recognizes_closedList hnested (fun ls e h => ?_) (fun ls rest h => ?_) ?_
  · obtain ⟨l, ls', rfl, hl⟩ := h.opens
    exact ⟨l, ls', rfl, opens_ne_mark hl hclosing⟩
  · rcases h with h | h
    · exact ends_of_mark (by decide) (by decide) h
    · rcases hclosing with rfl | rfl <;> exact ends_of_mark (by decide) (by decide) h
  · rcases hclosing with rfl | rfl <;> decide

theorem primary_of_word {w : String} {line last : Nat} {rest : List Lexeme} (htrue : w ≠ "true")
    (hfalse : w ≠ "false") (hnull : w ≠ "null") :
    primary nested ⟨⟨.word w, line⟩ :: rest, last⟩ =
      (if isKeyword w then missing .expression else advance >>= fun _ => pure (.variable w line) :
        Parser Expr) ⟨⟨.word w, line⟩ :: rest, last⟩ := by
  simp [primary, get_bind, peek_bind, Cursor.token?, Cursor.line]

theorem primary_of_mark {m : Char} {line last : Nat} {rest : List Lexeme} (hminus : m ≠ '-')
    (hgroup : m ≠ '(') (hlist : m ≠ '[') :
    primary nested ⟨⟨.mark m, line⟩ :: rest, last⟩ =
      (missing .expression : Parser Expr) ⟨⟨.mark m, line⟩ :: rest, last⟩ := by
  simp [primary, get_bind, peek_bind, Cursor.token?, hminus, hgroup, hlist]

theorem primary_of_group {line last : Nat} {rest : List Lexeme} :
    primary nested ⟨⟨.mark '(', line⟩ :: rest, last⟩ =
      (nested >>= fun e => mark ')' .groupClosing >>= fun _ => pure e) ⟨rest, last⟩ := rfl

theorem primary_of_list {line last : Nat} {rest : List Lexeme} :
    primary nested ⟨⟨.mark '[', line⟩ :: rest, last⟩ =
      (closedList nested ']' .listClosing >>= fun es => pure (.list es)) ⟨rest, last⟩ := rfl

theorem recognizes_primary (hnested : Recognizes nested n Expression Ends) :
    Recognizes (primary nested) (n + 1) Primary Anyway where
  sound {items last e c'} hitems h := by
    rcases items with _ | ⟨⟨t, line⟩, items⟩
    · cases h
    have hlength : items.length ≤ n := Nat.le_of_succ_le_succ hitems
    cases t with
    | number v =>
      cases h
      exact ⟨_, items, rfl, rfl, .number rfl, trivial⟩
    | text s =>
      cases h
      exact ⟨_, items, rfl, rfl, .text rfl, trivial⟩
    | word w =>
      by_cases htrue : w = "true"
      · subst htrue
        cases h
        exact ⟨_, items, rfl, rfl, .bool true rfl, trivial⟩
      by_cases hfalse : w = "false"
      · subst hfalse
        cases h
        exact ⟨_, items, rfl, rfl, .bool false rfl, trivial⟩
      by_cases hnull : w = "null"
      · subst hnull
        cases h
        exact ⟨_, items, rfl, rfl, .null rfl, trivial⟩
      rw [primary_of_word htrue hfalse hnull] at h
      split at h
      next => cases h
      next hkeyword =>
        cases h
        exact ⟨_, items, rfl, rfl, .variable (l := ⟨.word w, line⟩) ⟨rfl, by simpa using hkeyword⟩,
          trivial⟩
    | mark m =>
      by_cases hminus : m = '-'
      · subst hminus
        rcases items with _ | ⟨⟨t, line'⟩, items⟩
        · cases h
        cases t with
        | number v =>
          cases h
          exact ⟨[_, _], items, rfl, rfl, .negative rfl rfl, trivial⟩
        | word | text | mark => cases h
      by_cases hgroup : m = '('
      · subst hgroup
        rw [primary_of_group] at h
        obtain ⟨e', c₁, hinner, h⟩ := ok_of_bind h
        obtain ⟨ls, rest, rfl, rfl, hls, -⟩ := hnested.sound hlength hinner
        obtain ⟨_, c₂, hmark, h⟩ := ok_of_bind h
        obtain ⟨l, rest, rfl, hl, rfl⟩ := mark_sound hmark
        cases h
        exact ⟨⟨.mark '(', line⟩ :: (ls ++ [l]), rest, by simp, rfl, .group rfl hls hl, trivial⟩
      by_cases hlist : m = '['
      · subst hlist
        rw [primary_of_list] at h
        obtain ⟨es, c₁, helements, h⟩ := ok_of_bind h
        obtain ⟨ls, rest, rfl, rfl, hls, -⟩ :=
          (recognizes_elements _ hnested (.inr rfl)).sound hlength helements
        cases h
        exact ⟨_ :: ls, rest, rfl, rfl, .list rfl hls, trivial⟩
      rw [primary_of_mark hminus hgroup hlist] at h
      cases h
  complete rest last ls e hitems h _ := by
    cases h with
    | @number l _ h | @text l _ h | @null l h =>
      obtain ⟨_, line⟩ := l
      cases h
      rfl
    | @bool l b h =>
      obtain ⟨_, line⟩ := l
      cases h
      cases b <;> rfl
    | @negative m l _ hm h =>
      obtain ⟨_, line⟩ := m
      obtain ⟨_, line'⟩ := l
      cases hm
      cases h
      rfl
    | @«variable» l w h =>
      obtain ⟨_, line⟩ := l
      obtain ⟨h, hkeyword⟩ := h
      cases h
      have hword : ∀ w', isKeyword w' = true → w ≠ w' := by
        rintro _ hw' rfl
        simp [hw'] at hkeyword
      rw [List.singleton_append, primary_of_word (hword _ (by decide)) (hword _ (by decide))
        (hword _ (by decide)), hkeyword]
      rfl
    | @group o c ls _ ho h hc =>
      obtain ⟨_, line⟩ := o
      cases ho
      simp only [List.cons_append, List.append_assoc, List.length_cons, List.nil_append] at hitems ⊢
      have hbehind : firstToken? (c :: rest) = some (.mark ')') := congrArg some hc
      have hinner := hnested.complete (c :: rest) last (Nat.le_of_succ_le_succ hitems) h
        (ends_of_mark (by decide) (by decide) hbehind)
      rw [primary_of_group, bind_of_ok hinner]
      exact bind_of_ok (mark_of_token hc) _
    | @list o ls es ho h =>
      obtain ⟨_, line⟩ := o
      cases ho
      have helements := (recognizes_elements .listClosing hnested (.inr rfl)).complete
        rest last (Nat.le_of_succ_le_succ hitems) h trivial
      rw [List.cons_append, primary_of_list]
      exact bind_of_ok helements _

/-- The calls of methods on `receiver`.  Each takes a point, so fuel for the lexemes is enough. -/
theorem recognizes_suffixesFrom (hnested : Recognizes nested n Expression Ends) :
    ∀ (fuel : Nat) (receiver : Expr), fuel ≤ n →
      Recognizes (suffixesFrom nested fuel receiver) fuel (Suffixes receiver) Ends
  | 0, receiver, _ => by
    constructor
    case sound =>
      intro items last e c' hitems h
      obtain rfl := List.eq_nil_of_length_eq_zero (Nat.le_zero.1 hitems)
      cases h
      exact ⟨[], [], rfl, rfl, .nothing _, by simp [firstToken?], fun _ => by simp [firstToken?]⟩
    case complete =>
      intro rest last ls e hitems h _
      obtain ⟨rfl, rfl⟩ := List.append_eq_nil_iff.1
        (List.eq_nil_of_length_eq_zero (Nat.le_zero.1 hitems))
      cases h
      rfl
  | fuel + 1, receiver, hfuel => by
    have hmore := recognizes_suffixesFrom hnested fuel
    constructor
    case sound =>
      intro items last e c' hitems h
      rw [suffixesFrom, atMark_bind] at h
      split at h
      next hmark =>
        obtain ⟨d, items, rfl, hdot⟩ := cons_of_token hmark
        rw [advance_bind] at h
        obtain ⟨w, c₁, hname, h⟩ := ok_of_bind h
        obtain ⟨l, items, rfl, hl, rfl⟩ := name_sound hname
        rw [atMark_bind] at h
        simp only [List.length_cons] at hitems
        split at h
        next hmark =>
          obtain ⟨o, items, rfl, hopen⟩ := cons_of_token hmark
          rw [advance_bind] at h
          obtain ⟨es, c₂, harguments, h⟩ := ok_of_bind h
          simp only [List.length_cons] at hitems
          obtain ⟨arguments, rest, rfl, rfl, hes, -⟩ :=
            (recognizes_elements _ hnested (.inl rfl)).sound (by omega) harguments
          simp only [List.length_append] at hitems
          obtain ⟨ls, rest, rfl, rfl, hls, hends⟩ := (hmore _ (by omega)).sound (by omega) h
          have hcall := Suffixes.call hdot hl hopen hes hls
          have hends' := (endsInName_suffixes (hes.not_endsInName [d, l, o]) hls).1
          exact ⟨_, rest, by simp, rfl, hcall, hends.1, fun h => hends.2 (hends' h)⟩
        next hopen =>
          obtain ⟨ls, rest, rfl, rfl, hls, hends⟩ := (hmore _ (by omega)).sound (by omega) h
          refine ⟨d :: l :: ls, rest, rfl, rfl, .getter hdot hl hls, hends.1, fun h => ?_⟩
          rcases (endsInName_getter hdot hl hls).1 h with rfl | hname
          · exact fun h => hopen (beq_iff_eq.2 h)
          · exact hends.2 hname
      next hdot =>
        cases h
        exact ⟨[], items, rfl, rfl, .nothing _, fun h => hdot (beq_iff_eq.2 h),
          fun h => absurd h not_endsInName_nil⟩
    case complete =>
      intro rest last ls e hitems h hends
      cases h with
      | nothing =>
        rw [List.nil_append, suffixesFrom, atMark_bind, if_neg (not_token hends.1)]
        rfl
      | @getter d l w ls _ _ hd hl h =>
        simp only [List.length_append, List.length_cons] at hitems
        have hname := endsInName_getter hd hl h
        have hbehind := (hmore (.getter receiver w) (by omega)).complete rest last
          (by simp only [List.length_append]; omega) h
          ⟨hends.1, fun h => hends.2 (hname.2 (.inr h))⟩
        have hopen : firstToken? (ls ++ rest) ≠ some (.mark '(') := by
          cases h with
          | nothing => exact hends.2 (hname.2 (.inl rfl))
          | getter hd | call hd => simp [firstToken?, hd]
        simp only [List.cons_append]
        rw [suffixesFrom, atMark_bind, if_pos (token_of_cons hd), advance_bind,
          bind_of_ok (name_of_names hl), atMark_bind, if_neg (not_token hopen), hbehind]
      | @call d l o w arguments ls _ _ es hd hl ho harguments h =>
        simp only [List.length_append, List.length_cons] at hitems
        have hname := endsInName_suffixes (harguments.not_endsInName [d, l, o]) h
        have hbehind := (hmore (.call receiver w es) (by omega)).complete rest last
          (by simp only [List.length_append]; omega) h ⟨hends.1, fun h => hends.2 (hname.2 h)⟩
        have helements := (recognizes_elements .argumentClosing hnested (.inl rfl)).complete
          (ls ++ rest) last (by simp only [List.length_append]; omega) harguments
          trivial
        simp only [List.cons_append, List.append_assoc]
        rw [suffixesFrom, atMark_bind, if_pos (token_of_cons hd), advance_bind,
          bind_of_ok (name_of_names hl), atMark_bind, if_pos (token_of_cons ho), advance_bind,
          bind_of_ok helements, hbehind]

/-- **Expressions are recognized**, with fuel for their lexemes: a nested one has a mark before it. -/
theorem recognizes_expressionWithin : ∀ n, Recognizes (expressionWithin n) n Expression Ends
  | 0 => by
    constructor
    case sound =>
      intro items last e c' _ h
      cases h
    case complete =>
      intro rest last ls e hitems h _
      obtain ⟨l, ls', rfl, -⟩ := h.opens
      simp at hitems
  | n + 1 => by
    have hnested := recognizes_expressionWithin n
    have hprimary := recognizes_primary hnested
    constructor
    case sound =>
      intro items last e c' hitems h
      obtain ⟨e', c₁, hfirst, h⟩ := ok_of_bind h
      obtain ⟨ls, rest, rfl, rfl, hls, -⟩ := hprimary.sound hitems hfirst
      have hlength : rest.length ≤ n := by
        obtain ⟨l, ls', rfl, -⟩ := hls.opens
        simp only [List.length_append, List.length_cons] at hitems
        omega
      rw [get_bind] at h
      obtain ⟨ls', rest, rfl, rfl, hls', hends⟩ :=
        (recognizes_suffixesFrom hnested _ e' hlength).sound (Nat.le_refl _) h
      have hname := endsInName_suffixes hls.not_endsInName hls'
      exact ⟨ls ++ ls', rest, by simp, rfl, .mk hls hls', hends.1, fun h => hends.2 (hname.1 h)⟩
    case complete =>
      intro rest last ls e hitems h hends
      obtain @⟨ls, ls', e', _, hls, hls'⟩ := h
      rw [List.append_assoc] at hitems ⊢
      have hfirst := hprimary.complete (ls' ++ rest) last hitems hls trivial
      have hlength : (ls' ++ rest).length ≤ n := by
        obtain ⟨l, ls, rfl, -⟩ := hls.opens
        simp only [List.length_append, List.length_cons] at hitems ⊢
        omega
      have hname := endsInName_suffixes hls.not_endsInName hls'
      rw [expressionWithin, bind_of_ok hfirst, get_bind]
      exact (recognizes_suffixesFrom hnested _ e' hlength).complete rest last (Nat.le_refl _) hls'
        ⟨hends.1, fun h => hends.2 (hname.2 h)⟩

theorem recognizes_expression (n : Nat) : Recognizes expression n Expression Ends where
  sound _ h := (recognizes_expressionWithin _).sound (Nat.le_succ _) h
  complete rest last _ _ _ h hends :=
    (recognizes_expressionWithin _).complete rest last (Nat.le_succ _) h hends

end Expressions

/-! ## Classes -/

section Classes

variable {items ls rest : List Lexeme} {last : Nat} {c' : Cursor}

theorem recognizes_parameters (n : Nat) : Recognizes parameters n Parameters Anyway := by
  have hnames : Recognizes (closedList (name .parameterName) ')' .parameterClosing) n
      (Closed Name ')') Anyway := by
    refine recognizes_closedList (recognizes_name _ n) (fun ls w h => ?_) (fun _ _ _ => trivial)
      (by decide)
    obtain ⟨hl, -⟩ := h
    exact ⟨_, [], rfl, by simp [hl]⟩
  constructor
  case sound =>
    intro items last arity c' hitems h
    obtain ⟨_, c₁, hopen, h⟩ := ok_of_bind h
    obtain ⟨o, items, rfl, ho, rfl⟩ := mark_sound hopen
    obtain ⟨names, c₂, hlist, h⟩ := ok_of_bind h
    obtain ⟨ls, rest, rfl, rfl, hls, -⟩ := hnames.sound (Nat.le_of_succ_le hitems) hlist
    cases h
    exact ⟨o :: ls, rest, rfl, rfl, .mk ho hls, trivial⟩
  case complete =>
    intro rest last ls arity hitems h _
    obtain ⟨ho, h⟩ := h
    have hlist := hnames.complete rest last (Nat.le_of_succ_le hitems) h trivial
    rw [List.cons_append, parameters, bind_of_ok (mark_of_token ho)]
    exact bind_of_ok hlist _

/-- Lexemes that close so many braces. -/
inductive Closes : Nat → List Lexeme → Prop
  | nothing : Closes 0 []
  | brace {depth : Nat} {ls ls' : List Lexeme} {c : Lexeme} (h : Balanced ls)
      (hc : c.token = .mark '\x7d') (h' : Closes depth ls') : Closes (depth + 1) (ls ++ c :: ls')

theorem afterBody?_sound : ∀ {depth : Nat} {items rest : List Lexeme},
    afterBody? depth items = some rest → ∃ ls, items = ls ++ rest ∧ Closes depth ls
  | 0, items, rest, h => by
    rw [afterBody?] at h
    cases h
    exact ⟨[], rfl, .nothing⟩
  | depth + 1, [], rest, h => by
    rw [afterBody?] at h
    cases h
  | depth + 1, l :: items, rest, h => by
    rw [afterBody?] at h
    split at h
    next hopen =>
      obtain ⟨_, rfl, hls⟩ := afterBody?_sound h
      obtain _ | ⟨hinner, hc, hls⟩ := hls
      obtain _ | ⟨houter, hc', hls⟩ := hls
      have hbraces := Balanced.braces (by simpa using hopen) hinner hc houter
      have hcloses := Closes.brace hbraces hc' hls
      exact ⟨_, by simp, hcloses⟩
    next hopen =>
      split at h
      next hclose =>
        obtain ⟨ls, rfl, hls⟩ := afterBody?_sound h
        exact ⟨l :: ls, rfl, .brace .nothing (by simpa using hclose) hls⟩
      next hclose =>
        obtain ⟨_, rfl, hls⟩ := afterBody?_sound h
        obtain _ | ⟨hbody, hc, hls⟩ := hls
        have hother := Balanced.other (by simpa using hopen) (by simpa using hclose) hbody
        have hcloses := Closes.brace hother hc hls
        exact ⟨_, by simp, hcloses⟩

/-- Balanced lexemes do not change how many braces are open. -/
theorem afterBody?_balanced (h : Balanced ls) : ∀ (depth : Nat) (rest : List Lexeme),
    afterBody? (depth + 1) (ls ++ rest) = afterBody? (depth + 1) rest := by
  induction h with
  | nothing => exact fun _ _ => rfl
  | other ho hc _ ih =>
    intro depth rest
    rw [List.cons_append, afterBody?, if_neg (by simpa using ho), if_neg (by simpa using hc), ih]
  | braces ho _ hc _ ih ih' =>
    intro depth rest
    rw [List.cons_append, afterBody?, if_pos (by simpa using ho), List.append_assoc, ih,
      List.cons_append, afterBody?, if_neg (by simp [hc]), if_pos (by simpa using hc), ih']

theorem body_sound {u : Unit} (h : body ⟨items, last⟩ = .ok (u, c')) :
    ∃ o ls c rest, items = o :: (ls ++ c :: rest) ∧ c' = ⟨rest, last⟩ ∧ o.token = .mark '\x7b' ∧
      Balanced ls ∧ c.token = .mark '\x7d' := by
  obtain ⟨_, c₁, hopen, h⟩ := ok_of_bind h
  obtain ⟨o, items, rfl, ho, rfl⟩ := mark_sound hopen
  rw [get_bind] at h
  cases hbody : afterBody? 1 items with
  | none =>
    simp only [hbody] at h
    cases h
  | some rest =>
    simp only [hbody] at h
    cases h
    obtain ⟨_, rfl, hls⟩ := afterBody?_sound hbody
    obtain _ | ⟨hls, hc, hnone⟩ := hls
    cases hnone
    exact ⟨o, _, _, rest, by simp, rfl, ho, hls, hc⟩

theorem body_of_balanced {o c : Lexeme} (ho : o.token = .mark '\x7b') (h : Balanced ls)
    (hc : c.token = .mark '\x7d') :
    body ⟨o :: (ls ++ c :: rest), last⟩ = .ok ((), ⟨rest, last⟩) := by
  have hbody : afterBody? 1 (ls ++ c :: rest) = some rest := by
    rw [afterBody?_balanced h, afterBody?, if_neg (by simp [hc]), if_pos (by simpa using hc),
      afterBody?]
  rw [body, bind_of_ok (mark_of_token ho), get_bind]
  simp only [hbody]
  rfl

/-- Reads a foreign method behind the words that announce it, and the members behind it. -/
def methodFrom (fuel : Nat) (decl : ClassDecl) (isStatic : Bool) : Parser ClassDecl := do
  let method ← name .methodName
  let arity? ← if ← atMark '(' then some <$> parameters else pure none
  membersFrom fuel { decl with methods := decl.methods ++ [⟨isStatic, signature method arity?⟩] }

variable {fuel line line' : Nat} {decl decl' : ClassDecl}

theorem membersFrom_construct :
    membersFrom (fuel + 1) decl ⟨⟨.word "construct", line⟩ :: rest, last⟩ =
      (name .constructorName >>= fun constructor => parameters >>= fun arity => body >>= fun _ =>
        membersFrom fuel
          { decl with constructors := decl.constructors ++ [methodSignature constructor arity] })
        ⟨rest, last⟩ := rfl

theorem membersFrom_foreign_static :
    membersFrom (fuel + 1) decl ⟨⟨.word "foreign", line⟩ :: ⟨.word "static", line'⟩ :: rest, last⟩ =
      methodFrom fuel decl true ⟨rest, last⟩ := rfl

theorem membersFrom_foreign (h : firstToken? rest ≠ some (.word "static")) :
    membersFrom (fuel + 1) decl ⟨⟨.word "foreign", line⟩ :: rest, last⟩ =
      methodFrom fuel decl false ⟨rest, last⟩ := by
  have hstatic : (Cursor.token? ⟨rest, last⟩ == some (.word "static")) = false :=
    beq_eq_false_iff_ne.2 h
  rw [membersFrom, peek_bind]
  simp only [Cursor.token?, List.head?_cons, Option.map_some]
  rw [advance_bind, atWord_bind, hstatic]
  rfl

theorem membersFrom_other {t : Token} (hclose : t ≠ .mark '\x7d')
    (hconstruct : t ≠ .word "construct") (hforeign : t ≠ .word "foreign") :
    membersFrom (fuel + 1) decl ⟨⟨t, line⟩ :: rest, last⟩ =
      (fail .unsupportedMember : Parser ClassDecl) ⟨⟨t, line⟩ :: rest, last⟩ := by
  simp [membersFrom, peek_bind, Cursor.token?, hclose, hconstruct, hforeign]

theorem methodFrom_sound {isStatic : Bool}
    (h : methodFrom fuel decl isStatic ⟨items, last⟩ = .ok (decl', c')) :
    ∃ n ls w arity? rest, items = n :: (ls ++ rest) ∧ n.Names w ∧ Arity ls arity? ∧
      membersFrom fuel { decl with methods := decl.methods ++ [⟨isStatic, signature w arity?⟩] }
        ⟨rest, last⟩ = .ok (decl', c') := by
  obtain ⟨w, c₁, hname, h⟩ := ok_of_bind h
  obtain ⟨n, items, rfl, hn, rfl⟩ := name_sound hname
  rw [atMark_bind] at h
  split at h
  next =>
    obtain ⟨_, c₂, hmap, h⟩ := ok_of_bind h
    rw [map_eq_pure_bind] at hmap
    obtain ⟨arity, c₃, hparameters, hsome⟩ := ok_of_bind hmap
    cases hsome
    obtain ⟨ls, rest, rfl, rfl, hls, -⟩ :=
      (recognizes_parameters _).sound (Nat.le_refl _) hparameters
    exact ⟨n, ls, w, some arity, rest, rfl, hn, .some hls, h⟩
  next => exact ⟨n, [], w, none, items, rfl, hn, .none, h⟩

/-- The members are read behind those that `decl` has already. -/
theorem membersFrom_sound : ∀ {fuel : Nat} {items : List Lexeme} {decl decl' : ClassDecl} {c' : Cursor},
    membersFrom fuel decl ⟨items, last⟩ = .ok (decl', c') →
      ∃ ls c rest constructors methods, items = ls ++ c :: rest ∧ c' = ⟨rest, last⟩ ∧
        c.token = .mark '\x7d' ∧ Members ls constructors methods ∧
        decl' = { decl with constructors := decl.constructors ++ constructors,
                            methods := decl.methods ++ methods }
  | 0, items, decl, decl', c', h => by cases h
  | fuel + 1, [], decl, decl', c', h => by cases h
  | fuel + 1, ⟨t, line⟩ :: items, decl, decl', c', h => by
    by_cases hclose : t = .mark '\x7d'
    · subst hclose
      cases h
      exact ⟨[], _, items, [], [], rfl, rfl, rfl, .nothing, by simp⟩
    by_cases hconstruct : t = .word "construct"
    · subst hconstruct
      rw [membersFrom_construct] at h
      obtain ⟨w, c₁, hname, h⟩ := ok_of_bind h
      obtain ⟨n, items, rfl, hn, rfl⟩ := name_sound hname
      obtain ⟨arity, c₂, hparameters, h⟩ := ok_of_bind h
      obtain ⟨ls, items, rfl, rfl, hls, -⟩ :=
        (recognizes_parameters _).sound (Nat.le_refl _) hparameters
      obtain ⟨_, c₃, hbody, h⟩ := ok_of_bind h
      obtain ⟨o, ls', c, items, rfl, rfl, ho, hls', hc⟩ := body_sound hbody
      obtain ⟨ls'', c', rest, constructors, methods, rfl, rfl, hclose, hmembers, rfl⟩ :=
        membersFrom_sound h
      have hall := Members.constructor (k := ⟨.word "construct", line⟩) rfl hn hls ho hls' hc hmembers
      exact ⟨_, c', rest, _, methods, by simp, rfl, hclose, hall, by simp⟩
    by_cases hforeign : t = .word "foreign"
    · subst hforeign
      have hmethod : ∃ modifier isStatic rest, items = modifier ++ rest ∧
          Modifier modifier isStatic ∧ methodFrom fuel decl isStatic ⟨rest, last⟩ = .ok (decl', c') := by
        by_cases hstatic : firstToken? items = some (.word "static")
        · rcases items with _ | ⟨⟨_, line'⟩, items⟩
          · cases hstatic
          · cases hstatic
            exact ⟨[_], true, items, rfl, .static rfl, h⟩
        · rw [membersFrom_foreign hstatic] at h
          exact ⟨[], false, items, rfl, .none, h⟩
      obtain ⟨modifier, isStatic, items, rfl, hmodifier, h⟩ := hmethod
      obtain ⟨n, ls, w, arity?, items, rfl, hn, hls, h⟩ := methodFrom_sound h
      obtain ⟨ls', c', rest, constructors, methods, rfl, rfl, hclose, hmembers, rfl⟩ :=
        membersFrom_sound h
      have hall := Members.method (f := ⟨.word "foreign", line⟩) rfl hmodifier hn hls hmembers
      exact ⟨_, c', rest, constructors, _, by simp, rfl, hclose, hall, by simp⟩
    · rw [membersFrom_other hclose hconstruct hforeign] at h
      cases h

variable (fuel decl last) in
theorem methodFrom_complete {n : Lexeme} {w : String} {arity? : Option Nat} (isStatic : Bool)
    (hn : n.Names w) (h : Arity ls arity?) (hrest : firstToken? rest ≠ some (.mark '(')) :
    methodFrom fuel decl isStatic ⟨n :: (ls ++ rest), last⟩ =
      membersFrom fuel { decl with methods := decl.methods ++ [⟨isStatic, signature w arity?⟩] }
        ⟨rest, last⟩ := by
  rw [methodFrom, bind_of_ok (name_of_names hn), atMark_bind]
  cases h with
  | none =>
    rw [List.nil_append, if_neg (not_token hrest)]
    rfl
  | @some _ arity h =>
    have hopen : (Cursor.token? ⟨ls ++ rest, last⟩ == some (.mark '(')) = true := by
      obtain ⟨ho, -⟩ := h
      exact token_of_cons ho
    have hparameters := (recognizes_parameters _).complete rest last
      (Nat.le_refl _) h trivial
    have hsome : (some <$> parameters) ⟨ls ++ rest, last⟩ = .ok (some arity, ⟨rest, last⟩) := by
      rw [map_eq_pure_bind, bind_of_ok hparameters]
      rfl
    rw [if_pos hopen, bind_of_ok hsome]

variable (rest last) in
theorem membersFrom_complete {c : Lexeme} {constructors : List String} {methods : List MethodDecl}
    (hclose : c.token = .mark '\x7d') (h : Members ls constructors methods) :
    ∀ (fuel : Nat) (decl : ClassDecl), ls.length < fuel →
      membersFrom fuel decl ⟨ls ++ c :: rest, last⟩ =
        .ok ({ decl with constructors := decl.constructors ++ constructors,
                         methods := decl.methods ++ methods }, ⟨rest, last⟩) := by
  induction h with
  | nothing =>
    rintro (_ | fuel) decl hfuel
    · cases hfuel
    obtain ⟨_, line⟩ := c
    cases hclose
    simp only [List.append_nil]
    rfl
  | @constructor k n o c' w parameters body ls arity _ _ hk hn hparameters ho hbody hc _ ih =>
    rintro (_ | fuel) decl hfuel
    · cases hfuel
    obtain ⟨_, line⟩ := k
    cases hk
    simp only [List.length_cons, List.length_append] at hfuel
    have harity := (recognizes_parameters _).complete
      (o :: (body ++ c' :: (ls ++ c :: rest))) last (Nat.le_refl _) hparameters trivial
    have hrest := ih fuel
      { decl with constructors := decl.constructors ++ [methodSignature w arity] } (by omega)
    simp only [List.cons_append, List.append_assoc]
    rw [membersFrom_construct, bind_of_ok (name_of_names hn), bind_of_ok harity,
      bind_of_ok (body_of_balanced ho hbody hc), hrest, List.append_assoc]
    rfl
  | @method f n w modifier parameters ls isStatic arity? _ _ hf hmodifier hn hparameters hmembers ih =>
    rintro (_ | fuel) decl hfuel
    · cases hfuel
    obtain ⟨_, line⟩ := f
    cases hf
    simp only [List.length_cons, List.length_append] at hfuel
    have hnext : firstToken? (ls ++ c :: rest) ≠ some (.mark '(') := by
      cases hmembers with
      | nothing => simp [firstToken?, hclose]
      | constructor h | method h => simp [firstToken?, h]
    have hmethod := methodFrom_complete last fuel decl isStatic hn hparameters hnext
    have hrest := ih fuel
      { decl with methods := decl.methods ++ [⟨isStatic, signature w arity?⟩] } (by omega)
    simp only [List.cons_append, List.append_assoc]
    cases hmodifier with
    | none =>
      have hstatic : firstToken? (n :: (parameters ++ (ls ++ c :: rest))) ≠ some (.word "static") := by
        intro h
        have hword : Token.word w = .word "static" := hn.1.symm.trans (Option.some.inj h)
        cases hword
        exact absurd hn.2 (by decide)
      rw [List.nil_append, membersFrom_foreign hstatic, hmethod, hrest, List.append_assoc]
      rfl
    | @static l h =>
      obtain ⟨_, line'⟩ := l
      cases h
      rw [List.singleton_append, membersFrom_foreign_static, hmethod, hrest, List.append_assoc]
      rfl

theorem classDecl_sound {k : Lexeme} {isForeign : Bool} (hk : k.token = .word "class")
    (h : classDecl isForeign ⟨k :: items, last⟩ = .ok (decl, c')) :
    ∃ ls rest, k :: items = ls ++ rest ∧ c' = ⟨rest, last⟩ ∧ ClassSpelling isForeign ls decl := by
  rw [classDecl, advance_bind] at h
  obtain ⟨w, c₁, hname, h⟩ := ok_of_bind h
  obtain ⟨n, items, rfl, hn, rfl⟩ := name_sound hname
  obtain ⟨_, c₂, hopen, h⟩ := ok_of_bind h
  obtain ⟨o, items, rfl, ho, rfl⟩ := mark_sound hopen
  rw [get_bind] at h
  obtain ⟨ls, c, rest, constructors, methods, rfl, rfl, hc, hmembers, rfl⟩ := membersFrom_sound h
  exact ⟨k :: n :: o :: (ls ++ [c]), rest, by simp, rfl, .mk hk hn ho hmembers hc⟩

variable (rest last) in
theorem classDecl_complete {isForeign : Bool} (h : ClassSpelling isForeign ls decl) :
    classDecl isForeign ⟨ls ++ rest, last⟩ = .ok (decl, ⟨rest, last⟩) := by
  obtain @⟨k, n, o, c, w, ls, constructors, methods, hk, hn, ho, h, hc⟩ := h
  have hmembers := membersFrom_complete rest last hc h
    ((ls ++ c :: rest).length + 1) ⟨w, isForeign, [], []⟩ (by
      rw [List.length_append]
      omega)
  simp only [List.cons_append, List.append_assoc, List.nil_append]
  rw [classDecl, advance_bind, bind_of_ok (name_of_names hn), bind_of_ok (mark_of_token ho), get_bind]
  exact hmembers

end Classes

/-! ## Statements -/

section Statements

variable {items ls rest : List Lexeme} {last line line' : Nat} {c' : Cursor} {a : Action}

theorem action_of_import {source : String} :
    action ⟨⟨.word "import", line⟩ :: ⟨.text source, line'⟩ :: rest, last⟩ =
      (atWord "for" >>= fun more =>
        if more then advance >>= fun _ => commaList (name .variableName) >>= fun names =>
          pure (.importModule source names)
        else pure (.importModule source [])) ⟨rest, last⟩ := rfl

theorem action_of_var :
    action ⟨⟨.word "var", line⟩ :: rest, last⟩ =
      (name .variableName >>= fun target => atMark '=' >>= fun more =>
        if more then advance >>= fun _ => expression >>= fun e => pure (.define target e)
        else pure (.define target .null)) ⟨rest, last⟩ := rfl

theorem action_of_class :
    action ⟨⟨.word "class", line⟩ :: rest, last⟩ =
      (classDecl false >>= fun decl => pure (.declare decl)) ⟨⟨.word "class", line⟩ :: rest, last⟩ :=
  rfl

theorem action_of_foreign_class :
    action ⟨⟨.word "foreign", line⟩ :: ⟨.word "class", line'⟩ :: rest, last⟩ =
      (classDecl true >>= fun decl => pure (.declare decl)) ⟨⟨.word "class", line'⟩ :: rest, last⟩ :=
  rfl

/-- The words with which a statement of another kind begins are not those of an assignment. -/
theorem action_of_assignment {w : String} (hw : isKeyword w = false) :
    action ⟨⟨.word w, line⟩ :: ⟨.mark '=', line'⟩ :: rest, last⟩ =
      (expression >>= fun e => pure (.assign w e)) ⟨rest, last⟩ := by
  have hnot {w' : String} (hw' : isKeyword w' = true) :
      firstToken? (⟨.word w, line⟩ :: ⟨.mark '=', line'⟩ :: rest) ≠ some (.word w') := by
    rintro h
    cases h
    simp [hw'] at hw
  rw [action, atWord_bind, if_neg (not_token (hnot (by decide))), atWord_bind,
    if_neg (not_token (hnot (by decide))), atWord_bind, if_neg (not_token (hnot (by decide))), get_bind]
  simp only [Cursor.token?, Cursor.second?, List.head?_cons, List.tail_cons, Option.map_some, hw]
  rfl

theorem action_of_expression {t : Token} (himport : t ≠ .word "import") (hvar : t ≠ .word "var")
    (hclass : t ≠ .word "class")
    (hforeign : ¬ (t = .word "foreign" ∧ firstToken? rest = some (.word "class")))
    (hassign : ∀ w, t = .word w → isKeyword w = false → firstToken? rest ≠ some (.mark '=')) :
    action ⟨⟨t, line⟩ :: rest, last⟩ =
      (expression >>= fun e => pure (.evaluate e)) ⟨⟨t, line⟩ :: rest, last⟩ := by
  have hnot {w : String} (h : t ≠ .word w) : firstToken? (⟨t, line⟩ :: rest) ≠ some (.word w) :=
    fun h' => h (Option.some.inj h')
  rw [action, atWord_bind, if_neg (not_token (hnot himport)), atWord_bind,
    if_neg (not_token (hnot hvar)), atWord_bind, if_neg (not_token (hnot hclass)), get_bind]
  refine congrFun ?_ (⟨⟨t, line⟩ :: rest, last⟩ : Cursor)
  split
  next hfirst hsecond => exact absurd ⟨Option.some.inj hfirst, hsecond⟩ hforeign
  next w hfirst hsecond =>
    cases hkeyword : isKeyword w with
    | true => rfl
    | false => exact absurd hsecond (hassign w (Option.some.inj hfirst) hkeyword)
  next => rfl

/-- What `action` reads is a statement that may end there. -/
def Reads (items : List Lexeme) (last : Nat) (a : Action) (c' : Cursor) : Prop :=
  ∃ ls rest, items = ls ++ rest ∧ c' = ⟨rest, last⟩ ∧ Does ls a ∧ Meets ls rest

theorem import_sound (h : action ⟨⟨.word "import", line⟩ :: items, last⟩ = .ok (a, c')) :
    Reads (⟨.word "import", line⟩ :: items) last a c' := by
  rcases items with _ | ⟨⟨t, line'⟩, items⟩
  · cases h
  cases t with
  | text source =>
    rw [action_of_import, atWord_bind] at h
    split at h
    next hword =>
      obtain ⟨f, items, rfl, hfor⟩ := cons_of_token hword
      rw [advance_bind] at h
      obtain ⟨names, c₁, hnames, h⟩ := ok_of_bind h
      rw [commaList, get_bind] at hnames
      obtain ⟨ls, rest, rfl, rfl, hls⟩ :=
        commaListFrom_sound (recognizes_name _ _) _ (Nat.le_refl _) hnames
      cases h
      refine ⟨_ :: _ :: f :: ls, rest, rfl, rfl, .importNames rfl rfl hfor hls, fun hends => ?_⟩
      have hends := ((hends.of_cons (by simp)).of_cons (by simp)).of_cons (by simp [hfor])
      exact absurd hends (not_endsInName_names hls)
    next =>
      cases h
      refine ⟨[_, _], items, rfl, rfl, .importModule rfl rfl, fun hends => ?_⟩
      exact absurd (hends.of_cons (by simp)) (not_endsInName_singleton _)
  | word | number | mark => cases h

theorem var_sound (h : action ⟨⟨.word "var", line⟩ :: items, last⟩ = .ok (a, c')) :
    Reads (⟨.word "var", line⟩ :: items) last a c' := by
  rw [action_of_var] at h
  obtain ⟨w, c₁, hname, h⟩ := ok_of_bind h
  obtain ⟨n, items, rfl, hn, rfl⟩ := name_sound hname
  rw [atMark_bind] at h
  split at h
  next hmark =>
    obtain ⟨q, items, rfl, hq⟩ := cons_of_token hmark
    rw [advance_bind] at h
    obtain ⟨e, c₂, hvalue, h⟩ := ok_of_bind h
    obtain ⟨ls, rest, rfl, rfl, hls, hends⟩ := (recognizes_expression _).sound (Nat.le_refl _) hvalue
    cases h
    refine ⟨_ :: n :: q :: ls, rest, rfl, rfl, .define rfl hn hq hls, fun h => hends.2 ?_⟩
    exact ((h.of_cons (by simp)).of_cons (by simp [hn.1])).of_cons (by simp [hq])
  next =>
    cases h
    refine ⟨[_, n], items, rfl, rfl, .introduce rfl hn, fun hends => ?_⟩
    exact absurd (hends.of_cons (by simp)) (not_endsInName_singleton _)

theorem class_sound {k : Lexeme} {isForeign : Bool} (hk : k.token = .word "class")
    (h : (classDecl isForeign >>= fun decl => pure (Action.declare decl)) ⟨k :: items, last⟩ =
      .ok (a, c')) :
    ∃ ls rest decl, k :: items = ls ++ rest ∧ c' = ⟨rest, last⟩ ∧ ClassSpelling isForeign ls decl ∧
      a = .declare decl := by
  obtain ⟨decl, c₁, hdecl, h⟩ := ok_of_bind h
  obtain ⟨ls, rest, hitems, rfl, hls⟩ := classDecl_sound hk hdecl
  cases h
  exact ⟨ls, rest, decl, hitems, rfl, hls, rfl⟩

theorem action_sound (h : action ⟨items, last⟩ = .ok (a, c')) : Reads items last a c' := by
  rcases items with _ | ⟨⟨t, line⟩, items⟩
  · cases h
  by_cases himport : t = .word "import"
  · subst himport
    exact import_sound h
  by_cases hvar : t = .word "var"
  · subst hvar
    exact var_sound h
  by_cases hclass : t = .word "class"
  · subst hclass
    rw [action_of_class] at h
    obtain ⟨ls, rest, decl, hitems, rfl, hls, rfl⟩ := class_sound rfl h
    exact ⟨ls, rest, hitems, rfl, .declare hls, fun h => absurd h hls.not_endsInName⟩
  by_cases hforeign : t = .word "foreign" ∧ firstToken? items = some (.word "class")
  · obtain ⟨rfl, hsecond⟩ := hforeign
    rcases items with _ | ⟨⟨t, line'⟩, items⟩
    · cases hsecond
    cases hsecond
    rw [action_of_foreign_class] at h
    obtain ⟨ls, rest, decl, hitems, rfl, hls, rfl⟩ := class_sound rfl h
    rw [hitems]
    exact ⟨_ :: ls, rest, rfl, rfl, .declareForeign rfl hls,
      fun h => absurd (h.of_cons (by simp)) hls.not_endsInName⟩
  by_cases hassign : ∃ w, t = .word w ∧ isKeyword w = false ∧ firstToken? items = some (.mark '=')
  · obtain ⟨w, rfl, hw, hsecond⟩ := hassign
    rcases items with _ | ⟨⟨t, line'⟩, items⟩
    · cases hsecond
    cases hsecond
    rw [action_of_assignment hw] at h
    obtain ⟨e, c₁, hvalue, h⟩ := ok_of_bind h
    obtain ⟨ls, rest, rfl, rfl, hls, hends⟩ := (recognizes_expression _).sound (Nat.le_refl _) hvalue
    cases h
    exact ⟨_ :: _ :: ls, rest, rfl, rfl, .assign ⟨rfl, hw⟩ rfl hls,
      fun h => hends.2 ((h.of_cons (by simp)).of_cons (by simp))⟩
  · rw [action_of_expression himport hvar hclass hforeign
      (fun w hw hkeyword hsecond => hassign ⟨w, hw, hkeyword, hsecond⟩)] at h
    obtain ⟨e, c₁, hvalue, h⟩ := ok_of_bind h
    obtain ⟨ls, rest, hitems, rfl, hls, hends⟩ :=
      (recognizes_expression _).sound (Nat.le_refl _) hvalue
    cases h
    exact ⟨ls, rest, hitems, rfl, .evaluate hls, hends.2⟩

/-- Where an expression stands alone, neither a class nor an assignment begins. -/
theorem action_complete_expression {e : Expr} (h : Expression ls e) (hends : Ends ls rest)
    (hassign : firstToken? rest ≠ some (.mark '=')) :
    action ⟨ls ++ rest, last⟩ = .ok (.evaluate e, ⟨rest, last⟩) := by
  have hvalue := (recognizes_expression _).complete rest last (Nat.le_refl _) h hends
  obtain ⟨⟨t, line⟩, ls', rfl, hopens⟩ := h.opens
  have hword {w : String} (hw : ¬ Opens (.word w)) : t ≠ .word w := fun h => hw (h ▸ hopens)
  have hbehind : ∀ w, t = .word w → firstToken? (ls' ++ rest) ≠ some (.mark '=') := by
    intro w hw
    rcases h.behind_word rfl hw with rfl | hdot
    · exact hassign
    · simp [firstToken?_append hdot]
  rw [List.cons_append, action_of_expression (hword (by unfold Opens; decide))
    (hword (by unfold Opens; decide)) (hword (by unfold Opens; decide))
    (fun h => hword (by unfold Opens; decide) h.1) (fun w hw _ => hbehind w hw)]
  exact bind_of_ok hvalue _

variable (last) in
theorem action_complete (h : Does ls a) (hmeets : Meets ls rest)
    (hrest : ∀ t ∈ continuations, firstToken? rest ≠ some t) :
    action ⟨ls ++ rest, last⟩ = .ok (a, ⟨rest, last⟩) := by
  have hends {ls' : List Lexeme} (hname : EndsInName ls' → EndsInName ls) : Ends ls' rest :=
    ⟨hrest _ (by decide), fun h => hmeets (hname h)⟩
  cases h with
  | @importModule i s source hi hs =>
    obtain ⟨_, line⟩ := i
    obtain ⟨_, line'⟩ := s
    cases hi
    cases hs
    have hfor : firstToken? rest ≠ some (.word "for") := hrest _ (by decide)
    rw [List.cons_append, List.singleton_append, action_of_import, atWord_bind,
      if_neg (not_token hfor)]
    rfl
  | @importNames i s f source ls names hi hs hf h =>
    obtain ⟨_, line⟩ := i
    obtain ⟨_, line'⟩ := s
    cases hi
    cases hs
    have hnames : commaList (name .variableName) ⟨ls ++ rest, last⟩ = .ok (names, ⟨rest, last⟩) := by
      rw [commaList, get_bind]
      exact commaListFrom_complete (recognizes_name _ _) (fun _ _ _ => trivial) h (fun _ => trivial)
        (hrest _ (by decide)) (Nat.le_refl _) _ (by simp)
    simp only [List.cons_append]
    rw [action_of_import, atWord_bind, if_pos (token_of_cons hf), advance_bind,
      bind_of_ok hnames]
    rfl
  | @introduce v n w hv hn =>
    obtain ⟨_, line⟩ := v
    cases hv
    have hmark : firstToken? rest ≠ some (.mark '=') := hrest _ (by decide)
    rw [List.cons_append, List.singleton_append, action_of_var, bind_of_ok (name_of_names hn),
      atMark_bind, if_neg (not_token hmark)]
    rfl
  | @define v n q w ls e hv hn hq h =>
    obtain ⟨_, line⟩ := v
    cases hv
    have hvalue := (recognizes_expression _).complete rest last (Nat.le_refl _) h
      (hends fun h => ((h.cons q).cons n).cons _)
    simp only [List.cons_append]
    rw [action_of_var, bind_of_ok (name_of_names hn), atMark_bind, if_pos (token_of_cons hq),
      advance_bind, bind_of_ok hvalue]
    rfl
  | declare h =>
    have hdecl := classDecl_complete rest last h
    obtain @⟨k, _, _, _, _, _, _, _, hk, -, -, -, -⟩ := h
    obtain ⟨_, line⟩ := k
    cases hk
    rw [List.cons_append, action_of_class]
    exact bind_of_ok hdecl _
  | @declareForeign f _ _ hf h =>
    have hdecl := classDecl_complete rest last h
    obtain @⟨k, _, _, _, _, _, _, _, hk, -, -, -, -⟩ := h
    obtain ⟨_, line⟩ := f
    obtain ⟨_, line'⟩ := k
    cases hf
    cases hk
    simp only [List.cons_append]
    rw [action_of_foreign_class]
    exact bind_of_ok hdecl _
  | @assign n q w ls e hn hq h =>
    obtain ⟨_, line⟩ := n
    obtain ⟨_, line'⟩ := q
    obtain ⟨hn, hw⟩ := hn
    cases hn
    cases hq
    have hvalue := (recognizes_expression _).complete rest last (Nat.le_refl _) h
      (hends fun h => (h.cons _).cons _)
    simp only [List.cons_append]
    rw [action_of_assignment hw]
    exact bind_of_ok hvalue _
  | evaluate h => exact action_complete_expression h (hends id) (hrest _ (by decide))

/-- **A program is read greedily.** -/
theorem statementsFrom_sound : ∀ {fuel : Nat} {items : List Lexeme} {ss : List Statement} {c' : Cursor},
    items.length ≤ fuel → statementsFrom fuel ⟨items, last⟩ = .ok (ss, c') → SpellsGreedily items ss
  | fuel, [], ss, c', _, h => by
    cases fuel <;> cases h <;> exact .nothing
  | fuel + 1, l :: items, ss, c', hfuel, h => by
    rw [statementsFrom, peek_bind] at h
    obtain ⟨s, c₁, hfirst, h⟩ := ok_of_bind h
    rw [statement, get_bind] at hfirst
    obtain ⟨a, c₂, haction, hfirst⟩ := ok_of_bind hfirst
    cases hfirst
    obtain ⟨ls, rest, hitems, rfl, hls, hmeets⟩ := action_sound haction
    obtain ⟨ss', c₃, hmore, h⟩ := ok_of_bind h
    cases h
    obtain ⟨l', ls, rfl, -⟩ := hls.begins
    rw [List.cons_append] at hitems
    obtain ⟨rfl, rfl⟩ := List.cons_eq_cons.1 hitems
    simp only [List.length_cons, List.length_append] at hfuel
    exact .statement (.mk hls) hmeets (statementsFrom_sound (by omega) hmore)

theorem statementsFrom_complete {ss : List Statement} (h : SpellsGreedily items ss) :
    ∀ fuel, items.length ≤ fuel → statementsFrom fuel ⟨items, last⟩ = .ok (ss, ⟨[], last⟩) := by
  induction h with
  | nothing =>
    rintro (_ | fuel) _ <;> rfl
  | @statement ls rest s ss h hmeets hrest ih =>
    intro fuel hfuel
    rw [List.length_append] at hfuel
    obtain @⟨l, ls, a, h⟩ := h
    rw [List.length_cons] at hfuel
    rcases fuel with _ | fuel
    · omega
    have haction := action_complete last h hmeets (SpellsGreedily.begins hrest)
    have hfirst : statement ⟨l :: ls ++ rest, last⟩ = .ok (⟨a, l.line⟩, ⟨rest, last⟩) := by
      rw [statement, get_bind]
      exact bind_of_ok haction _
    rw [statementsFrom, peek_bind]
    exact (bind_of_ok hfirst _).trans (bind_of_ok (ih fuel (by omega)) _)

end Statements

end Parser

/-- **The parser returns the statements that the lexemes spell greedily**, and nothing else. -/
theorem statementsOfLexemes_eq_ok_iff {ls : Lexemes} {ss : List Statement} :
    statementsOfLexemes ls = .ok ss ↔ SpellsGreedily ls.items ss := by
  constructor
  · intro h
    rw [statementsOfLexemes] at h
    cases hrun : Parser.statementsFrom ls.items.length ⟨ls.items, ls.lastLine⟩ with
    | error e =>
      rw [hrun] at h
      cases h
    | ok x =>
      rw [hrun] at h
      cases h
      exact Parser.statementsFrom_sound (Nat.le_refl _) hrun
  · intro h
    rw [statementsOfLexemes, Parser.statementsFrom_complete h _ (Nat.le_refl _)]
    rfl

/-- **A program parses if and only if it follows the grammar.** -/
theorem exists_statementsOfLexemes_iff {ls : Lexemes} :
    (∃ ss, statementsOfLexemes ls = .ok ss) ↔ ∃ ss, Spells ls.items ss := by
  constructor
  · rintro ⟨ss, h⟩
    exact ⟨ss, SpellsGreedily.spells (statementsOfLexemes_eq_ok_iff.1 h)⟩
  · rintro ⟨ss, h⟩
    obtain ⟨ss', hgreedy⟩ := Spells.greedy h
    exact ⟨ss', statementsOfLexemes_eq_ok_iff.2 hgreedy⟩

end ScriptHost.Script
