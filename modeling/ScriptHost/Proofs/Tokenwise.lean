import ScriptHost.Proofs.Grammar

/-!
# Lines do not matter

Whether lexemes spell a program is a matter of their tokens: the grammar looks at the line of a lexeme
only to record where a statement begins and where a variable stands.  Each production is shown to keep
that, an expression by induction on how many lexemes it has (`Grammar.Tokenwise`).
-/

namespace ScriptHost.Script.Grammar

variable {α : Type}

/-- Lexemes that spell something. -/
def Spelt (P : List Lexeme → α → Prop) (ls : List Lexeme) : Prop := ∃ a, P ls a

/-- Lexemes that differ in their lines only. -/
def SameTokens (ls ls' : List Lexeme) : Prop := ls'.map Lexeme.token = ls.map Lexeme.token

namespace SameTokens

variable {l : Lexeme} {ls ls' ls₁ ls₂ : List Lexeme}

theorem of_nil (h : SameTokens [] ls') : ls' = [] := List.map_eq_nil_iff.1 h

theorem of_cons (h : SameTokens (l :: ls) ls') :
    ∃ k more, ls' = k :: more ∧ k.token = l.token ∧ SameTokens ls more :=
  List.map_eq_cons_iff.1 h

theorem of_append (h : SameTokens (ls₁ ++ ls₂) ls') :
    ∃ front more, ls' = front ++ more ∧ SameTokens ls₁ front ∧ SameTokens ls₂ more := by
  rw [SameTokens, List.map_append] at h
  exact List.map_eq_append_iff.1 h

theorem of_singleton (h : SameTokens [l] ls') : ∃ k, ls' = [k] ∧ k.token = l.token := by
  obtain ⟨k, more, rfl, hk, hmore⟩ := h.of_cons
  exact ⟨k, by rw [hmore.of_nil], hk⟩

end SameTokens

/-- Of at most `n` lexemes that spell something by `P` the tokens alone matter. -/
def Tokenwise (P : List Lexeme → α → Prop) (n : Nat) : Prop :=
  ∀ {ls ls' : List Lexeme} {a : α}, ls.length ≤ n → P ls a → SameTokens ls ls' → Spelt P ls'

section

variable {P : List Lexeme → α → Prop} {n : Nat}

theorem tokenwise_separated (hP : Tokenwise P n) : Tokenwise (Separated P) n := by
  intro ls ls' as hn h
  induction h generalizing ls' with
  | one h =>
    intro hsame
    obtain ⟨a, ha⟩ := hP hn h hsame
    exact ⟨[a], .one ha⟩
  | more h hcomma _ ih =>
    intro hsame
    simp only [List.length_append, List.length_cons] at hn
    obtain ⟨front, more, rfl, hfront, hmore⟩ := hsame.of_append
    obtain ⟨comma, more, rfl, hc, hmore⟩ := hmore.of_cons
    obtain ⟨a, ha⟩ := hP (by omega) h hfront
    obtain ⟨as, has⟩ := ih (by omega) hmore
    exact ⟨a :: as, .more ha (hc.trans hcomma) has⟩

theorem tokenwise_closed (hP : Tokenwise P n) (closing : Char) : Tokenwise (Closed P closing) n := by
  intro ls ls' as hn h hsame
  cases h with
  | empty hc =>
    obtain ⟨c, rfl, hc'⟩ := hsame.of_singleton
    exact ⟨[], .empty (hc'.trans hc)⟩
  | full h hc =>
    rw [List.length_append] at hn
    obtain ⟨front, _, rfl, hfront, hmore⟩ := hsame.of_append
    obtain ⟨c, rfl, hc'⟩ := hmore.of_singleton
    obtain ⟨as, has⟩ := tokenwise_separated hP (Nat.le_trans (Nat.le_add_right ..) hn) h hfront
    exact ⟨as, .full has (hc'.trans hc)⟩

theorem tokenwise_primary (hnested : Tokenwise Expression n) : Tokenwise Primary (n + 1) := by
  intro ls ls' e hn h hsame
  cases h with
  | number h =>
    obtain ⟨l, rfl, hl⟩ := hsame.of_singleton
    exact ⟨_, .number (hl.trans h)⟩
  | negative hm h =>
    obtain ⟨m, _, rfl, hm', hsame⟩ := hsame.of_cons
    obtain ⟨l, rfl, hl⟩ := hsame.of_singleton
    exact ⟨_, .negative (hm'.trans hm) (hl.trans h)⟩
  | text h =>
    obtain ⟨l, rfl, hl⟩ := hsame.of_singleton
    exact ⟨_, .text (hl.trans h)⟩
  | bool b h =>
    obtain ⟨l, rfl, hl⟩ := hsame.of_singleton
    exact ⟨_, .bool b (hl.trans h)⟩
  | null h =>
    obtain ⟨l, rfl, hl⟩ := hsame.of_singleton
    exact ⟨_, .null (hl.trans h)⟩
  | «variable» h =>
    obtain ⟨l, rfl, hl⟩ := hsame.of_singleton
    exact ⟨_, .variable ⟨hl.trans h.1, h.2⟩⟩
  | group ho h hc =>
    simp only [List.length_append, List.length_cons] at hn
    obtain ⟨o, _, rfl, ho', hsame⟩ := hsame.of_cons
    obtain ⟨front, _, rfl, hfront, hsame⟩ := hsame.of_append
    obtain ⟨c, rfl, hc'⟩ := hsame.of_singleton
    obtain ⟨e, he⟩ := hnested (by omega) h hfront
    exact ⟨e, .group (ho'.trans ho) he (hc'.trans hc)⟩
  | list ho h =>
    obtain ⟨o, _, rfl, ho', hsame⟩ := hsame.of_cons
    obtain ⟨es, hes⟩ := tokenwise_closed hnested ']' (Nat.le_of_succ_le_succ hn) h hsame
    exact ⟨.list es, .list (ho'.trans ho) hes⟩

theorem tokenwise_suffixes (hnested : Tokenwise Expression n) : ∀ {e e' : Expr} {ls ls' : List Lexeme},
    ls.length ≤ n → Suffixes e ls e' → SameTokens ls ls' → ∀ f, Spelt (Suffixes f) ls'
  | _, _, _, _, _, .nothing _, hsame, f => by
    rw [hsame.of_nil]
    exact ⟨f, .nothing f⟩
  | _, _, _, _, hn, @Suffixes.getter _ _ w _ _ _ hd hl h, hsame, f => by
    obtain ⟨d, _, rfl, hd', hsame⟩ := hsame.of_cons
    obtain ⟨l, _, rfl, hl', hsame⟩ := hsame.of_cons
    simp only [List.length_cons] at hn
    obtain ⟨f', hf⟩ := tokenwise_suffixes hnested (by omega) h hsame (.getter f w)
    exact ⟨f', .getter (hd'.trans hd) ⟨hl'.trans hl.1, hl.2⟩ hf⟩
  | _, _, _, _, hn, @Suffixes.call _ _ _ w _ _ _ _ _ hd hl ho harguments h, hsame, f => by
    obtain ⟨d, _, rfl, hd', hsame⟩ := hsame.of_cons
    obtain ⟨l, _, rfl, hl', hsame⟩ := hsame.of_cons
    obtain ⟨o, _, rfl, ho', hsame⟩ := hsame.of_cons
    obtain ⟨front, _, rfl, hfront, hsame⟩ := hsame.of_append
    simp only [List.length_cons, List.length_append] at hn
    obtain ⟨es, hes⟩ := tokenwise_closed hnested ')' (by omega) harguments hfront
    obtain ⟨f', hf⟩ := tokenwise_suffixes hnested (by omega) h hsame (.call f w es)
    exact ⟨f', .call (hd'.trans hd) ⟨hl'.trans hl.1, hl.2⟩ (ho'.trans ho) hes hf⟩

theorem tokenwise_expression : ∀ n, Tokenwise Expression n
  | 0, _, _, _, hn, h, _ => by
    obtain ⟨l, ls, rfl, -⟩ := h.opens
    exact absurd hn (Nat.not_succ_le_zero _)
  | n + 1, _, _, _, hn, .mk h h', hsame => by
    obtain ⟨front, more, rfl, hfront, hmore⟩ := hsame.of_append
    have hpositive := List.length_pos_iff.2 h.ne_nil
    rw [List.length_append] at hn
    obtain ⟨e, he⟩ := tokenwise_primary (tokenwise_expression n) (by omega) h hfront
    obtain ⟨e', he'⟩ := tokenwise_suffixes (tokenwise_expression n) (by omega) h' hmore e
    exact ⟨e', .mk he he'⟩

theorem tokenwise_name (n : Nat) : Tokenwise Name n := by
  rintro _ ls' w - ⟨hn⟩ hsame
  obtain ⟨l, rfl, hl⟩ := hsame.of_singleton
  exact ⟨w, .mk ⟨hl.trans hn.1, hn.2⟩⟩

theorem tokenwise_parameters (n : Nat) : Tokenwise Parameters n := by
  rintro _ ls' arity hn ⟨ho, h⟩ hsame
  obtain ⟨o, _, rfl, ho', hsame⟩ := hsame.of_cons
  obtain ⟨names, hnames⟩ := tokenwise_closed (tokenwise_name _) ')' (Nat.le_refl _) h hsame
  exact ⟨_, .mk (ho'.trans ho) hnames⟩

theorem Balanced.of_sameTokens {ls : List Lexeme} (h : Balanced ls) :
    ∀ {ls' : List Lexeme}, SameTokens ls ls' → Balanced ls' := by
  induction h with
  | nothing =>
    intro ls' hsame
    rw [hsame.of_nil]
    exact .nothing
  | other ho hc _ ih =>
    intro ls' hsame
    obtain ⟨l, more, rfl, hl, hmore⟩ := hsame.of_cons
    exact .other (hl ▸ ho) (hl ▸ hc) (ih hmore)
  | braces ho _ hc _ ih ih' =>
    intro ls' hsame
    obtain ⟨o, _, rfl, ho', hsame⟩ := hsame.of_cons
    obtain ⟨inner, _, rfl, hinner, hsame⟩ := hsame.of_append
    obtain ⟨c, more, rfl, hc', hmore⟩ := hsame.of_cons
    exact .braces (ho'.trans ho) (ih hinner) (hc'.trans hc) (ih' hmore)

theorem tokenwise_arity (n : Nat) : Tokenwise Arity n := by
  rintro ls ls' arity? hn h hsame
  cases h with
  | none => exact ⟨none, by rw [hsame.of_nil]; exact .none⟩
  | some h =>
    obtain ⟨arity, harity⟩ := tokenwise_parameters n hn h hsame
    exact ⟨some arity, .some harity⟩

theorem Modifier.of_sameTokens {ls ls' : List Lexeme} {isStatic : Bool} (h : Modifier ls isStatic)
    (hsame : SameTokens ls ls') : Modifier ls' isStatic := by
  cases h with
  | none =>
    rw [hsame.of_nil]
    exact .none
  | static h =>
    obtain ⟨l, rfl, hl⟩ := hsame.of_singleton
    exact .static (hl.trans h)

theorem Members.of_sameTokens {ls : List Lexeme} {constructors : List String}
    {methods : List MethodDecl} (h : Members ls constructors methods) :
    ∀ {ls' : List Lexeme}, SameTokens ls ls' →
      ∃ constructors' methods', Members ls' constructors' methods' := by
  induction h with
  | nothing =>
    intro ls' hsame
    rw [hsame.of_nil]
    exact ⟨[], [], .nothing⟩
  | constructor hk hn hparameters ho hbody hc _ ih =>
    intro ls' hsame
    obtain ⟨k, _, rfl, hk', hsame⟩ := hsame.of_cons
    obtain ⟨n, _, rfl, hn', hsame⟩ := hsame.of_cons
    obtain ⟨front, _, rfl, hfront, hsame⟩ := hsame.of_append
    obtain ⟨o, _, rfl, ho', hsame⟩ := hsame.of_cons
    obtain ⟨body, _, rfl, hsame', hsame⟩ := hsame.of_append
    obtain ⟨c, more, rfl, hc', hmore⟩ := hsame.of_cons
    obtain ⟨arity, harity⟩ := tokenwise_parameters _ (Nat.le_refl _) hparameters hfront
    obtain ⟨constructors, methods, hmembers⟩ := ih hmore
    exact ⟨_, methods, .constructor (hk'.trans hk) ⟨hn'.trans hn.1, hn.2⟩ harity (ho'.trans ho)
      (hbody.of_sameTokens hsame') (hc'.trans hc) hmembers⟩
  | method hf hmodifier hn hparameters _ ih =>
    intro ls' hsame
    obtain ⟨f, _, rfl, hf', hsame⟩ := hsame.of_cons
    obtain ⟨modifier, _, rfl, hsame', hsame⟩ := hsame.of_append
    obtain ⟨n, _, rfl, hn', hsame⟩ := hsame.of_cons
    obtain ⟨front, more, rfl, hfront, hmore⟩ := hsame.of_append
    obtain ⟨arity?, harity⟩ := tokenwise_arity _ (Nat.le_refl _) hparameters hfront
    obtain ⟨constructors, methods, hmembers⟩ := ih hmore
    exact ⟨constructors, _, .method (hf'.trans hf) (hmodifier.of_sameTokens hsame')
      ⟨hn'.trans hn.1, hn.2⟩ harity hmembers⟩

theorem tokenwise_class (isForeign : Bool) (n : Nat) : Tokenwise (ClassSpelling isForeign) n := by
  rintro _ ls' decl - ⟨hk, hn, ho, h, hc⟩ hsame
  obtain ⟨k, _, rfl, hk', hsame⟩ := hsame.of_cons
  obtain ⟨n, _, rfl, hn', hsame⟩ := hsame.of_cons
  obtain ⟨o, _, rfl, ho', hsame⟩ := hsame.of_cons
  obtain ⟨ls, _, rfl, hsame', hsame⟩ := hsame.of_append
  obtain ⟨c, rfl, hc'⟩ := hsame.of_singleton
  obtain ⟨constructors, methods, hmembers⟩ := h.of_sameTokens hsame'
  exact ⟨_, .mk (hk'.trans hk) ⟨hn'.trans hn.1, hn.2⟩ (ho'.trans ho) hmembers (hc'.trans hc)⟩

theorem tokenwise_does (n : Nat) : Tokenwise Does n := by
  intro ls ls' a _ h hsame
  cases h with
  | importModule hi hs =>
    obtain ⟨i, _, rfl, hi', hsame⟩ := hsame.of_cons
    obtain ⟨s, rfl, hs'⟩ := hsame.of_singleton
    exact ⟨_, .importModule (hi'.trans hi) (hs'.trans hs)⟩
  | importNames hi hs hf h =>
    obtain ⟨i, _, rfl, hi', hsame⟩ := hsame.of_cons
    obtain ⟨s, _, rfl, hs', hsame⟩ := hsame.of_cons
    obtain ⟨f, _, rfl, hf', hsame⟩ := hsame.of_cons
    obtain ⟨names, hnames⟩ := tokenwise_separated (tokenwise_name _) (Nat.le_refl _) h hsame
    exact ⟨_, .importNames (hi'.trans hi) (hs'.trans hs) (hf'.trans hf) hnames⟩
  | introduce hv hn =>
    obtain ⟨v, _, rfl, hv', hsame⟩ := hsame.of_cons
    obtain ⟨n, rfl, hn'⟩ := hsame.of_singleton
    exact ⟨_, .introduce (hv'.trans hv) ⟨hn'.trans hn.1, hn.2⟩⟩
  | define hv hn hq h =>
    obtain ⟨v, _, rfl, hv', hsame⟩ := hsame.of_cons
    obtain ⟨n, _, rfl, hn', hsame⟩ := hsame.of_cons
    obtain ⟨q, _, rfl, hq', hsame⟩ := hsame.of_cons
    obtain ⟨e, he⟩ := tokenwise_expression _ (Nat.le_refl _) h hsame
    exact ⟨_, .define (hv'.trans hv) ⟨hn'.trans hn.1, hn.2⟩ (hq'.trans hq) he⟩
  | declare h =>
    obtain ⟨decl, hdecl⟩ := tokenwise_class false _ (Nat.le_refl _) h hsame
    exact ⟨_, .declare hdecl⟩
  | declareForeign hf h =>
    obtain ⟨f, _, rfl, hf', hsame⟩ := hsame.of_cons
    obtain ⟨decl, hdecl⟩ := tokenwise_class true _ (Nat.le_refl _) h hsame
    exact ⟨_, .declareForeign (hf'.trans hf) hdecl⟩
  | assign hn hq h =>
    obtain ⟨n, _, rfl, hn', hsame⟩ := hsame.of_cons
    obtain ⟨q, _, rfl, hq', hsame⟩ := hsame.of_cons
    obtain ⟨e, he⟩ := tokenwise_expression _ (Nat.le_refl _) h hsame
    exact ⟨_, .assign ⟨hn'.trans hn.1, hn.2⟩ (hq'.trans hq) he⟩
  | evaluate h =>
    obtain ⟨e, he⟩ := tokenwise_expression _ (Nat.le_refl _) h hsame
    exact ⟨_, .evaluate he⟩

/-- **Whether lexemes spell a program is a matter of their tokens.** -/
theorem Spells.of_sameTokens {ls : List Lexeme} {ss : List Statement} (h : Spells ls ss) :
    ∀ {ls' : List Lexeme}, SameTokens ls ls' → ∃ ss', Spells ls' ss' := by
  induction h with
  | nothing =>
    intro ls' hsame
    rw [hsame.of_nil]
    exact ⟨[], .nothing⟩
  | statement h _ _ ih =>
    intro ls' hsame
    obtain ⟨h⟩ := h
    obtain ⟨front, more, rfl, hfront, hmore⟩ := hsame.of_append
    obtain ⟨a, ha⟩ := tokenwise_does _ (Nat.le_refl _) h hfront
    obtain ⟨l, ls, rfl, -⟩ := ha.begins
    obtain ⟨ss, hss⟩ := ih hmore
    exact ⟨_, .statement (.mk ha) trivial hss⟩

end

end ScriptHost.Script.Grammar
