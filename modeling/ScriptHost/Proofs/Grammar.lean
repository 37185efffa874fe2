import ScriptHost.Script.Program

/-!
# The grammar of programs

What a list of lexemes spells: an expression, the members of a class, a statement, a program.  Each
relation has one rule for each production of the grammar, and says what the lexemes mean besides.

The grammar is ambiguous in one place.  A statement may end in the name of a method, and the next one
begin with a parenthesis, which could as well begin the arguments of the method.  A program is spelled
greedily if no statement ends before its arguments (`Grammar.Meets`).  Nothing is lost by that
(`Grammar.Spells.greedy`).
-/

namespace ScriptHost.Script

/-- A word that is no keyword. -/
def Lexeme.Names (l : Lexeme) (w : String) : Prop := l.token = .word w ∧ isKeyword w = false

/-- The first token of a list. -/
def firstToken? (ls : List Lexeme) : Option Token := ls.head?.map Lexeme.token

theorem firstToken?_append {ls : List Lexeme} {t : Token} (h : firstToken? ls = some t)
    (rest : List Lexeme) : firstToken? (ls ++ rest) = some t := by
  cases ls with
  | nil => cases h
  | cons l ls => exact h

namespace Grammar

variable {α : Type}

/-! ## Expressions -/

/-- Elements with commas between them. -/
inductive Separated (P : List Lexeme → α → Prop) : List Lexeme → List α → Prop
  | one {ls : List Lexeme} {a : α} (h : P ls a) : Separated P ls [a]
  | more {ls ls' : List Lexeme} {comma : Lexeme} {a : α} {as : List α} (h : P ls a)
      (hcomma : comma.token = .mark ',') (h' : Separated P ls' as) :
      Separated P (ls ++ comma :: ls') (a :: as)

/-- Any number of elements with commas between them, and the mark `closing`. -/
inductive Closed (P : List Lexeme → α → Prop) (closing : Char) : List Lexeme → List α → Prop
  | empty {c : Lexeme} (hc : c.token = .mark closing) : Closed P closing [c] []
  | full {ls : List Lexeme} {c : Lexeme} {as : List α} (h : Separated P ls as)
      (hc : c.token = .mark closing) : Closed P closing (ls ++ [c]) as

mutual

/-- A primary expression. -/
inductive Primary : List Lexeme → Expr → Prop
  | number {l : Lexeme} {v : Number.Double} (h : l.token = .number v) : Primary [l] (.number v)
  | negative {m l : Lexeme} {v : Number.Double} (hm : m.token = .mark '-') (h : l.token = .number v) :
      Primary [m, l] (.number v.neg)
  | text {l : Lexeme} {s : String} (h : l.token = .text s) : Primary [l] (.text s)
  | bool {l : Lexeme} (b : Bool) (h : l.token = .word (if b then "true" else "false")) :
      Primary [l] (.bool b)
  | null {l : Lexeme} (h : l.token = .word "null") : Primary [l] .null
  | variable {l : Lexeme} {w : String} (h : l.Names w) : Primary [l] (.variable w l.line)
  | group {o c : Lexeme} {ls : List Lexeme} {e : Expr} (ho : o.token = .mark '(')
      (h : Expression ls e) (hc : c.token = .mark ')') : Primary (o :: (ls ++ [c])) e
  | list {o : Lexeme} {ls : List Lexeme} {es : List Expr} (ho : o.token = .mark '[')
      (h : Closed Expression ']' ls es) : Primary (o :: ls) (.list es)

/-- Calls of methods, one after the other, the first of them on an expression. -/
inductive Suffixes : Expr → List Lexeme → Expr → Prop
  | nothing (e : Expr) : Suffixes e [] e
  | getter {d n : Lexeme} {w : String} {ls : List Lexeme} {e e' : Expr} (hd : d.token = .mark '.')
      (hn : n.Names w) (h : Suffixes (.getter e w) ls e') : Suffixes e (d :: n :: ls) e'
  | call {d n o : Lexeme} {w : String} {arguments ls : List Lexeme} {e e' : Expr} {es : List Expr}
      (hd : d.token = .mark '.') (hn : n.Names w) (ho : o.token = .mark '(')
      (harguments : Closed Expression ')' arguments es) (h : Suffixes (.call e w es) ls e') :
      Suffixes e (d :: n :: o :: (arguments ++ ls)) e'

/-- An expression. -/
inductive Expression : List Lexeme → Expr → Prop
  | mk {ls ls' : List Lexeme} {e e' : Expr} (h : Primary ls e) (h' : Suffixes e ls' e') :
      Expression (ls ++ ls') e'

end

/-! ## Classes -/

/-- A name. -/
inductive Name : List Lexeme → String → Prop
  | mk {l : Lexeme} {w : String} (h : l.Names w) : Name [l] w

/-- A parameter list and the number of its names. -/
inductive Parameters : List Lexeme → Nat → Prop
  | mk {o : Lexeme} {ls : List Lexeme} {names : List String} (ho : o.token = .mark '(')
      (h : Closed Name ')' ls names) : Parameters (o :: ls) names.length

/-- Lexemes in which each brace is closed. -/
inductive Balanced : List Lexeme → Prop
  | nothing : Balanced []
  | other {l : Lexeme} {ls : List Lexeme} (ho : l.token ≠ .mark '\x7b') (hc : l.token ≠ .mark '\x7d')
      (h : Balanced ls) : Balanced (l :: ls)
  | braces {o c : Lexeme} {ls ls' : List Lexeme} (ho : o.token = .mark '\x7b') (h : Balanced ls)
      (hc : c.token = .mark '\x7d') (h' : Balanced ls') : Balanced (o :: (ls ++ c :: ls'))

/-- The word that makes a method static, or nothing. -/
inductive Modifier : List Lexeme → Bool → Prop
  | none : Modifier [] false
  | static {l : Lexeme} (h : l.token = .word "static") : Modifier [l] true

/-- A parameter list, or nothing. -/
inductive Arity : List Lexeme → Option Nat → Prop
  | none : Arity [] none
  | some {ls : List Lexeme} {arity : Nat} (h : Parameters ls arity) : Arity ls (some arity)

/-- The members of a class: the signatures of its constructors, and its methods. -/
inductive Members : List Lexeme → List String → List MethodDecl → Prop
  | nothing : Members [] [] []
  | constructor {k n o c : Lexeme} {w : String} {parameters body ls : List Lexeme} {arity : Nat}
      {constructors : List String} {methods : List MethodDecl} (hk : k.token = .word "construct")
      (hn : n.Names w) (hparameters : Parameters parameters arity) (ho : o.token = .mark '\x7b')
      (hbody : Balanced body) (hc : c.token = .mark '\x7d') (h : Members ls constructors methods) :
      Members (k :: n :: (parameters ++ o :: (body ++ c :: ls)))
        (methodSignature w arity :: constructors) methods
  | method {f n : Lexeme} {w : String} {modifier parameters ls : List Lexeme} {isStatic : Bool}
      {arity? : Option Nat} {constructors : List String} {methods : List MethodDecl}
      (hf : f.token = .word "foreign") (hmodifier : Modifier modifier isStatic) (hn : n.Names w)
      (hparameters : Arity parameters arity?) (h : Members ls constructors methods) :
      Members (f :: (modifier ++ n :: (parameters ++ ls))) constructors
        (⟨isStatic, signature w arity?⟩ :: methods)

/-- A class, from the word `class` on. -/
inductive ClassSpelling (isForeign : Bool) : List Lexeme → ClassDecl → Prop
  | mk {k n o c : Lexeme} {w : String} {ls : List Lexeme} {constructors : List String}
      {methods : List MethodDecl} (hk : k.token = .word "class") (hn : n.Names w)
      (ho : o.token = .mark '\x7b') (h : Members ls constructors methods)
      (hc : c.token = .mark '\x7d') :
      ClassSpelling isForeign (k :: n :: o :: (ls ++ [c])) ⟨w, isForeign, constructors, methods⟩

/-! ## Statements -/

/-- What a statement does. -/
inductive Does : List Lexeme → Action → Prop
  | importModule {i s : Lexeme} {source : String} (hi : i.token = .word "import")
      (hs : s.token = .text source) : Does [i, s] (.importModule source [])
  | importNames {i s f : Lexeme} {source : String} {ls : List Lexeme} {names : List String}
      (hi : i.token = .word "import") (hs : s.token = .text source) (hf : f.token = .word "for")
      (h : Separated Name ls names) : Does (i :: s :: f :: ls) (.importModule source names)
  | introduce {v n : Lexeme} {w : String} (hv : v.token = .word "var") (hn : n.Names w) :
      Does [v, n] (.define w .null)
  | define {v n q : Lexeme} {w : String} {ls : List Lexeme} {e : Expr} (hv : v.token = .word "var")
      (hn : n.Names w) (hq : q.token = .mark '=') (h : Expression ls e) :
      Does (v :: n :: q :: ls) (.define w e)
  | declare {ls : List Lexeme} {decl : ClassDecl} (h : ClassSpelling false ls decl) :
      Does ls (.declare decl)
  | declareForeign {f : Lexeme} {ls : List Lexeme} {decl : ClassDecl}
      (hf : f.token = .word "foreign") (h : ClassSpelling true ls decl) :
      Does (f :: ls) (.declare decl)
  | assign {n q : Lexeme} {w : String} {ls : List Lexeme} {e : Expr} (hn : n.Names w)
      (hq : q.token = .mark '=') (h : Expression ls e) : Does (n :: q :: ls) (.assign w e)
  | evaluate {ls : List Lexeme} {e : Expr} (h : Expression ls e) : Does ls (.evaluate e)

/-- A statement, with the line of its first token. -/
inductive Spelled : List Lexeme → Statement → Prop
  | mk {l : Lexeme} {ls : List Lexeme} {a : Action} (h : Does (l :: ls) a) :
      Spelled (l :: ls) ⟨a, l.line⟩

/-- Statements one after the other.  `Meets` says between which lexemes a statement may end. -/
inductive Sequence (Meets : List Lexeme → List Lexeme → Prop) : List Lexeme → List Statement → Prop
  | nothing : Sequence Meets [] []
  | statement {ls rest : List Lexeme} {s : Statement} {ss : List Statement} (h : Spelled ls s)
      (hmeets : Meets ls rest) (hrest : Sequence Meets rest ss) :
      Sequence Meets (ls ++ rest) (s :: ss)

/-- Lexemes that spell statements, in any way. -/
abbrev Spells : List Lexeme → List Statement → Prop := Sequence fun _ _ => True

/-- The last lexemes are a point and a word. -/
def EndsInName (ls : List Lexeme) : Prop :=
  ∃ front d n w, ls = front ++ [d, n] ∧ d.token = .mark '.' ∧ n.token = .word w

/-- What follows does not begin with the arguments of a method whose name comes last. -/
def Meets (ls rest : List Lexeme) : Prop := EndsInName ls → firstToken? rest ≠ some (.mark '(')

/-- Lexemes that spell statements, each of them with all arguments that could be its own. -/
abbrev SpellsGreedily : List Lexeme → List Statement → Prop := Sequence Meets

/-! ## Lexemes that end in the name of a method -/

section EndsInName

variable {l l' : Lexeme} {ls ls' : List Lexeme}

theorem not_endsInName_nil : ¬ EndsInName [] := by
  rintro ⟨front, d, n, w, h, -⟩
  simp at h

theorem EndsInName.of_cons (h : EndsInName (l :: ls)) (hl : l.token ≠ .mark '.') :
    EndsInName ls := by
  obtain ⟨front, d, n, w, hls, hd, hn⟩ := h
  cases front with
  | nil =>
    cases hls
    exact absurd hd hl
  | cons x front =>
    cases hls
    exact ⟨front, d, n, w, rfl, hd, hn⟩

theorem EndsInName.cons (h : EndsInName ls) (l : Lexeme) : EndsInName (l :: ls) := by
  obtain ⟨front, d, n, w, rfl, hd, hn⟩ := h
  exact ⟨l :: front, d, n, w, rfl, hd, hn⟩

theorem not_endsInName_singleton (l : Lexeme) : ¬ EndsInName [l] := by
  rintro ⟨front, d, n, w, h, -⟩
  have hlength := congrArg List.length h
  simp at hlength

/-- The last lexeme is the name. -/
theorem not_endsInName_concat (ls : List Lexeme) (hl : ∀ w, l.token ≠ .word w) : ¬ EndsInName (ls ++ [l]) := by
  rintro ⟨front, d, n, w, h, -, hn⟩
  have hfront : ls ++ [l] = (front ++ [d]) ++ [n] := by simpa using h
  obtain rfl := List.singleton_inj.1 (List.append_inj_right' hfront rfl)
  exact hl w hn

/-- What stands further ahead does not matter. -/
theorem endsInName_append (ls : List Lexeme) (h : 2 ≤ ls'.length) : EndsInName (ls ++ ls') ↔ EndsInName ls' := by
  constructor
  · rintro ⟨front, d, n, w, hls, hd, hn⟩
    rcases List.append_eq_append_iff.1 hls with ⟨back, -, rfl⟩ | ⟨back, -, hback⟩
    · exact ⟨back, d, n, w, rfl, hd, hn⟩
    · have hlength := congrArg List.length hback
      have hnone : back = [] := List.eq_nil_of_length_eq_zero (by simp at hlength; omega)
      rw [hnone, List.nil_append] at hback
      exact ⟨[], d, n, w, hback.symm, hd, hn⟩
  · rintro ⟨front, d, n, w, rfl, hd, hn⟩
    exact ⟨ls ++ front, d, n, w, by simp, hd, hn⟩

theorem EndsInName.of_append (ls : List Lexeme) (h : EndsInName (ls ++ l :: ls')) (hl : ∀ w, l.token ≠ .word w) :
    EndsInName (l :: ls') := by
  cases ls' with
  | nil => exact absurd h (not_endsInName_concat ls hl)
  | cons => exact (endsInName_append ls (by simp)).1 h

theorem EndsInName.exists_point (h : EndsInName ls) : ∃ d ∈ ls, d.token = .mark '.' := by
  obtain ⟨front, d, n, w, rfl, hd, -⟩ := h
  exact ⟨d, by simp, hd⟩

end EndsInName

theorem not_endsInName_names {ls : List Lexeme} {names : List String} (h : Separated Name ls names) :
    ¬ EndsInName ls := by
  suffices hpoint : ∀ d ∈ ls, d.token ≠ .mark '.' by
    intro hends
    obtain ⟨d, hd, hmark⟩ := hends.exists_point
    exact hpoint d hd hmark
  induction h with
  | one h =>
    obtain ⟨hw, -⟩ := h
    simp [hw]
  | more h hcomma _ ih =>
    obtain ⟨hw, -⟩ := h
    simpa [hw, hcomma] using ih

theorem ClassSpelling.not_endsInName {isForeign : Bool} {ls : List Lexeme} {decl : ClassDecl}
    (h : ClassSpelling isForeign ls decl) : ¬ EndsInName ls := by
  obtain @⟨k, n, o, c, _, ls, _, _, _, _, _, _, hc⟩ := h
  exact not_endsInName_concat (k :: n :: o :: ls) (by simp [hc])

/-! ## How expressions and statements begin and end -/

/-- The tokens with which an expression begins. -/
def Opens : Token → Prop
  | .word w => w = "true" ∨ w = "false" ∨ w = "null" ∨ isKeyword w = false
  | .mark c => c = '-' ∨ c = '(' ∨ c = '['
  | .number _ | .text _ => True

theorem Primary.opens {ls : List Lexeme} {e : Expr} (h : Primary ls e) :
    ∃ l ls', ls = l :: ls' ∧ Opens l.token := by
  cases h with
  | number h | negative h _ | text h | null h | group h _ _ | list h _ =>
    exact ⟨_, _, rfl, by simp [h, Opens]⟩
  | bool b h => exact ⟨_, _, rfl, by cases b <;> simp [h, Opens]⟩
  | «variable» h => exact ⟨_, _, rfl, by simp [h.1, h.2, Opens]⟩

theorem expression_of_primary {ls : List Lexeme} {e : Expr} (h : Primary ls e) : Expression ls e := by
  have hexpression := Expression.mk h (.nothing e)
  rwa [List.append_nil] at hexpression

theorem Expression.opens {ls : List Lexeme} {e : Expr} (h : Expression ls e) :
    ∃ l ls', ls = l :: ls' ∧ Opens l.token := by
  obtain ⟨h, -⟩ := h
  obtain ⟨l, ls', rfl, hl⟩ := h.opens
  exact ⟨l, _, rfl, hl⟩

theorem Closed.ne_nil {P : List Lexeme → α → Prop} {closing : Char} {ls : List Lexeme} {as : List α}
    (h : Closed P closing ls as) : ls ≠ [] := by
  cases h <;> simp

theorem Primary.ne_nil {ls : List Lexeme} {e : Expr} (h : Primary ls e) : ls ≠ [] := by
  obtain ⟨l, ls', rfl, -⟩ := h.opens
  exact List.cons_ne_nil l ls'

theorem Expression.ne_nil {ls : List Lexeme} {e : Expr} (h : Expression ls e) : ls ≠ [] := by
  obtain ⟨l, ls', rfl, -⟩ := h.opens
  exact List.cons_ne_nil l ls'

theorem Parameters.ne_nil {ls : List Lexeme} {arity : Nat} (h : Parameters ls arity) : ls ≠ [] := by
  cases h
  simp

theorem Closed.not_endsInName {P : List Lexeme → α → Prop} {closing : Char} {ls : List Lexeme}
    {as : List α} (h : Closed P closing ls as) (front : List Lexeme) : ¬ EndsInName (front ++ ls) := by
  cases h with
  | empty hc => exact not_endsInName_concat _ (by simp [hc])
  | full _ hc =>
    rw [← List.append_assoc]
    exact not_endsInName_concat _ (by simp [hc])

theorem Primary.not_endsInName {ls : List Lexeme} {e : Expr} (h : Primary ls e) :
    ¬ EndsInName ls := by
  cases h with
  | number | text | bool | null | «variable» => exact not_endsInName_singleton _
  | negative hm h =>
    intro hends
    exact not_endsInName_singleton _ (hends.of_cons (by simp [hm]))
  | @group o c ls _ _ _ hc => exact not_endsInName_concat (o :: ls) (by simp [hc])
  | @list o _ _ _ h => exact h.not_endsInName [o]

theorem Suffixes.two_le_length {e e' : Expr} {ls : List Lexeme} (h : Suffixes e ls e')
    (hls : ls ≠ []) : 2 ≤ ls.length := by
  cases h with
  | nothing => exact absurd rfl hls
  | getter => simp
  | call => simp

theorem Suffixes.first {e e' : Expr} {ls : List Lexeme} (h : Suffixes e ls e') :
    ls = [] ∨ firstToken? ls = some (.mark '.') := by
  cases h with
  | nothing => exact .inl rfl
  | getter hd | call hd => exact .inr (congrArg some hd)

/-- Behind a word, an expression goes on with calls of methods only. -/
theorem Expression.behind_word {l : Lexeme} {items ls : List Lexeme} {e : Expr} {w : String}
    (h : Expression items e) (hitems : items = l :: ls) (hl : l.token = .word w) :
    ls = [] ∨ firstToken? ls = some (.mark '.') := by
  obtain ⟨h, hsuffixes⟩ := h
  cases h with
  | number h | negative h _ | text h | group h _ _ | list h _ =>
    cases hitems
    rw [h] at hl
    cases hl
  | bool | null | «variable» =>
    cases hitems
    exact hsuffixes.first

/-- Behind other lexemes, calls of methods end in a name as they do alone. -/
theorem endsInName_suffixes {front ls : List Lexeme} {e e' : Expr} (hfront : ¬ EndsInName front)
    (h : Suffixes e ls e') : EndsInName (front ++ ls) ↔ EndsInName ls := by
  by_cases hls : ls = []
  · rw [hls, List.append_nil]
    exact iff_of_false hfront not_endsInName_nil
  · exact endsInName_append _ (h.two_le_length hls)

theorem endsInName_getter {d n : Lexeme} {w : String} {ls : List Lexeme} {e e' : Expr}
    (hd : d.token = .mark '.') (hn : n.Names w) (h : Suffixes e ls e') :
    EndsInName (d :: n :: ls) ↔ ls = [] ∨ EndsInName ls := by
  by_cases hls : ls = []
  · rw [hls]
    exact iff_of_true ⟨[], d, n, w, rfl, hd, hn.1⟩ (.inl rfl)
  · rw [or_iff_right hls]
    exact endsInName_append [d, n] (h.two_le_length hls)

/-- The tokens with which a statement could go on. -/
def continuations : List Token := [.mark '.', .mark ',', .mark '=', .word "for"]

theorem Opens.not_mem_continuations {t : Token} (h : Opens t) : t ∉ continuations := by
  intro hmem
  simp only [continuations, List.mem_cons, List.not_mem_nil, or_false] at hmem
  rcases hmem with rfl | rfl | rfl | rfl <;> revert h <;> unfold Opens <;> decide

/-- No statement begins with a token with which one could go on. -/
theorem Does.begins {ls : List Lexeme} {a : Action} (h : Does ls a) :
    ∃ l ls', ls = l :: ls' ∧ l.token ∉ continuations := by
  cases h with
  | importModule h _ | importNames h _ _ _ | introduce h _ | define h _ _ _ | declareForeign h _ =>
    exact ⟨_, _, rfl, by rw [h]; decide⟩
  | declare h =>
    obtain ⟨h, -, -, -, -⟩ := h
    exact ⟨_, _, rfl, by rw [h]; decide⟩
  | assign h _ _ =>
    exact ⟨_, _, rfl, Opens.not_mem_continuations (by rw [h.1]; exact .inr (.inr (.inr h.2)))⟩
  | evaluate h =>
    obtain ⟨l, ls', rfl, hl⟩ := h.opens
    exact ⟨l, ls', rfl, hl.not_mem_continuations⟩

/-! ## Every program is spelled greedily -/

theorem Suffixes.append : ∀ {e e' e'' : Expr} {ls ls' : List Lexeme}, Suffixes e ls e' →
    Suffixes e' ls' e'' → Suffixes e (ls ++ ls') e''
  | _, _, _, _, _, .nothing _, h' => h'
  | _, _, _, _, _, .getter hd hn h, h' => .getter hd hn (h.append h')
  | _, _, _, _, _, .call hd hn ho harguments h, h' => by
    have hmore := Suffixes.call hd hn ho harguments (h.append h')
    simpa using hmore

/-- The same calls can be made on any expression. -/
theorem Suffixes.exists_on : ∀ {e e' : Expr} {ls : List Lexeme}, Suffixes e ls e' →
    ∀ f : Expr, ∃ f', Suffixes f ls f'
  | _, _, _, .nothing _, f => ⟨f, .nothing f⟩
  | _, _, _, @Suffixes.getter _ _ w _ _ _ hd hn h, f =>
    have ⟨f', hf⟩ := h.exists_on (.getter f w)
    ⟨f', .getter hd hn hf⟩
  | _, _, _, @Suffixes.call _ _ _ w _ _ _ _ es hd hn ho harguments h, f =>
    have ⟨f', hf⟩ := h.exists_on (.call f w es)
    ⟨f', .call hd hn ho harguments hf⟩

/-- Arguments may follow the name of a method. -/
theorem Suffixes.exists_call {o : Lexeme} {arguments : List Lexeme} {es : List Expr}
    (ho : o.token = .mark '(') (harguments : Closed Expression ')' arguments es) :
    ∀ {e e' : Expr} {ls : List Lexeme}, Suffixes e ls e' → EndsInName ls →
      ∃ e'', Suffixes e (ls ++ o :: arguments) e''
  | _, _, _, .nothing _, hends => absurd hends not_endsInName_nil
  | e, _, _, .getter hd hn h, hends => by
    rcases (endsInName_getter hd hn h).1 hends with rfl | hrest
    · have hcall := Suffixes.call hd hn ho harguments (.nothing (.call e _ es))
      rw [List.append_nil] at hcall
      exact ⟨_, hcall⟩
    · have ⟨e'', h''⟩ := h.exists_call ho harguments hrest
      exact ⟨e'', .getter hd hn h''⟩
  | e, _, _, .call (d := d) (n := n) (o := o') hd hn ho' hfirst h, hends => by
    have hrest := (endsInName_suffixes (hfirst.not_endsInName [d, n, o']) h).1 hends
    have ⟨e'', h''⟩ := h.exists_call ho harguments hrest
    have hcall := Suffixes.call hd hn ho' hfirst h''
    exact ⟨e'', by simpa using hcall⟩

/-- An expression in parentheses may be the argument of the method whose name stands before it. -/
theorem Expression.exists_join {ls ls' : List Lexeme} {e e' : Expr} (h : Expression ls e)
    (hends : EndsInName ls) (h' : Expression ls' e') (hls : firstToken? ls' = some (.mark '(')) :
    ∃ f, Expression (ls ++ ls') f := by
  obtain @⟨front, back, _, _, hprimary, hsuffixes⟩ := h
  obtain ⟨hgroup, hbehind⟩ := h'
  cases hgroup with
  | group ho hinner hc =>
    have hname := (endsInName_suffixes hprimary.not_endsInName hsuffixes).1 hends
    have ⟨f, hcall⟩ := hsuffixes.exists_call ho (.full (.one hinner) hc) hname
    have ⟨f', hmore⟩ := hbehind.exists_on f
    have hjoined := Expression.mk hprimary (hcall.append hmore)
    exact ⟨f', by simpa using hjoined⟩
  | number h | negative h _ | text h | bool _ h | null h | list h _ => simp [firstToken?, h] at hls
  | «variable» h => simp [firstToken?, h.1] at hls

/-- A statement that ends in a name may take an expression in parentheses behind it for arguments. -/
theorem Does.exists_join {ls ls' : List Lexeme} {a : Action} {e : Expr} (h : Does ls a)
    (hends : EndsInName ls) (h' : Expression ls' e) (hls : firstToken? ls' = some (.mark '(')) :
    ∃ b, Does (ls ++ ls') b := by
  cases h with
  | importModule hi hs =>
    exact absurd (hends.of_cons (by simp [hi])) (not_endsInName_singleton _)
  | importNames hi hs hf hnames =>
    have hends := ((hends.of_cons (by simp [hi])).of_cons (by simp [hs])).of_cons (by simp [hf])
    exact absurd hends (not_endsInName_names hnames)
  | introduce hv hn =>
    exact absurd (hends.of_cons (by simp [hv])) (not_endsInName_singleton _)
  | define hv hn hq h =>
    have hends := ((hends.of_cons (by simp [hv])).of_cons (by simp [hn.1])).of_cons (by simp [hq])
    have ⟨f, hjoined⟩ := h.exists_join hends h' hls
    exact ⟨_, .define hv hn hq hjoined⟩
  | declare hdecl => exact absurd hends hdecl.not_endsInName
  | declareForeign hf hdecl => exact absurd (hends.of_cons (by simp [hf])) hdecl.not_endsInName
  | assign hn hq h =>
    have hends := (hends.of_cons (by simp [hn.1])).of_cons (by simp [hq])
    have ⟨f, hjoined⟩ := h.exists_join hends h' hls
    exact ⟨_, .assign hn hq hjoined⟩
  | evaluate h =>
    have ⟨f, hjoined⟩ := h.exists_join hends h' hls
    exact ⟨_, .evaluate hjoined⟩

/-- Only an expression begins with a parenthesis. -/
theorem Does.expression {ls : List Lexeme} {a : Action} (h : Does ls a)
    (hls : firstToken? ls = some (.mark '(')) : ∃ e, Expression ls e := by
  cases h with
  | evaluate h => exact ⟨_, h⟩
  | importModule h _ | importNames h _ _ _ | introduce h _ | define h _ _ _ | declareForeign h _ =>
    simp [firstToken?, h] at hls
  | assign h _ _ => simp [firstToken?, h.1] at hls
  | declare h =>
    obtain ⟨h, -, -, -, -⟩ := h
    simp [firstToken?, h] at hls

theorem SpellsGreedily.spells {ls : List Lexeme} {ss : List Statement} (h : SpellsGreedily ls ss) :
    Spells ls ss := by
  induction h with
  | nothing => exact .nothing
  | statement h _ _ ih => exact .statement h trivial ih

/-- The first token of a program continues nothing. -/
theorem SpellsGreedily.begins {ls : List Lexeme} {ss : List Statement} (h : SpellsGreedily ls ss) :
    ∀ t ∈ continuations, firstToken? ls ≠ some t := by
  intro t ht hfirst
  cases h with
  | nothing => cases hfirst
  | statement h _ _ =>
    obtain ⟨h⟩ := h
    obtain ⟨l, ls', hls, hl⟩ := h.begins
    cases hls
    cases hfirst
    exact hl ht

/-- **What spells a program spells one greedily.** -/
theorem Spells.greedy {ls : List Lexeme} {ss : List Statement} (h : Spells ls ss) :
    ∃ ss', SpellsGreedily ls ss' := by
  induction h with
  | nothing => exact ⟨[], .nothing⟩
  | @statement ls rest s ss h _ _ ih =>
    obtain ⟨ss', hrest⟩ := ih
    by_cases hmeets : Meets ls rest
    · exact ⟨s :: ss', .statement h hmeets hrest⟩
    · obtain ⟨hends, hopen⟩ := Classical.not_imp.1 hmeets
      have hopen := Decidable.not_not.1 hopen
      -- the statement behind is an expression in parentheses, which this one takes for arguments
      obtain _ | @⟨ls', rest', s', ss', h', hmeets', hrest'⟩ := hrest
      · cases hopen
      · obtain ⟨h⟩ := h
        obtain @⟨l', ls', a', h'⟩ := h'
        obtain ⟨e, hexpression⟩ := h'.expression hopen
        obtain ⟨b, hjoined⟩ := h.exists_join hends hexpression hopen
        have hmark : l'.token = .mark '(' := Option.some.inj hopen
        have hgreedy := Sequence.statement (Spelled.mk hjoined)
          (fun h => hmeets' (h.of_append (_ :: _) (by simp [hmark]))) hrest'
        exact ⟨_, by simpa using hgreedy⟩

end Grammar

end ScriptHost.Script
