import ScriptHost.Proofs.Parsing
import ScriptHost.Proofs.Signatures

/-!
# Printing programs

The tokens of a program, and that parsing them gives the program back.  No parentheses are printed
around an expression, since none is ever needed.  Two things are not in the statements and so not
printed: the lines, and with them everything that only moves a token to another line; and the bodies
and the parameter names of a class, of which a signature keeps only the number.  What comes back is
the program up to its lines (`Statement.unlined`).
-/

namespace ScriptHost

/-! ## Numbers with their sign apart -/

namespace Number.Double

variable {negative : Bool} {p : Nat}

theorem toNat_ofPattern (hp : p < signBit) :
    (ofPattern negative p).bits.toNat = if negative then signBit + p else p := by
  have hsign : signBit = 2 ^ 63 := rfl
  cases negative <;> simp [ofPattern] <;> omega

theorem isNegative_ofPattern (hp : p < signBit) : (ofPattern negative p).isNegative = negative := by
  rw [isNegative, toNat_ofPattern hp]
  cases negative <;> simp [hp]

theorem pattern_ofPattern (hp : p < signBit) : (ofPattern negative p).pattern = p := by
  rw [pattern, toNat_ofPattern hp]
  cases negative <;> simp [Nat.mod_eq_of_lt hp]

theorem ofPattern_pattern (x : Double) : ofPattern x.isNegative x.pattern = x := by
  have hbits := x.bits.toNat_lt
  have hp : x.pattern < signBit := Nat.mod_lt _ (by decide)
  have hsame : (ofPattern x.isNegative x.pattern).bits.toNat = x.bits.toNat := by
    rw [toNat_ofPattern hp]
    have hsign : signBit = 2 ^ 63 := rfl
    by_cases hnegative : signBit ≤ x.bits.toNat
    · rw [isNegative, decide_eq_true hnegative, if_pos rfl, pattern, hsign]
      omega
    · rw [isNegative, decide_eq_false hnegative, if_neg Bool.false_ne_true, pattern, hsign]
      omega
  exact congrArg Double.mk (UInt64.toNat_inj.1 hsame)

/-- The sign flips back. -/
theorem neg_neg (x : Double) : x.neg.neg = x := by
  have hp : x.pattern < signBit := Nat.mod_lt _ (by decide)
  rw [neg, neg, isNegative_ofPattern hp, pattern_ofPattern hp, Bool.not_not, ofPattern_pattern]

end Number.Double

namespace Script

open Grammar

/-! ## The tokens of a program -/

/-- Lists of tokens with commas between them. -/
def commaSeparated : List (List Token) → List Token
  | [] => []
  | [ts] => ts
  | ts :: ts' :: tss => ts ++ .mark ',' :: commaSeparated (ts' :: tss)

mutual

/-- The tokens of an expression. -/
@[simp]
def Expr.tokens : Expr → List Token
  | .null => [.word "null"]
  | .bool b => [.word (if b then "true" else "false")]
  | .number v => if v.isNegative then [.mark '-', .number v.neg] else [.number v]
  | .text s => [.text s]
  | .list es => .mark '[' :: (commaSeparated (Expr.tokensOfEach es) ++ [.mark ']'])
  | .variable w _ => [.word w]
  | .getter receiver w => receiver.tokens ++ [.mark '.', .word w]
  | .call receiver w es =>
    receiver.tokens ++
      .mark '.' :: .word w :: .mark '(' :: (commaSeparated (Expr.tokensOfEach es) ++ [.mark ')'])

/-- The tokens of each of the expressions. -/
@[simp]
def Expr.tokensOfEach : List Expr → List (List Token)
  | [] => []
  | e :: es => e.tokens :: Expr.tokensOfEach es

end

/-- The tokens of names with commas between them. -/
def nameTokens (names : List String) : List Token := commaSeparated (names.map fun w => [.word w])

/-- The tokens of a parameter list.  The names do not matter. -/
def parameterTokens (arity : Nat) : List Token :=
  .mark '(' :: (nameTokens (List.replicate arity "p") ++ [.mark ')'])

/-- A name and a number of parameters with a given signature, if there are any. -/
def splitSignature? (text : String) : Option (String × Nat) :=
  (List.range (text.toList.length + 1)).findSome? fun count =>
    let w := String.ofList (text.toList.take count)
    let arity := (text.toList.drop count).count '_'
    if methodSignature w arity = text ∧ isKeyword w = false then some (w, arity) else none

/-- The tokens of a constructor with an empty body. -/
def constructorTokens (text : String) : List Token :=
  match splitSignature? text with
  | some (w, arity) =>
    .word "construct" :: .word w :: (parameterTokens arity ++ [.mark '\x7b', .mark '\x7d'])
  | none => []

/-- The tokens of a foreign method.  A signature without parameters is the name of a getter. -/
def MethodDecl.tokens (m : MethodDecl) : List Token :=
  .word "foreign" :: ((if m.isStatic then [.word "static"] else []) ++
    match splitSignature? m.signature with
    | some (w, arity) => .word w :: parameterTokens arity
    | none => [.word m.signature])

/-- The tokens of a class from the word `class` on, the constructors first. -/
def ClassDecl.tokens (decl : ClassDecl) : List Token :=
  .word "class" :: .word decl.name :: .mark '\x7b' ::
    (decl.constructors.flatMap constructorTokens ++ (decl.methods.flatMap MethodDecl.tokens ++
      [.mark '\x7d']))

/-- The tokens of a statement. -/
def Action.tokens : Action → List Token
  | .importModule source [] => [.word "import", .text source]
  | .importModule source (w :: ws) =>
    .word "import" :: .text source :: .word "for" :: nameTokens (w :: ws)
  | .define w e => .word "var" :: .word w :: .mark '=' :: e.tokens
  | .assign w e => .word w :: .mark '=' :: e.tokens
  | .declare decl => (if decl.isForeign then [.word "foreign"] else []) ++ decl.tokens
  | .evaluate e => e.tokens

/-- The tokens of a program. -/
def programTokens (ss : List Statement) : List Token := ss.flatMap fun s => s.action.tokens

/-! ## Programs without their lines -/

mutual

/-- An expression with every name on line zero. -/
@[simp]
def Expr.unlined : Expr → Expr
  | .null => .null
  | .bool b => .bool b
  | .number v => .number v
  | .text s => .text s
  | .list es => .list (Expr.unlinedEach es)
  | .variable w _ => .variable w 0
  | .getter receiver w => .getter receiver.unlined w
  | .call receiver w es => .call receiver.unlined w (Expr.unlinedEach es)

/-- Each of the expressions with every name on line zero. -/
@[simp]
def Expr.unlinedEach : List Expr → List Expr
  | [] => []
  | e :: es => e.unlined :: Expr.unlinedEach es

end

/-- What a statement does, with every name on line zero. -/
def Action.unlined : Action → Action
  | .importModule source names => .importModule source names
  | .define w e => .define w e.unlined
  | .assign w e => .assign w e.unlined
  | .declare decl => .declare decl
  | .evaluate e => .evaluate e.unlined

/-- A statement on line zero. -/
def Statement.unlined (s : Statement) : Statement := ⟨s.action.unlined, 0⟩

theorem Expr.tokensOfEach_eq_map : ∀ es : List Expr, tokensOfEach es = es.map tokens
  | [] => rfl
  | e :: es => by rw [tokensOfEach, tokensOfEach_eq_map es, List.map_cons]

theorem Expr.unlinedEach_eq_map : ∀ es : List Expr, unlinedEach es = es.map unlined
  | [] => rfl
  | e :: es => by rw [unlinedEach, unlinedEach_eq_map es, List.map_cons]

/-! ## What the tokens spell -/

section Lists

variable {α β : Type} {P : List Lexeme → α → Prop} {tokens : α → List Token} {keep : α → β}

/-- Lexemes with the tokens of `a` are such an element, up to what `keep` forgets. -/
def PrintsAs (P : List Lexeme → α → Prop) (tokens : α → List Token) (keep : α → β) (a : α) : Prop :=
  ∀ ls : List Lexeme, ls.map Lexeme.token = tokens a → ∃ a', P ls a' ∧ keep a' = keep a

theorem exists_separated : ∀ {as : List α} {ls : List Lexeme}, (∀ a ∈ as, PrintsAs P tokens keep a) →
    as ≠ [] → ls.map Lexeme.token = commaSeparated (as.map tokens) →
      ∃ as', Separated P ls as' ∧ as'.map keep = as.map keep
  | [a], ls, has, _, hls => by
    obtain ⟨a', h, ha⟩ := has a List.mem_cons_self ls hls
    exact ⟨[a'], .one h, by simp [ha]⟩
  | a :: b :: as, ls, has, _, hls => by
    obtain ⟨first, others, rfl, hfirst, hothers⟩ := List.map_eq_append_iff.1 hls
    obtain ⟨comma, others, rfl, hcomma, hothers⟩ := List.map_eq_cons_iff.1 hothers
    obtain ⟨a', h, ha⟩ := has a List.mem_cons_self first hfirst
    obtain ⟨as', h', has'⟩ :=
      exists_separated (fun a h => has a (List.mem_cons_of_mem _ h)) (List.cons_ne_nil b as) hothers
    exact ⟨a' :: as', .more h hcomma h', by rw [List.map_cons, ha, has', ← List.map_cons]⟩

theorem exists_closed {closing : Char} {as : List α} {ls : List Lexeme}
    (has : ∀ a ∈ as, PrintsAs P tokens keep a)
    (hls : ls.map Lexeme.token = commaSeparated (as.map tokens) ++ [.mark closing]) :
    ∃ as', Closed P closing ls as' ∧ as'.map keep = as.map keep := by
  obtain ⟨elements, _, rfl, helements, hclose⟩ := List.map_eq_append_iff.1 hls
  obtain ⟨c, rfl, hc⟩ := List.map_eq_singleton_iff.1 hclose
  by_cases hempty : as = []
  · subst hempty
    obtain rfl := List.map_eq_nil_iff.1 helements
    exact ⟨[], .empty hc, rfl⟩
  · obtain ⟨as', h, ha⟩ := exists_separated has hempty helements
    exact ⟨as', .full h hc, ha⟩

end Lists

/-! ## Expressions -/

namespace Expr

variable {e receiver : Expr} {es : List Expr} {w : String}

/-- Lexemes with the tokens of `e` spell `e`, up to the lines. -/
abbrev Printable : Expr → Prop := PrintsAs Expression tokens unlined

theorem printable_of_primary (h : PrintsAs Primary tokens unlined e) : e.Printable := by
  intro ls hls
  obtain ⟨e', hprimary, he⟩ := h ls hls
  exact ⟨e', expression_of_primary hprimary, he⟩

theorem printable_null : Printable .null := by
  refine printable_of_primary fun ls hls => ?_
  rw [tokens] at hls
  obtain ⟨l, rfl, hl⟩ := List.map_eq_singleton_iff.1 hls
  exact ⟨.null, .null hl, rfl⟩

theorem printable_bool (b : Bool) : Printable (.bool b) := by
  refine printable_of_primary fun ls hls => ?_
  rw [tokens] at hls
  obtain ⟨l, rfl, hl⟩ := List.map_eq_singleton_iff.1 hls
  exact ⟨.bool b, .bool b hl, rfl⟩

theorem printable_text (s : String) : Printable (.text s) := by
  refine printable_of_primary fun ls hls => ?_
  rw [tokens] at hls
  obtain ⟨l, rfl, hl⟩ := List.map_eq_singleton_iff.1 hls
  exact ⟨.text s, .text hl, rfl⟩

theorem printable_number (v : Number.Double) : Printable (.number v) := by
  refine printable_of_primary fun ls hls => ?_
  rw [tokens] at hls
  split at hls
  next =>
    obtain ⟨m, _, rfl, hm, hls⟩ := List.map_eq_cons_iff.1 hls
    obtain ⟨l, rfl, hl⟩ := List.map_eq_singleton_iff.1 hls
    exact ⟨.number v.neg.neg, .negative hm hl, by rw [Number.Double.neg_neg]⟩
  next =>
    obtain ⟨l, rfl, hl⟩ := List.map_eq_singleton_iff.1 hls
    exact ⟨.number v, .number hl, rfl⟩

theorem printable_variable (hw : isKeyword w = false) (line : Nat) :
    Printable (.variable w line) := by
  refine printable_of_primary fun ls hls => ?_
  rw [tokens] at hls
  obtain ⟨l, rfl, hl⟩ := List.map_eq_singleton_iff.1 hls
  exact ⟨.variable w l.line, .variable ⟨hl, hw⟩, by rw [unlined, unlined]⟩

theorem printable_list (hes : ∀ e ∈ es, e.Printable) : Printable (.list es) := by
  refine printable_of_primary fun ls hls => ?_
  rw [tokens, tokensOfEach_eq_map] at hls
  obtain ⟨o, items, rfl, ho, hitems⟩ := List.map_eq_cons_iff.1 hls
  obtain ⟨es', h, he⟩ := exists_closed hes hitems
  refine ⟨.list es', .list ho h, ?_⟩
  rw [unlined, unlined, unlinedEach_eq_map, unlinedEach_eq_map, he]

theorem printable_getter (hreceiver : receiver.Printable) (hw : isKeyword w = false) :
    Printable (.getter receiver w) := by
  intro ls hls
  rw [tokens] at hls
  obtain ⟨front, _, rfl, hfront, hls⟩ := List.map_eq_append_iff.1 hls
  obtain ⟨d, _, rfl, hd, hls⟩ := List.map_eq_cons_iff.1 hls
  obtain ⟨n, rfl, hn⟩ := List.map_eq_singleton_iff.1 hls
  obtain ⟨e', h, he⟩ := hreceiver front hfront
  obtain ⟨hprimary, hsuffixes⟩ := h
  refine ⟨.getter e' w, ?_, by rw [unlined, unlined, he]⟩
  rw [List.append_assoc]
  exact .mk hprimary (hsuffixes.append (.getter hd ⟨hn, hw⟩ (.nothing _)))

theorem printable_call (hreceiver : receiver.Printable) (hw : isKeyword w = false)
    (hes : ∀ e ∈ es, e.Printable) : Printable (.call receiver w es) := by
  intro ls hls
  rw [tokens, tokensOfEach_eq_map] at hls
  obtain ⟨front, _, rfl, hfront, hls⟩ := List.map_eq_append_iff.1 hls
  obtain ⟨d, _, rfl, hd, hls⟩ := List.map_eq_cons_iff.1 hls
  obtain ⟨n, _, rfl, hn, hls⟩ := List.map_eq_cons_iff.1 hls
  obtain ⟨o, arguments, rfl, ho, harguments⟩ := List.map_eq_cons_iff.1 hls
  obtain ⟨e', h, he⟩ := hreceiver front hfront
  obtain ⟨es', hclosed, hes'⟩ := exists_closed hes harguments
  obtain ⟨hprimary, hsuffixes⟩ := h
  refine ⟨.call e' w es', ?_, ?_⟩
  · have hcall := Suffixes.call hd ⟨hn, hw⟩ ho hclosed (.nothing (.call e' w es'))
    rw [List.append_nil] at hcall
    rw [List.append_assoc]
    exact .mk hprimary (hsuffixes.append hcall)
  · rw [unlined, unlined, unlinedEach_eq_map, unlinedEach_eq_map, he, hes']

end Expr

namespace Grammar

mutual

theorem Primary.printable : ∀ {ls : List Lexeme} {e : Expr}, Primary ls e → e.Printable
  | _, _, .number _ | _, _, .negative _ _ => Expr.printable_number _
  | _, _, .text _ => Expr.printable_text _
  | _, _, .bool b _ => Expr.printable_bool b
  | _, _, .null _ => Expr.printable_null
  | _, _, .variable h => Expr.printable_variable h.2 _
  | _, _, .group _ h _ => h.printable
  | _, _, .list _ h => Expr.printable_list (printable_of_elements h)
termination_by structural _ _ h => h

theorem Suffixes.printable : ∀ {e e' : Expr} {ls : List Lexeme}, Suffixes e ls e' → e.Printable →
    e'.Printable
  | _, _, _, .nothing _, he => he
  | _, _, _, .getter _ hn h, he => h.printable (Expr.printable_getter he hn.2)
  | _, _, _, .call _ hn _ harguments h, he =>
    h.printable (Expr.printable_call he hn.2 (printable_of_arguments harguments))
termination_by structural _ _ _ h => h

theorem Expression.printable : ∀ {ls : List Lexeme} {e : Expr}, Expression ls e → e.Printable
  | _, _, .mk h h' => h'.printable h.printable
termination_by structural _ _ h => h

theorem printable_of_elements : ∀ {ls : List Lexeme} {es : List Expr},
    Closed Expression ']' ls es → ∀ e ∈ es, e.Printable
  | _, _, .empty _, _, he => by cases he
  | _, _, .full h _, e, he => printable_of_separated h e he
termination_by structural _ _ h => h

theorem printable_of_arguments : ∀ {ls : List Lexeme} {es : List Expr},
    Closed Expression ')' ls es → ∀ e ∈ es, e.Printable
  | _, _, .empty _, _, he => by cases he
  | _, _, .full h _, e, he => printable_of_separated h e he
termination_by structural _ _ h => h

theorem printable_of_separated : ∀ {ls : List Lexeme} {es : List Expr},
    Separated Expression ls es → ∀ e ∈ es, e.Printable
  | _, _, .one h, e, he => by
    have hfirst := h.printable
    rwa [← List.mem_singleton.1 he] at hfirst
  | _, _, .more h _ h', e, he => by
    have hfirst := h.printable
    have hothers := printable_of_separated h'
    rcases List.mem_cons.1 he with heq | he
    · rwa [← heq] at hfirst
    · exact hothers e he
termination_by structural _ _ h => h

end

end Grammar

/-! ## Classes -/

section Classes

variable {ls : List Lexeme}

theorem printsAs_name {w : String} (hw : isKeyword w = false) :
    PrintsAs Name (fun w => [.word w]) id w := by
  intro ls hls
  obtain ⟨l, rfl, hl⟩ := List.map_eq_singleton_iff.1 hls
  exact ⟨w, .mk ⟨hl, hw⟩, rfl⟩

theorem parameters_of_tokens {arity : Nat} (hls : ls.map Lexeme.token = parameterTokens arity) :
    Parameters ls arity := by
  obtain ⟨o, items, rfl, ho, hitems⟩ := List.map_eq_cons_iff.1 hls
  have hnames : ∀ w ∈ List.replicate arity "p", PrintsAs Name (fun w => [.word w]) id w := by
    intro w hw
    obtain rfl := List.eq_of_mem_replicate hw
    exact printsAs_name (by decide)
  obtain ⟨names, h, hsame⟩ := exists_closed hnames hitems
  have hparameters := Parameters.mk ho h
  rw [List.map_id, List.map_id] at hsame
  rwa [hsame, List.length_replicate] at hparameters

theorem eq_of_splitSignature? {text w : String} {arity : Nat}
    (h : splitSignature? text = some (w, arity)) :
    methodSignature w arity = text ∧ isKeyword w = false := by
  obtain ⟨count, -, hcount⟩ := List.exists_of_findSome?_eq_some h
  simp only at hcount
  split at hcount
  next hsplit =>
    cases hcount
    exact hsplit
  next => cases hcount

theorem toList_methodSignature (w : String) (arity : Nat) :
    ∃ places, (methodSignature w arity).toList = w.toList ++ places ∧ places.count '_' = arity := by
  refine ⟨('(' :: (",".intercalate (List.replicate arity "_")).toList) ++ [')'], ?_, ?_⟩
  · simp [methodSignature]
  · rw [List.count_append, List.count_cons_of_ne (by decide), Machine.count_intercalate_underscores]
    rfl

theorem splitSignature?_ne_none {w : String} (arity : Nat) (hw : isKeyword w = false) :
    splitSignature? (methodSignature w arity) ≠ none := by
  obtain ⟨places, hplaces, hcount⟩ := toList_methodSignature w arity
  intro hnone
  have hlength : w.toList.length ∈ List.range ((methodSignature w arity).toList.length + 1) := by
    rw [hplaces, List.length_append, List.mem_range]
    omega
  have hsplit := List.findSome?_eq_none_iff.1 hnone _ hlength
  simp [hplaces, hcount, hw] at hsplit

/-- The signature of a method that a class may declare. -/
def IsSignature (text : String) : Prop := ∃ w arity?, isKeyword w = false ∧ signature w arity? = text

/-- The signature of a constructor. -/
def IsConstructor (text : String) : Prop :=
  ∃ w arity, isKeyword w = false ∧ methodSignature w arity = text

theorem constructorTokens_eq {text : String} (h : IsConstructor text) :
    ∃ w arity, isKeyword w = false ∧ methodSignature w arity = text ∧ constructorTokens text =
      .word "construct" :: .word w :: (parameterTokens arity ++ [.mark '\x7b', .mark '\x7d']) := by
  obtain ⟨w, arity, hw, rfl⟩ := h
  cases hsplit : splitSignature? (methodSignature w arity) with
  | none => exact absurd hsplit (splitSignature?_ne_none arity hw)
  | some found =>
    obtain ⟨w', arity'⟩ := found
    obtain ⟨hsame, hw'⟩ := eq_of_splitSignature? hsplit
    exact ⟨w', arity', hw', hsame, by rw [constructorTokens, hsplit]⟩

/-- The tokens of a parameter list, if there is one. -/
def arityTokens : Option Nat → List Token
  | none => []
  | some arity => parameterTokens arity

theorem MethodDecl.tokens_eq {m : MethodDecl} (h : IsSignature m.signature) :
    ∃ w arity?, isKeyword w = false ∧ Script.signature w arity? = m.signature ∧ m.tokens =
      .word "foreign" :: ((if m.isStatic then [.word "static"] else []) ++
        .word w :: arityTokens arity?) := by
  cases hsplit : splitSignature? m.signature with
  | some found =>
    obtain ⟨w, arity⟩ := found
    obtain ⟨hsame, hw⟩ := eq_of_splitSignature? hsplit
    exact ⟨w, some arity, hw, hsame, by rw [MethodDecl.tokens, hsplit]; rfl⟩
  | none =>
    obtain ⟨w, arity?, hw, hsame⟩ := h
    cases arity? with
    | some arity =>
      rw [← hsame] at hsplit
      exact absurd hsplit (splitSignature?_ne_none arity hw)
    | none =>
      refine ⟨w, none, hw, hsame, ?_⟩
      rw [MethodDecl.tokens, hsplit, ← hsame]
      rfl

theorem Grammar.Members.signatures {constructors : List String} {methods : List MethodDecl}
    (h : Members ls constructors methods) :
    (∀ text ∈ constructors, IsConstructor text) ∧ ∀ m ∈ methods, IsSignature m.signature := by
  induction h with
  | nothing => simp
  | constructor _ hn _ _ _ _ _ ih =>
    exact ⟨List.forall_mem_cons.2 ⟨⟨_, _, hn.2, rfl⟩, ih.1⟩, ih.2⟩
  | method _ _ hn _ _ ih => exact ⟨ih.1, List.forall_mem_cons.2 ⟨⟨_, _, hn.2, rfl⟩, ih.2⟩⟩

theorem members_of_methods : ∀ {methods : List MethodDecl} {ls : List Lexeme},
    (∀ m ∈ methods, IsSignature m.signature) →
      ls.map Lexeme.token = methods.flatMap MethodDecl.tokens → Members ls [] methods
  | [], ls, _, hls => by
    obtain rfl := List.map_eq_nil_iff.1 hls
    exact .nothing
  | m :: methods, ls, hm, hls => by
    obtain ⟨w, arity?, hw, hsame, htokens⟩ := MethodDecl.tokens_eq (hm m List.mem_cons_self)
    rw [List.flatMap_cons, htokens, List.cons_append, List.append_assoc] at hls
    obtain ⟨f, items, rfl, hf, hls⟩ := List.map_eq_cons_iff.1 hls
    obtain ⟨modifier, items, rfl, hmodifier, hls⟩ := List.map_eq_append_iff.1 hls
    obtain ⟨n, items, rfl, hn, hls⟩ := List.map_eq_cons_iff.1 hls
    obtain ⟨arity, items, rfl, harity, hls⟩ := List.map_eq_append_iff.1 hls
    have hrest := members_of_methods (fun m h => hm m (List.mem_cons_of_mem _ h)) hls
    have hstatic : Modifier modifier m.isStatic := by
      cases hm : m.isStatic with
      | true =>
        rw [hm] at hmodifier
        obtain ⟨l, rfl, hl⟩ := List.map_eq_singleton_iff.1 hmodifier
        exact .static hl
      | false =>
        rw [hm] at hmodifier
        obtain rfl := List.map_eq_nil_iff.1 hmodifier
        exact .none
    have hparameters : Arity arity arity? := by
      cases arity? with
      | none =>
        obtain rfl := List.map_eq_nil_iff.1 harity
        exact .none
      | some count => exact .some (parameters_of_tokens harity)
    have hmember := Members.method hf hstatic ⟨hn, hw⟩ hparameters hrest
    rwa [hsame] at hmember

theorem members_of_constructors {behind : List Lexeme} {methods : List MethodDecl}
    (hbehind : Members behind [] methods) : ∀ {constructors : List String} {ls : List Lexeme},
      (∀ text ∈ constructors, IsConstructor text) →
        ls.map Lexeme.token = constructors.flatMap constructorTokens →
          Members (ls ++ behind) constructors methods
  | [], ls, _, hls => by
    obtain rfl := List.map_eq_nil_iff.1 hls
    exact hbehind
  | text :: constructors, ls, htext, hls => by
    obtain ⟨w, arity, hw, rfl, htokens⟩ := constructorTokens_eq (htext text List.mem_cons_self)
    rw [List.flatMap_cons, htokens] at hls
    simp only [List.cons_append, List.append_assoc, List.nil_append] at hls
    obtain ⟨k, items, rfl, hk, hls⟩ := List.map_eq_cons_iff.1 hls
    obtain ⟨n, items, rfl, hn, hls⟩ := List.map_eq_cons_iff.1 hls
    obtain ⟨parameters, items, rfl, hparameters, hls⟩ := List.map_eq_append_iff.1 hls
    obtain ⟨o, items, rfl, ho, hls⟩ := List.map_eq_cons_iff.1 hls
    obtain ⟨c, items, rfl, hc, hls⟩ := List.map_eq_cons_iff.1 hls
    have hrest := members_of_constructors hbehind
      (fun text h => htext text (List.mem_cons_of_mem _ h)) hls
    have hmember := Members.constructor hk ⟨hn, hw⟩ (parameters_of_tokens hparameters) ho .nothing hc
      hrest
    simpa using hmember

/-- Lexemes with the tokens of a class spell the class. -/
theorem class_of_tokens {isForeign : Bool} {decl : ClassDecl} {items : List Lexeme}
    (h : ClassSpelling isForeign items decl) (hls : ls.map Lexeme.token = decl.tokens) :
    ClassSpelling isForeign ls decl := by
  obtain ⟨-, hw, -, hmembers, -⟩ := h
  obtain ⟨k, _, rfl, hk, hls⟩ := List.map_eq_cons_iff.1 hls
  obtain ⟨n, _, rfl, hn, hls⟩ := List.map_eq_cons_iff.1 hls
  obtain ⟨o, _, rfl, ho, hls⟩ := List.map_eq_cons_iff.1 hls
  obtain ⟨constructors, _, rfl, hconstructors, hls⟩ := List.map_eq_append_iff.1 hls
  obtain ⟨methods, _, rfl, hmethods, hls⟩ := List.map_eq_append_iff.1 hls
  obtain ⟨c, rfl, hc⟩ := List.map_eq_singleton_iff.1 hls
  have hall := members_of_constructors (members_of_methods hmembers.signatures.2 hmethods)
    hmembers.signatures.1 hconstructors
  rw [← List.append_assoc]
  exact .mk hk ⟨hn, hw.2⟩ ho hall hc

end Classes

/-! ## Programs -/

/-- No parenthesis is printed before an expression. -/
theorem Expr.tokens_eq_cons : ∀ e : Expr, ∃ t ts, e.tokens = t :: ts ∧ t ≠ .mark '('
  | .null | .bool _ | .text _ | .list _ | .variable _ _ => by
    rw [Expr.tokens]
    exact ⟨_, _, rfl, by simp⟩
  | .number v => by
    rw [Expr.tokens]
    split <;> exact ⟨_, _, rfl, by simp⟩
  | .getter receiver _ | .call receiver _ _ => by
    obtain ⟨t, ts, htokens, ht⟩ := receiver.tokens_eq_cons
    rw [Expr.tokens, htokens]
    exact ⟨t, _, rfl, ht⟩

theorem Action.tokens_eq_cons (a : Action) : ∃ t ts, a.tokens = t :: ts ∧ t ≠ .mark '(' := by
  cases a with
  | importModule source names => cases names <;> exact ⟨_, _, rfl, by simp⟩
  | define | assign => exact ⟨_, _, rfl, by simp⟩
  | declare decl =>
    rw [Action.tokens]
    split <;> exact ⟨_, _, rfl, by simp⟩
  | evaluate e => exact e.tokens_eq_cons

theorem Grammar.Separated.no_keyword {ls : List Lexeme} {names : List String}
    (h : Separated Name ls names) : names ≠ [] ∧ ∀ w ∈ names, isKeyword w = false := by
  induction h with
  | one h =>
    obtain ⟨h⟩ := h
    simpa using h.2
  | more h _ _ ih =>
    obtain ⟨h⟩ := h
    exact ⟨List.cons_ne_nil _ _, List.forall_mem_cons.2 ⟨h.2, ih.2⟩⟩

/-- Lexemes with the tokens of a statement spell it, up to the lines. -/
theorem Grammar.Does.printsAs {items : List Lexeme} {a : Action} (h : Does items a) :
    PrintsAs Does Action.tokens Action.unlined a := by
  intro ls hls
  cases h with
  | importModule =>
    obtain ⟨i, _, rfl, hi, hls⟩ := List.map_eq_cons_iff.1 hls
    obtain ⟨s, rfl, hs⟩ := List.map_eq_singleton_iff.1 hls
    exact ⟨_, .importModule hi hs, rfl⟩
  | @importNames _ _ _ source _ names _ _ _ h =>
    obtain ⟨hnames, hkeyword⟩ := h.no_keyword
    have htokens : (Action.importModule source names).tokens =
        .word "import" :: .text source :: .word "for" :: nameTokens names := by
      cases names with
      | nil => exact absurd rfl hnames
      | cons => rfl
    rw [htokens] at hls
    obtain ⟨i, _, rfl, hi, hls⟩ := List.map_eq_cons_iff.1 hls
    obtain ⟨s, _, rfl, hs, hls⟩ := List.map_eq_cons_iff.1 hls
    obtain ⟨f, _, rfl, hf, hls⟩ := List.map_eq_cons_iff.1 hls
    obtain ⟨names', h', hsame⟩ := exists_separated (fun w hw => printsAs_name (hkeyword w hw)) hnames hls
    rw [List.map_id, List.map_id] at hsame
    exact ⟨_, .importNames hi hs hf h', by rw [hsame]⟩
  | introduce _ hn =>
    obtain ⟨v, _, rfl, hv, hls⟩ := List.map_eq_cons_iff.1 hls
    obtain ⟨n, _, rfl, hn', hls⟩ := List.map_eq_cons_iff.1 hls
    obtain ⟨q, _, rfl, hq, hls⟩ := List.map_eq_cons_iff.1 hls
    obtain ⟨e, h, he⟩ := Expr.printable_null _ hls
    exact ⟨_, .define hv ⟨hn', hn.2⟩ hq h, by rw [Action.unlined, he, Action.unlined]⟩
  | define _ hn _ h =>
    obtain ⟨v, _, rfl, hv, hls⟩ := List.map_eq_cons_iff.1 hls
    obtain ⟨n, _, rfl, hn', hls⟩ := List.map_eq_cons_iff.1 hls
    obtain ⟨q, _, rfl, hq, hls⟩ := List.map_eq_cons_iff.1 hls
    obtain ⟨e, h, he⟩ := h.printable _ hls
    exact ⟨_, .define hv ⟨hn', hn.2⟩ hq h, by rw [Action.unlined, he, Action.unlined]⟩
  | declare h =>
    obtain @⟨_, _, _, _, _, _, _, _, _, _, _, _, _⟩ := id h
    exact ⟨_, .declare (class_of_tokens h hls), rfl⟩
  | declareForeign _ h =>
    obtain @⟨_, _, _, _, _, _, _, _, _, _, _, _, _⟩ := id h
    obtain ⟨f, _, rfl, hf, hls⟩ := List.map_eq_cons_iff.1 hls
    exact ⟨_, .declareForeign hf (class_of_tokens h hls), rfl⟩
  | assign hn _ h =>
    obtain ⟨n, _, rfl, hn', hls⟩ := List.map_eq_cons_iff.1 hls
    obtain ⟨q, _, rfl, hq, hls⟩ := List.map_eq_cons_iff.1 hls
    obtain ⟨e, h, he⟩ := h.printable _ hls
    exact ⟨_, .assign ⟨hn', hn.2⟩ hq h, by rw [Action.unlined, he, Action.unlined]⟩
  | evaluate h =>
    obtain ⟨e, h, he⟩ := h.printable _ hls
    exact ⟨_, .evaluate h, by rw [Action.unlined, he, Action.unlined]⟩

/-- Lexemes with the tokens of a program spell it, up to the lines. -/
theorem spellsGreedily_of_tokens {items : List Lexeme} {ss : List Statement}
    (h : SpellsGreedily items ss) : ∀ {ls : List Lexeme}, ls.map Lexeme.token = programTokens ss →
      ∃ ss', SpellsGreedily ls ss' ∧ ss'.map Statement.unlined = ss.map Statement.unlined := by
  induction h with
  | nothing =>
    intro ls hls
    obtain rfl := List.map_eq_nil_iff.1 hls
    exact ⟨[], .nothing, rfl⟩
  | @statement _ _ s ss h _ _ ih =>
    intro ls hls
    obtain ⟨h⟩ := h
    rw [programTokens, List.flatMap_cons] at hls
    obtain ⟨first, rest, rfl, hfirst, hrest⟩ := List.map_eq_append_iff.1 hls
    obtain ⟨a', hdoes, ha⟩ := h.printsAs first hfirst
    obtain ⟨ss', hmore, hsame⟩ := ih hrest
    have hmeets : Meets first rest := by
      intro _ hopen
      cases ss with
      | nil =>
        obtain rfl := List.map_eq_nil_iff.1 hrest
        cases hopen
      | cons s ss =>
        obtain ⟨t, ts, htokens, ht⟩ := s.action.tokens_eq_cons
        rw [List.flatMap_cons, htokens] at hrest
        obtain ⟨l, _, rfl, hl, -⟩ := List.map_eq_cons_iff.1 hrest
        exact ht (hl.symm.trans (Option.some.inj hopen))
    obtain ⟨l, first, rfl, -⟩ := hdoes.begins
    refine ⟨⟨a', l.line⟩ :: ss', .statement (.mk hdoes) hmeets hmore, ?_⟩
    rw [List.map_cons, List.map_cons, hsame, Statement.unlined, Statement.unlined, ha]

/-- **The parser and the grammar.**  A program parses if and only if its lexemes spell statements in
some way; it is parsed as the statements that they spell greedily; and its tokens, printed and parsed
again, give the same statements up to the lines. -/
theorem programs_parsed :
    (∀ ls : Lexemes, (∃ ss, statementsOfLexemes ls = .ok ss) ↔ ∃ ss, Spells ls.items ss) ∧
    (∀ (ls : Lexemes) (ss : List Statement),
      statementsOfLexemes ls = .ok ss ↔ SpellsGreedily ls.items ss) ∧
    ∀ (ls ls' : Lexemes) (ss : List Statement), statementsOfLexemes ls = .ok ss →
      ls'.items.map Lexeme.token = programTokens ss →
        ∃ ss', statementsOfLexemes ls' = .ok ss' ∧
          ss'.map Statement.unlined = ss.map Statement.unlined := by
  refine ⟨fun ls => exists_statementsOfLexemes_iff, fun ls ss => statementsOfLexemes_eq_ok_iff, ?_⟩
  intro ls ls' ss h htokens
  obtain ⟨ss', hspells, hsame⟩ :=
    spellsGreedily_of_tokens (statementsOfLexemes_eq_ok_iff.1 h) htokens
  exact ⟨ss', statementsOfLexemes_eq_ok_iff.2 hspells, hsame⟩

/-- `foreign class P { construct new(a) { } foreign y } P.y`, and on the next line `(x) [-1]`. -/
def pointProgram : Lexemes :=
  ⟨[⟨.word "foreign", 1⟩, ⟨.word "class", 1⟩, ⟨.word "P", 1⟩, ⟨.mark '\x7b', 1⟩, ⟨.word "construct", 1⟩,
    ⟨.word "new", 1⟩, ⟨.mark '(', 1⟩, ⟨.word "a", 1⟩, ⟨.mark ')', 1⟩, ⟨.mark '\x7b', 1⟩,
    ⟨.mark '\x7d', 1⟩, ⟨.word "foreign", 1⟩, ⟨.word "y", 1⟩, ⟨.mark '\x7d', 1⟩, ⟨.word "P", 1⟩,
    ⟨.mark '.', 1⟩, ⟨.word "y", 1⟩, ⟨.mark '(', 2⟩, ⟨.word "x", 2⟩, ⟨.mark ')', 2⟩, ⟨.mark '[', 2⟩,
    ⟨.mark '-', 2⟩, ⟨.number ⟨0x3FF0000000000000⟩, 2⟩, ⟨.mark ']', 2⟩], 2⟩

/-- The call reaches over the end of the line. -/
def pointStatements : List Statement :=
  [⟨.declare ⟨"P", true, ["new(_)"], [⟨false, "y"⟩]⟩, 1⟩,
    ⟨.evaluate (.call (.variable "P" 1) "y" [.variable "x" 2]), 1⟩,
    ⟨.evaluate (.list [.number ⟨0xBFF0000000000000⟩]), 2⟩]

/-- The tokens of these statements on one line. -/
def pointReprint : Lexemes := ⟨(programTokens pointStatements).map fun t => ⟨t, 7⟩, 7⟩

theorem programs_parsed_reprinted :
    (statementsOfLexemes pointProgram = .ok pointStatements ∧
      pointReprint.items.map Lexeme.token = programTokens pointStatements) ∧
    ∃ ss', statementsOfLexemes pointReprint = .ok ss' ∧
      ss'.map Statement.unlined = pointStatements.map Statement.unlined := by
  have hparse : statementsOfLexemes pointProgram = .ok pointStatements := rfl
  have htokens : pointReprint.items.map Lexeme.token = programTokens pointStatements := rfl
  exact ⟨⟨hparse, htokens⟩, programs_parsed.2.2 _ _ _ hparse htokens⟩

end Script

end ScriptHost
