import ScriptHost.Proofs.Lexing
import ScriptHost.Proofs.Parsing

/-!
# Literals that are written and read

A `Literal` is a value that a program can spell out: null, a truth value, a text, or a list of
literals.  It is written in some `Style`, which says how its characters are escaped and where it is
spaced, and read back in two steps.  The lexer finds its tokens, whatever else follows it that does not
continue a word (`reads_write`).  They spell an expression of the grammar, whatever lines they are on
(`Literal.expression`), so that the parser reads the program around them.
-/

namespace ScriptHost.Script

/-! ## Literals -/

/-- A value that a program can spell out. -/
inductive Literal where
  | null
  | bool (b : Bool)
  | text (s : String)
  | list (items : List Literal)

/-- The letter of the escape of a character, if there is one. -/
def letter? : Char → Option Char
  | '\n' => some 'n'
  | '\t' => some 't'
  | '\r' => some 'r'
  | '\x00' => some '0'
  | '"' => some '"'
  | '\\' => some '\\'
  | '%' => some '%'
  | _ => none

/-- Whether a character cannot stand for itself in a text.  A NUL could, but no source has one. -/
def needsEscape (c : Char) : Bool := c == '"' || c == '\\' || c == '\x00'

/-- A way to write literals. -/
structure Style where
  /-- Whether a character is escaped that has an escape, but does not need it. -/
  escapes : Char → Bool
  /-- What stands behind the commas of lists. -/
  gap : List Char
  isBlank : ∀ c ∈ gap, Text.isBlank c = true

/-- A character in a text. -/
def Style.glyph (s : Style) (c : Char) : List Char :=
  match letter? c with
  | some e => if needsEscape c || s.escapes c then ['\\', e] else [c]
  | none => [c]

/-- Characters are escaped if they must be, and lists are dense. -/
def Style.plain : Style := ⟨fun _ => false, [], by simp⟩

/-- Characters are escaped if they can be, and lists are spaced. -/
def Style.escaping : Style := ⟨fun _ => true, [' '], List.forall_mem_singleton.2 rfl⟩

namespace Literal

mutual

/-- A literal as a text. -/
def write (s : Style) : Literal → List Char
  | .null => "null".toList
  | .bool b => (if b then "true" else "false").toList
  | .text t => '"' :: (t.toList.flatMap s.glyph ++ ['"'])
  | .list [] => ['[', ']']
  | .list (l :: rest) => '[' :: (l.write s ++ (writeBehind s rest ++ [']']))

/-- Further elements of a list as a text. -/
def writeBehind (s : Style) : List Literal → List Char
  | [] => []
  | l :: rest => ',' :: (s.gap ++ (l.write s ++ writeBehind s rest))

end

/-- The program that defines `x` as a literal. -/
def source (s : Style) (l : Literal) : String := "var x = " ++ String.ofList (l.write s)

example : source .escaping (.list [.text "\"%\n", .bool true]) = "var x = [\"\\\"\\%\\n\", true]" := by
  decide

mutual

/-- The tokens of a literal. -/
def tokens : Literal → List Token
  | .null => [.word "null"]
  | .bool b => [.word (if b then "true" else "false")]
  | .text t => [.text t]
  | .list [] => [.mark '[', .mark ']']
  | .list (l :: rest) => .mark '[' :: (l.tokens ++ (tokensBehind rest ++ [.mark ']']))

/-- The tokens of further elements of a list. -/
def tokensBehind : List Literal → List Token
  | [] => []
  | l :: rest => .mark ',' :: (l.tokens ++ tokensBehind rest)

end

mutual

/-- A literal as an expression. -/
def expr : Literal → Expr
  | .null => .null
  | .bool b => .bool b
  | .text t => .text t
  | .list items => .list (exprs items)

/-- Literals as expressions. -/
def exprs : List Literal → List Expr
  | [] => []
  | l :: rest => l.expr :: exprs rest

end

mutual

/-- How deep the lists of a literal are nested, itself included. -/
def height : Literal → Nat
  | .null | .bool _ | .text _ => 1
  | .list items => heightAll items + 1

/-- The height of the highest of some literals. -/
def heightAll : List Literal → Nat
  | [] => 0
  | l :: rest => max l.height (heightAll rest)

end

theorem height_pos (l : Literal) : 0 < l.height := by
  cases l <;> simp [height]

theorem height_le_heightAll {l : Literal} : ∀ {ls : List Literal}, l ∈ ls → l.height ≤ heightAll ls
  | first :: rest, h => by
    rw [heightAll]
    rcases List.mem_cons.1 h with rfl | h
    · exact Nat.le_max_left _ _
    · exact Nat.le_trans (height_le_heightAll h) (Nat.le_max_right _ _)

end Literal

/-! ## Characters -/

theorem escape?_of_letter? {c e : Char} (h : letter? c = some e) : escape? e = some c := by
  unfold letter? at h
  split at h <;> cases h <;> rfl

/-- A character of a text is escaped, or stands for itself. -/
theorem Style.glyph_cases (s : Style) (c : Char) :
    (∃ e, escape? e = some c ∧ s.glyph c = ['\\', e]) ∨
      (c ≠ '"' ∧ c ≠ '\\' ∧ c ≠ '\x00') ∧ s.glyph c = [c] := by
  unfold Style.glyph
  cases h : letter? c with
  | none =>
    refine Or.inr ⟨⟨?_, ?_, ?_⟩, rfl⟩ <;> rintro rfl <;> cases h
  | some e =>
    dsimp only
    split
    · exact Or.inl ⟨e, escape?_of_letter? h, rfl⟩
    · next hraw => exact Or.inr ⟨by simp_all [needsEscape], rfl⟩

theorem nul_not_mem_glyph (s : Style) (c : Char) : '\x00' ∉ s.glyph c := by
  rcases s.glyph_cases c with ⟨e, he, hglyph⟩ | ⟨⟨-, -, hnul⟩, hglyph⟩ <;> rw [hglyph]
  · rw [List.mem_cons, List.mem_singleton]
    rintro (h | rfl)
    · exact absurd h (by decide)
    · cases he
  · rw [List.mem_singleton]
    exact hnul.symm

theorem nul_not_mem_gap (s : Style) : '\x00' ∉ s.gap := fun h =>
  absurd (s.isBlank _ h) (by decide)

mutual

/-- A NUL is never written as itself. -/
theorem Literal.nul_not_mem_write (s : Style) : ∀ l : Literal, '\x00' ∉ l.write s
  | .null => by simp [Literal.write]
  | .bool b => by cases b <;> simp [Literal.write]
  | .text t => by
    have hglyphs : '\x00' ∉ t.toList.flatMap s.glyph := fun h => by
      obtain ⟨c, -, hc⟩ := List.mem_flatMap.1 h
      exact nul_not_mem_glyph s c hc
    simp [Literal.write, hglyphs]
  | .list [] => by simp [Literal.write]
  | .list (l :: rest) => by
    simp [Literal.write, Literal.nul_not_mem_write s l, Literal.nul_not_mem_writeBehind s rest]

theorem Literal.nul_not_mem_writeBehind (s : Style) : ∀ ls : List Literal,
    '\x00' ∉ Literal.writeBehind s ls
  | [] => by simp [Literal.writeBehind]
  | l :: rest => by
    simp [Literal.writeBehind, nul_not_mem_gap s, Literal.nul_not_mem_write s l,
      Literal.nul_not_mem_writeBehind s rest]

end

theorem Literal.nul_not_mem_source (s : Style) (l : Literal) : '\x00' ∉ (l.source s).toList := by
  have hliteral : (String.ofList (l.write s)).toList = l.write s := String.toList_ofList
  rw [Literal.source, String.toList_append, hliteral, List.mem_append]
  rintro (h | h)
  · exact absurd h (by decide)
  · exact l.nul_not_mem_write s h

/-! ## From text to tokens -/

/-- The lexer reads tokens off the front of a text. -/
def Reads (line : Nat) (cs : List Char) (tokens : List Token) (line' : Nat) (rest : List Char) : Prop :=
  ∃ items, items.map Lexeme.token = tokens ∧ Scans line cs items line' rest

namespace Reads

variable {line line' line'' : Nat} {cs cs' cs'' rest : List Char} {tokens tokens' : List Token}

theorem done (line : Nat) (cs : List Char) : Reads line cs [] line cs := ⟨[], rfl, .done line cs⟩

theorem trans (h : Reads line cs tokens line' cs') (h' : Reads line' cs' tokens' line'' cs'') :
    Reads line cs (tokens ++ tokens') line'' cs'' := by
  obtain ⟨items, rfl, hscans⟩ := h
  obtain ⟨items', rfl, hscans'⟩ := h'
  exact ⟨items ++ items', List.map_append, hscans.trans hscans'⟩

theorem gap (rest : List Char) {gap : List Char} (h : ∀ c ∈ gap, Text.isBlank c = true)
    (line : Nat) : ∃ line', Reads line (gap ++ rest) [] line' rest :=
  ⟨_, [], rfl, .separator rest (separator_of_isBlank h) line⟩

/-- A token is read where it ends. -/
theorem token {t : Token} {written : List Char} (h : Spelling t written)
    (hstops : Stops t written rest) :
    Reads line (written ++ rest) [t] (line + lineEnds written) rest :=
  ⟨[⟨t, line⟩], rfl, .spelling h hstops line⟩

theorem mark {c : Char} (h : c ∈ marks) : Reads line (c :: rest) [.mark c] line rest :=
  ⟨[⟨.mark c, line⟩], rfl, .mark h⟩

/-- A word ends where no character follows that could continue it. -/
theorem word {c : Char} {n : List Char} (hc : isNameStart c = true) (hn : n.all isNamePart = true)
    (hrest : ∀ c ∈ rest.head?, isNamePart c = false) :
    Reads line (c :: (n ++ rest)) [.word (String.ofList (c :: n))] line rest :=
  ⟨[⟨.word (String.ofList (c :: n)), line⟩], rfl, .word hc (List.all_eq_true.1 hn) hrest⟩

end Reads

/-- The characters of a text as a style writes them. -/
theorem glyphs_flatMap (s : Style) : ∀ cs : List Char, Glyphs cs (cs.flatMap s.glyph)
  | [] => .nothing
  | c :: cs => by
    rw [List.flatMap_cons]
    rcases s.glyph_cases c with ⟨e, he, hglyph⟩ | ⟨⟨hquote, hescape, -⟩, hglyph⟩ <;> rw [hglyph]
    · exact .escaped he (glyphs_flatMap s cs)
    · exact .plain hquote hescape (glyphs_flatMap s cs)

theorem reads_text {line : Nat} {rest : List Char} (s : Style) (t : String) :
    ∃ line', Reads line ('"' :: (t.toList.flatMap s.glyph ++ '"' :: rest)) [.text t] line' rest := by
  have hscans : Scans line _ _ _ rest := Scans.text (glyphs_flatMap s t.toList)
  rw [String.ofList_toList] at hscans
  exact ⟨_, [⟨.text t, line⟩], rfl, hscans⟩

/-- Nothing that could continue a word. -/
def EndsWord (rest : List Char) : Prop := ∀ c ∈ rest.head?, isNamePart c = false

theorem endsWord_cons {c : Char} {rest : List Char} (h : isNamePart c = false) :
    EndsWord (c :: rest) := by
  rintro _ ⟨⟩
  exact h

theorem endsWord_behind (s : Style) {rest : List Char} (h : EndsWord rest) :
    ∀ ls : List Literal, EndsWord (Literal.writeBehind s ls ++ rest)
  | [] => by rwa [Literal.writeBehind]
  | l :: ls => by
    rw [Literal.writeBehind]
    exact endsWord_cons (by decide)

mutual

/-- **The tokens of a literal are read back.** -/
theorem reads_write (s : Style) : ∀ (l : Literal) (line : Nat) {rest : List Char}, EndsWord rest →
    ∃ line', Reads line (l.write s ++ rest) l.tokens line' rest
  | .null, line, rest, h => ⟨line, .word (n := ['u', 'l', 'l']) rfl (by decide) h⟩
  | .bool true, line, rest, h => ⟨line, .word (n := ['r', 'u', 'e']) rfl (by decide) h⟩
  | .bool false, line, rest, h =>
    ⟨line, .word (n := ['a', 'l', 's', 'e']) rfl (by decide) h⟩
  | .text t, line, rest, _ => by
    rw [Literal.write, List.cons_append, List.append_assoc, List.singleton_append, Literal.tokens]
    exact reads_text s t
  | .list [], line, rest, _ => by
    rw [Literal.write, Literal.tokens]
    exact ⟨line, (Reads.mark (by decide)).trans (Reads.mark (by decide))⟩
  | .list (l :: ls), line, rest, _ => by
    have hclosing : EndsWord (']' :: rest) := endsWord_cons (by decide)
    obtain ⟨line₁, hfirst⟩ := reads_write s l line (endsWord_behind s hclosing ls)
    obtain ⟨line₂, hothers⟩ := reads_writeBehind s ls line₁ hclosing
    rw [Literal.write, Literal.tokens]
    simp only [List.cons_append, List.append_assoc, List.nil_append]
    have hopen : Reads line ('[' :: (l.write s ++ (Literal.writeBehind s ls ++ ']' :: rest))) [.mark '[']
        line (l.write s ++ (Literal.writeBehind s ls ++ ']' :: rest)) := .mark (by decide)
    have hclose : Reads line₂ (']' :: rest) [.mark ']'] line₂ rest := .mark (by decide)
    exact ⟨line₂, hopen.trans (hfirst.trans (hothers.trans hclose))⟩

theorem reads_writeBehind (s : Style) : ∀ (ls : List Literal) (line : Nat) {rest : List Char},
    EndsWord rest →
      ∃ line', Reads line (Literal.writeBehind s ls ++ rest) (Literal.tokensBehind ls) line' rest
  | [], line, rest, _ => by
    rw [Literal.writeBehind, Literal.tokensBehind]
    exact ⟨line, .done line rest⟩
  | l :: ls, line, rest, h => by
    obtain ⟨line₁, hgap⟩ :=
      Reads.gap (l.write s ++ (Literal.writeBehind s ls ++ rest)) s.isBlank line
    obtain ⟨line₂, hfirst⟩ := reads_write s l line₁ (endsWord_behind s h ls)
    obtain ⟨line₃, hothers⟩ := reads_writeBehind s ls line₂ h
    rw [Literal.writeBehind, Literal.tokensBehind]
    simp only [List.cons_append, List.append_assoc]
    have hcomma : Reads line (',' :: (s.gap ++ (l.write s ++ (Literal.writeBehind s ls ++ rest))))
        [.mark ','] line (s.gap ++ (l.write s ++ (Literal.writeBehind s ls ++ rest))) :=
      .mark (by decide)
    exact ⟨line₃, hcomma.trans (hgap.trans (hfirst.trans hothers))⟩

end

/-- The beginning of such a program. -/
theorem reads_definition (cs : List Char) :
    Reads 1 ("var x = ".toList ++ cs) [.word "var", .word "x", .mark '='] 1 cs := by
  have hblank : ∀ rest, Reads 1 (' ' :: rest) [] 1 rest := fun rest => ⟨[], rfl, .blank rfl⟩
  have hend : ∀ rest, EndsWord (' ' :: rest) := fun _ => endsWord_cons (by decide)
  have hvar : Reads 1 ("var x = ".toList ++ cs) [.word "var"] 1 (" x = ".toList ++ cs) :=
    .word (n := ['a', 'r']) rfl (by decide) (hend _)
  have hname : Reads 1 ('x' :: (" = ".toList ++ cs)) [.word "x"] 1 (" = ".toList ++ cs) :=
    .word (n := []) rfl (by decide) (hend _)
  have hmark : Reads 1 ('=' :: ' ' :: cs) [.mark '='] 1 (' ' :: cs) := .mark (by decide)
  exact hvar.trans ((hblank _).trans (hname.trans ((hblank _).trans (hmark.trans (hblank cs)))))

theorem lexemes_source (s : Style) (l : Literal) : ∃ items lastLine,
    items.map Lexeme.token = .word "var" :: .word "x" :: .mark '=' :: l.tokens ∧
      lexemes (l.source s) = .ok ⟨items, lastLine⟩ := by
  have hend : EndsWord [] := by rintro _ ⟨⟩
  obtain ⟨line', hliteral⟩ := reads_write s l 1 hend
  obtain ⟨items, hitems, hscans⟩ := (reads_definition _).trans hliteral
  refine ⟨items, line', hitems, ?_⟩
  have hlexemes := hscans.lexemesFrom rfl _ (Nat.le_refl _)
  rw [List.append_nil] at hlexemes
  have hsource : (l.source s).toList = "var x = ".toList ++ l.write s := by
    have hliteral : (String.ofList (l.write s)).toList = l.write s := String.toList_ofList
    rw [Literal.source, String.toList_append, hliteral]
  rw [lexemes, hsource]
  exact hlexemes

/-! ## From tokens to statements -/

namespace Literal

open Grammar

mutual

/-- The tokens of a literal spell its expression. -/
theorem primary : ∀ (l : Literal) {items : List Lexeme}, items.map Lexeme.token = l.tokens →
    Primary items l.expr
  | .null, items, h => by
    rw [tokens] at h
    obtain ⟨l, rfl, hl⟩ := List.map_eq_singleton_iff.1 h
    exact .null hl
  | .bool b, items, h => by
    rw [tokens] at h
    obtain ⟨l, rfl, hl⟩ := List.map_eq_singleton_iff.1 h
    exact .bool b hl
  | .text t, items, h => by
    rw [tokens] at h
    obtain ⟨l, rfl, hl⟩ := List.map_eq_singleton_iff.1 h
    exact .text hl
  | .list [], items, h => by
    rw [tokens] at h
    obtain ⟨o, _, rfl, ho, h⟩ := List.map_eq_cons_iff.1 h
    obtain ⟨c, rfl, hc⟩ := List.map_eq_singleton_iff.1 h
    exact .list ho (.empty hc)
  | .list (x :: xs), items, h => by
    rw [tokens] at h
    obtain ⟨o, _, rfl, ho, h⟩ := List.map_eq_cons_iff.1 h
    obtain ⟨first, _, rfl, hfirst, h⟩ := List.map_eq_append_iff.1 h
    obtain ⟨others, _, rfl, hothers, h⟩ := List.map_eq_append_iff.1 h
    obtain ⟨c, rfl, hc⟩ := List.map_eq_singleton_iff.1 h
    have hseparated := separated xs (expression_of_primary (primary x hfirst)) hothers
    rw [← List.append_assoc]
    exact .list ho (.full hseparated hc)

/-- Further elements of a list, behind the first one. -/
theorem separated : ∀ (ls : List Literal) {first others : List Lexeme} {e : Expr},
    Expression first e → others.map Lexeme.token = tokensBehind ls →
      Separated Expression (first ++ others) (e :: exprs ls)
  | [], first, others, e, hfirst, h => by
    obtain rfl := List.map_eq_nil_iff.1 h
    rw [List.append_nil]
    exact .one hfirst
  | l :: ls, first, others, e, hfirst, h => by
    rw [tokensBehind] at h
    obtain ⟨comma, _, rfl, hcomma, h⟩ := List.map_eq_cons_iff.1 h
    obtain ⟨next, others, rfl, hnext, h⟩ := List.map_eq_append_iff.1 h
    exact .more hfirst hcomma (separated ls (expression_of_primary (primary l hnext)) h)

end

theorem expression (l : Literal) {items : List Lexeme} (h : items.map Lexeme.token = l.tokens) :
    Expression items l.expr :=
  expression_of_primary (l.primary h)

end Literal

open Grammar in
/-- **The program that defines `x` as a literal is read as such.** -/
theorem parse_source (s : Style) (l : Literal) : ∃ line,
    parse (l.source s) = .ok [⟨.define "x" l.expr, line⟩] := by
  obtain ⟨items, lastLine, hitems, hlexemes⟩ := lexemes_source s l
  obtain ⟨v, _, rfl, hv, hitems⟩ := List.map_eq_cons_iff.1 hitems
  obtain ⟨n, _, rfl, hn, hitems⟩ := List.map_eq_cons_iff.1 hitems
  obtain ⟨q, value, rfl, hq, hvalue⟩ := List.map_eq_cons_iff.1 hitems
  have hdoes := Does.define hv ⟨hn, by decide⟩ hq (l.expression hvalue)
  have hmeets : Meets (v :: n :: q :: value) [] := fun _ => by simp [firstToken?]
  have hspells := Sequence.statement (.mk hdoes) hmeets .nothing
  rw [List.append_nil] at hspells
  have hstatements : statementsOfLexemes ⟨v :: n :: q :: value, lastLine⟩ =
      .ok [⟨.define "x" l.expr, v.line⟩] := statementsOfLexemes_eq_ok_iff.2 hspells
  refine ⟨v.line, ?_⟩
  rw [parse, hlexemes]
  exact hstatements

end ScriptHost.Script
