import ScriptHost.Script.Lexer
import ScriptHost.Script.Program

/-!
# From tokens to statements

A recursive descent over the lexemes of a module, with one token of lookahead, or two where a
`foreign` or a name begins a statement.  Every error points at the token at which the parser stands.
Statements need no separator: each is as long as it can be.

Nesting is bounded by `fuel`, which `Program.ofLexemes` sets from the number of lexemes, since every
nested expression stands behind a token of its own.
-/

namespace ScriptHost.Script

/-- The lexemes still to be read, and the line on which the text ends. -/
structure Cursor where
  rest : List Lexeme
  lastLine : Nat
  deriving DecidableEq, Repr

/-- A parser reads lexemes from the front, or fails. -/
abbrev Parser (α : Type) := StateT Cursor (Except CompileError) α

/-- The next token, `none` at the end. -/
def Cursor.token? (c : Cursor) : Option Token := c.rest.head?.map Lexeme.token

/-- The token behind the next one. -/
def Cursor.second? (c : Cursor) : Option Token := c.rest.tail.head?.map Lexeme.token

/-- The line of the next token, or the last line at the end. -/
def Cursor.line (c : Cursor) : Nat := (c.rest.head?.map Lexeme.line).getD c.lastLine

/-- How an error names the next token. -/
def Cursor.near (c : Cursor) : String := c.token?.elim endOfFile Token.describe

namespace Parser

/-- Fails at the next token. -/
def fail {α : Type} (reason : Reason) : Parser α := do
  let c ← get
  throw ⟨c.line, c.near, reason⟩

/-- Fails at the next token because it is not the expected one. -/
def missing {α : Type} (what : Expectation) : Parser α := fail (.expected what)

/-- The next token. -/
def peek : Parser (Option Token) := do return (← get).token?

/-- Moves behind the next token; stays at the end. -/
def advance : Parser Unit := modify fun c => { c with rest := c.rest.tail }

/-- Whether the next token is the mark `c`. -/
def atMark (c : Char) : Parser Bool := do return (← peek) == some (.mark c)

/-- Whether the next token is the word `w`. -/
def atWord (w : String) : Parser Bool := do return (← peek) == some (.word w)

/-- Moves behind the mark `c`. -/
def mark (c : Char) (what : Expectation) : Parser Unit := do
  if ← atMark c then advance else missing what

/-- Reads a name, that is, a word that is no keyword. -/
def name (what : Expectation) : Parser String := do
  match ← peek with
  | some (.word w) =>
    if isKeyword w then missing what
    else
      advance
      return w
  | _ => missing what

/-- Reads `p`, and again behind each comma, at most `fuel` times more. -/
def commaListFrom {α : Type} (p : Parser α) : Nat → Parser (List α)
  | 0 => do return [← p]
  | fuel + 1 => do
    let first ← p
    if ← atMark ',' then
      advance
      return first :: (← commaListFrom p fuel)
    else return [first]

/-- Reads one or more `p` with commas between them. -/
def commaList {α : Type} (p : Parser α) : Parser (List α) := do
  commaListFrom p (← get).rest.length

/-- Reads a possibly empty list of `p` up to the mark `closing`, and that mark. -/
def closedList {α : Type} (p : Parser α) (closing : Char) (what : Expectation) :
    Parser (List α) := do
  let items ← if ← atMark closing then pure [] else commaList p
  mark closing what
  return items

/-- Reads a primary expression, given the parser of the expressions nested in it. -/
def primary (nested : Parser Expr) : Parser Expr := do
  let line := (← get).line
  match ← peek with
  | some (.number value) =>
    advance
    return .number value
  | some (.text value) =>
    advance
    return .text value
  | some (.mark '-') =>
    advance
    let operand ← peek
    advance
    match operand with
    | some (.number value) => return .number value.neg
    | _ => missing .negatedNumber
  | some (.mark '(') =>
    advance
    let inner ← nested
    mark ')' .groupClosing
    return inner
  | some (.mark '[') =>
    advance
    return .list (← closedList nested ']' .listClosing)
  | some (.word "true") =>
    advance
    return .bool true
  | some (.word "false") =>
    advance
    return .bool false
  | some (.word "null") =>
    advance
    return .null
  | some (.word w) =>
    if isKeyword w then missing .expression
    else
      advance
      return .variable w line
  | _ => missing .expression

/-- Reads the method calls behind `receiver`, at most `fuel` of them. -/
def suffixesFrom (nested : Parser Expr) : Nat → Expr → Parser Expr
  | 0, receiver => return receiver
  | fuel + 1, receiver => do
    if ← atMark '.' then
      advance
      let method ← name .memberName
      if ← atMark '(' then
        advance
        let arguments ← closedList nested ')' .argumentClosing
        suffixesFrom nested fuel (.call receiver method arguments)
      else suffixesFrom nested fuel (.getter receiver method)
    else return receiver

/-- Reads an expression in which at most `fuel` expressions are nested in each other. -/
def expressionWithin : Nat → Parser Expr
  | 0 => missing .expression
  | fuel + 1 => do
    let first ← primary (expressionWithin fuel)
    suffixesFrom (expressionWithin fuel) (← get).rest.length first

/-- Reads an expression. -/
def expression : Parser Expr := do expressionWithin ((← get).rest.length + 1)

/-- Reads a parameter list and returns the number of its names. -/
def parameters : Parser Nat := do
  mark '(' .parameterOpening
  return (← closedList (name .parameterName) ')' .parameterClosing).length

/-- The lexemes behind a body in which `depth` braces are open, if they are all closed. -/
def afterBody? : Nat → List Lexeme → Option (List Lexeme)
  | 0, rest => some rest
  | _ + 1, [] => none
  | depth + 1, l :: rest =>
    if l.token == .mark '\x7b' then afterBody? (depth + 2) rest
    else if l.token == .mark '\x7d' then afterBody? depth rest
    else afterBody? (depth + 1) rest

/-- Skips a body in balanced braces. -/
def body : Parser Unit := do
  mark '\x7b' .bodyOpening
  match afterBody? 1 (← get).rest with
  | some rest => modify fun c => { c with rest := rest }
  | none =>
    modify fun c => { c with rest := [] }
    missing .bodyClosing

/-- Reads the members of `decl` up to the closing brace, at most `fuel` of them. -/
def membersFrom : Nat → ClassDecl → Parser ClassDecl
  | 0, _ => fail .unsupportedMember
  | fuel + 1, decl => do
    match ← peek with
    | some (.mark '\x7d') =>
      advance
      return decl
    | none => missing .classClosing
    | some (.word "construct") =>
      advance
      let constructor ← name .constructorName
      let arity ← parameters
      body
      membersFrom fuel
        { decl with constructors := decl.constructors ++ [methodSignature constructor arity] }
    | some (.word "foreign") =>
      advance
      let isStatic ← atWord "static"
      if isStatic then advance
      let method ← name .methodName
      let arity? ← if ← atMark '(' then some <$> parameters else pure none
      membersFrom fuel
        { decl with methods := decl.methods ++ [⟨isStatic, signature method arity?⟩] }
    | _ => fail .unsupportedMember

/-- Reads a class declaration from the word `class` on. -/
def classDecl (isForeign : Bool) : Parser ClassDecl := do
  advance
  let className ← name .className
  mark '\x7b' .classOpening
  membersFrom ((← get).rest.length + 1) ⟨className, isForeign, [], []⟩

/-- Reads what a statement does. -/
def action : Parser Action := do
  if ← atWord "import" then
    advance
    match ← peek with
    | some (.text source) =>
      advance
      if ← atWord "for" then
        advance
        return .importModule source (← commaList (name .variableName))
      else return .importModule source []
    | _ => missing .importSource
  else if ← atWord "var" then
    advance
    let target ← name .variableName
    if ← atMark '=' then
      advance
      return .define target (← expression)
    else return .define target .null
  else if ← atWord "class" then
    return .declare (← classDecl false)
  else
    let c ← get
    match c.token?, c.second? with
    | some (.word "foreign"), some (.word "class") =>
      advance
      return .declare (← classDecl true)
    | some (.word w), some (.mark '=') =>
      if isKeyword w then return .evaluate (← expression)
      else
        advance
        advance
        return .assign w (← expression)
    | _, _ => return .evaluate (← expression)

/-- Reads a statement. -/
def statement : Parser Statement := do
  let line := (← get).line
  return ⟨← action, line⟩

/-- Reads statements to the end, at most `fuel` of them. -/
def statementsFrom : Nat → Parser (List Statement)
  | 0 => return []
  | fuel + 1 => do
    match ← peek with
    | none => return []
    | some _ =>
      let first ← statement
      return first :: (← statementsFrom fuel)

end Parser

/-- The statements that the lexemes of a module spell. -/
def statementsOfLexemes (ls : Lexemes) : Except CompileError (List Statement) :=
  (Parser.statementsFrom ls.items.length ⟨ls.items, ls.lastLine⟩).map Prod.fst

/-- The statements of a source text. -/
def parse (source : String) : Except CompileError (List Statement) := do
  statementsOfLexemes (← lexemes source)

end ScriptHost.Script
