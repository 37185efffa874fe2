import ScriptHost.Script.CompileError
import ScriptHost.Text.Blank

/-!
# From text to tokens

`step` reads one lexeme, one comment or one blank from the front of a text; `lexemes` repeats it to
the end.  Each step leaves less text than it was given, so as many steps as there are characters are
enough (`lexemes`).  A token carries the line on which it begins, also when a string literal goes on
over several lines.
-/

namespace ScriptHost.Script

open Number (Double)

/-- What one step of the lexer makes of the front of a text. -/
structure Scanned where
  /-- The lexeme that was read, `none` for blanks and comments. -/
  lexeme? : Option Lexeme
  /-- The line on which the rest begins. -/
  line : Nat
  rest : List Char

/-- Whether a character begins a name. -/
def isNameStart (c : Char) : Bool := c.isAlpha || c == '_'

/-- Whether a character continues a name. -/
def isNamePart (c : Char) : Bool := c.isAlphanum || c == '_'

/-- The number of the next line behind a character. -/
def lineAfter (line : Nat) (c : Char) : Nat := if c == '\n' then line + 1 else line

/-- The text behind a block comment and its line, given the character before it; `none` if the text
ends first, with the line on which it ends. -/
def afterComment (line : Nat) (previous : Char) : List Char → Nat × Option (List Char)
  | [] => (line, none)
  | c :: rest =>
    if c == '/' && previous == '*' then (line, some rest)
    else afterComment (lineAfter line c) c rest

/-- The character that an escape stands for. -/
def escape? : Char → Option Char
  | 'n' => some '\n'
  | 't' => some '\t'
  | 'r' => some '\r'
  | '0' => some '\x00'
  | '"' => some '"'
  | '\\' => some '\\'
  | '%' => some '%'
  | _ => none

/-- The rest of a string literal behind its opening quote: its characters in order, the line of its
closing quote and the text behind that. -/
def stringBody (line : Nat) : List Char → Except CompileError (List Char × Nat × List Char)
  | [] => .error ⟨line, endOfFile, .unterminatedText⟩
  | '"' :: rest => .ok ([], line, rest)
  | '\\' :: [] => .error ⟨line, endOfFile, .invalidEscape⟩
  | '\\' :: c :: rest =>
    match escape? c with
    | none => .error ⟨line, quote c.toString, .invalidEscape⟩
    | some e => (stringBody line rest).map fun r => (e :: r.1, r.2)
  | c :: rest => (stringBody (lineAfter line c) rest).map fun r => (c :: r.1, r.2)

/-- The number that a string of decimal digits denotes. -/
def decimalValue (ds : List Char) : Nat :=
  ds.foldl (fun n d => 10 * n + (d.toNat - '0'.toNat)) 0

/-- A number literal at the front of a text: digits, and a point with further digits if a digit
follows the point. -/
def number (cs : List Char) : Double × List Char :=
  let whole := cs.takeWhile Char.isDigit
  let rest := cs.dropWhile Char.isDigit
  match rest with
  | '.' :: d :: more =>
    if d.isDigit then
      let places := (d :: more).takeWhile Char.isDigit
      (.ofDecimal (decimalValue (whole ++ places)) places.length,
        (d :: more).dropWhile Char.isDigit)
    else (.ofDecimal (decimalValue whole) 0, rest)
  | _ => (.ofDecimal (decimalValue whole) 0, rest)

/-- Reads one lexeme, comment or blank from the text `c :: rest`, which begins on line `line`. -/
def step (line : Nat) (c : Char) (rest : List Char) : Except CompileError Scanned :=
  if c == '\n' then .ok ⟨none, line + 1, rest⟩
  else if Text.isBlank c then .ok ⟨none, line, rest⟩
  else if c == '/' then
    match rest with
    | '/' :: more => .ok ⟨none, line, more.dropWhile (· != '\n')⟩
    | '*' :: more =>
      match afterComment line '\x00' more with
      | (line', some rest') => .ok ⟨none, line', rest'⟩
      | (line', none) => .error ⟨line', endOfFile, .unterminatedComment⟩
    | _ => .error ⟨line, quote "/", .operator⟩
  else if c.isDigit then
    let (value, rest') := number (c :: rest)
    .ok ⟨some ⟨.number value, line⟩, line, rest'⟩
  else if c == '"' then do
    let (cs, line', rest') ← stringBody line rest
    .ok ⟨some ⟨.text (String.ofList cs), line⟩, line', rest'⟩
  else if isNameStart c then
    let name := (c :: rest).takeWhile isNamePart
    .ok ⟨some ⟨.word (String.ofList name), line⟩, line, (c :: rest).dropWhile isNamePart⟩
  else if marks.contains c then .ok ⟨some ⟨.mark c, line⟩, line, rest⟩
  else .error ⟨line, quote c.toString, .invalidCharacter c⟩

/-- The tokens of a program and the line on which its text ends. -/
structure Lexemes where
  items : List Lexeme
  lastLine : Nat
  deriving DecidableEq, Repr

/-- The lexemes of a text that begins on line `line`, in at most `fuel` steps. -/
def lexemesFrom : Nat → Nat → List Char → Except CompileError Lexemes
  | _, line, [] => .ok ⟨[], line⟩
  | 0, line, _ :: _ => .ok ⟨[], line⟩
  | fuel + 1, line, c :: rest => do
    let s ← step line c rest
    let tail ← lexemesFrom fuel s.line s.rest
    .ok ⟨s.lexeme?.toList ++ tail.items, tail.lastLine⟩

/-- The lexemes of a source text. -/
def lexemes (source : String) : Except CompileError Lexemes :=
  lexemesFrom source.toList.length 1 source.toList

end ScriptHost.Script
