import ScriptHost.Number.Shortest

/-!
# Tokens

A source text is a sequence of lexemes: tokens with the line on which they begin.  `Token.describe`
is the text by which an error message points at a token.
-/

namespace ScriptHost.Script

open Number (Double)

/-- The smallest units of a program. -/
inductive Token where
  /-- A name or a keyword. -/
  | word (name : String)
  /-- A number literal, never negative. -/
  | number (value : Double)
  /-- A string literal with its escapes resolved. -/
  | text (value : String)
  /-- One of the characters in `marks`. -/
  | mark (c : Char)
  deriving DecidableEq, Repr, Inhabited

/-- The characters that are tokens by themselves. -/
def marks : List Char := ['(', ')', '\x7b', '\x7d', '[', ']', ',', '.', '=', '-']

/-- The words that cannot name anything. -/
def keywords : List String :=
  ["class", "construct", "false", "for", "foreign", "import", "null", "static", "true", "var"]

/-- Whether a word is a keyword. -/
def isKeyword (word : String) : Bool := keywords.contains word

/-- A token with the line on which it begins, counted from one. -/
structure Lexeme where
  token : Token
  line : Nat
  deriving DecidableEq, Repr, Inhabited

/-- What an error points at when the program ends too early. -/
def endOfFile : String := "end of file"

/-- A text between apostrophes. -/
def quote (s : String) : String := "'" ++ s ++ "'"

/-- How an error message names a token. -/
def Token.describe : Token → String
  | .word name => quote name
  | .number value => quote value.literalText
  | .text value => quote ("\"" ++ value ++ "\"")
  | .mark c => quote c.toString

end ScriptHost.Script
