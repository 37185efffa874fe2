import ScriptHost.Script.Token

/-!
# Compile errors

A text that is not a program is refused with one error: a reason, the line, and the token or
character it points at.
-/

namespace ScriptHost.Script

/-- What a program was expected to go on with. -/
inductive Expectation where
  | importSource
  | variableName
  | className
  | classOpening
  | classClosing
  | constructorName
  | methodName
  | parameterOpening
  | parameterName
  | parameterClosing
  | bodyOpening
  | bodyClosing
  | memberName
  | argumentClosing
  | negatedNumber
  | groupClosing
  | listClosing
  | expression
  deriving DecidableEq, Repr

/-- The wording of an expectation. -/
def Expectation.describe : Expectation → String
  | .importSource => "a string after 'import'"
  | .variableName => "variable name"
  | .className => "class name"
  | .classOpening => "'\x7b' after class declaration"
  | .classClosing => "'\x7d' after class body"
  | .constructorName => "constructor name after 'construct'"
  | .methodName => "method name"
  | .parameterOpening => "'(' after method name"
  | .parameterName => "parameter name"
  | .parameterClosing => "')' after parameters"
  | .bodyOpening => "'\x7b' to begin method body"
  | .bodyClosing => "'\x7d' after method body"
  | .memberName => "method name after '.'"
  | .argumentClosing => "')' after arguments"
  | .negatedNumber => "a number after '-'"
  | .groupClosing => "')' after expression"
  | .listClosing => "']' after list elements"
  | .expression => "expression"

/-- Why a text is not a program. -/
inductive Reason where
  /-- A block comment that the text ends in. -/
  | unterminatedComment
  /-- A slash that begins no comment. -/
  | operator
  /-- A backslash before a character that has no escape. -/
  | invalidEscape
  /-- A string literal that the text ends in. -/
  | unterminatedText
  /-- A character that begins no token. -/
  | invalidCharacter (c : Char)
  /-- A token that does not continue the program. -/
  | expected (what : Expectation)
  /-- A class member that is neither a constructor nor a foreign method. -/
  | unsupportedMember
  /-- A name that is read before it is defined. -/
  | undefinedVariable
  /-- A name that is defined twice in a module. -/
  | duplicateVariable
  deriving DecidableEq, Repr

/-- The wording of a reason. -/
def Reason.message : Reason → String
  | .unterminatedComment => "Unterminated block comment."
  | .operator => "Operators are not supported."
  | .invalidEscape => "Invalid escape character."
  | .unterminatedText => "Unterminated string."
  | .invalidCharacter c => "Invalid character " ++ quote c.toString ++ "."
  | .expected what => "Expect " ++ what.describe ++ "."
  | .unsupportedMember => "Only constructors and foreign methods are supported."
  | .undefinedVariable => "Variable is used but not defined."
  | .duplicateVariable => "Module variable is already defined."

/-- The error with which a text is refused. -/
structure CompileError where
  line : Nat
  /-- The description of what the error points at. -/
  near : String
  reason : Reason
  deriving DecidableEq, Repr

/-- The text of an error report. -/
def CompileError.message (e : CompileError) : String :=
  "Error at " ++ e.near ++ ": " ++ e.reason.message

end ScriptHost.Script
