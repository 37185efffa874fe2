import ScriptHost.Script.Token

/-!
# Programs

The statements of a module and the expressions in them.  A method is known by its signature, the
name followed by one underscore per argument in parentheses; a name without parentheses is a getter
and has a signature of its own.
-/

namespace ScriptHost.Script

open Number (Double)

/-- An expression. -/
inductive Expr where
  | null
  | bool (value : Bool)
  | number (value : Double)
  | text (value : String)
  | list (items : List Expr)
  | variable (name : String) (line : Nat)
  /-- `receiver.name` without an argument list. -/
  | getter (receiver : Expr) (name : String)
  /-- `receiver.name(arguments)`. -/
  | call (receiver : Expr) (name : String) (arguments : List Expr)
  deriving Repr, Inhabited

/-- A foreign method that a class declares. -/
structure MethodDecl where
  isStatic : Bool
  signature : String
  deriving DecidableEq, Repr

/-- A class declaration.  The bodies of constructors are not kept. -/
structure ClassDecl where
  name : String
  isForeign : Bool
  constructors : List String
  methods : List MethodDecl
  deriving DecidableEq, Repr

/-- What a statement does. -/
inductive Action where
  /-- Runs a module, unless it has been run, and defines some of its variables here. -/
  | importModule (source : String) (names : List String)
  | define (name : String) (value : Expr)
  | assign (name : String) (value : Expr)
  | declare (decl : ClassDecl)
  | evaluate (value : Expr)
  deriving Repr

/-- A statement with the line of its first token. -/
structure Statement where
  action : Action
  line : Nat
  deriving Repr

/-- The signature of a method with `arity` parameters. -/
def methodSignature (name : String) (arity : Nat) : String :=
  name ++ "(" ++ ",".intercalate (List.replicate arity "_") ++ ")"

/-- The signature of a method declared with a parameter list, or of a getter without one. -/
def signature (name : String) : Option Nat → String
  | none => name
  | some arity => methodSignature name arity

end ScriptHost.Script
