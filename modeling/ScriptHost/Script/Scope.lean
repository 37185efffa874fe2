import ScriptHost.Script.CompileError
import ScriptHost.Script.Program

/-!
# Names of a module

A program is checked before it runs: every variable it reads is defined in front of the place where
it is read, and no variable is defined twice.  `Scope.check` gets the names that are defined when
the program is compiled and refuses the first violation in the order in which the program would
run.
-/

namespace ScriptHost.Script.Scope

/-- The error of reading `name` on `line` without a definition. -/
def undefined (name : String) (line : Nat) : CompileError := ⟨line, quote name, .undefinedVariable⟩

/-- The error of defining `name` on `line` a second time. -/
def duplicate (name : String) (line : Nat) : CompileError := ⟨line, quote name, .duplicateVariable⟩

mutual

/-- Checks the variables that an expression reads, from left to right. -/
def checkExpr (defined : List String) : Expr → Except CompileError Unit
  | .variable name line => if defined.contains name then .ok () else .error (undefined name line)
  | .list items => checkAll defined items
  | .getter receiver _ => checkExpr defined receiver
  | .call receiver _ arguments => do
    checkExpr defined receiver
    checkAll defined arguments
  | .null => .ok ()
  | .bool _ => .ok ()
  | .number _ => .ok ()
  | .text _ => .ok ()

/-- Checks expressions in order. -/
def checkAll (defined : List String) : List Expr → Except CompileError Unit
  | [] => .ok ()
  | e :: rest => do
    checkExpr defined e
    checkAll defined rest

end

/-- The names that are defined behind a definition of `name` on `line`. -/
def define (defined : List String) (name : String) (line : Nat) :
    Except CompileError (List String) :=
  if defined.contains name then .error (duplicate name line) else .ok (name :: defined)

/-- The names that are defined behind a statement. -/
def afterStatement (defined : List String) (s : Statement) : Except CompileError (List String) :=
  match s.action with
  | .importModule _ names => names.foldlM (fun ds name => define ds name s.line) defined
  | .define name value => do
    checkExpr defined value
    define defined name s.line
  | .assign name value => do
    checkExpr defined value
    if defined.contains name then .ok defined else .error (undefined name s.line)
  | .declare decl => define defined decl.name s.line
  | .evaluate value => do
    checkExpr defined value
    .ok defined

/-- Checks a program against the names that are defined when it is compiled, and returns those that
are defined when it has run. -/
def check (defined : List String) (statements : List Statement) :
    Except CompileError (List String) :=
  statements.foldlM afterStatement defined

end ScriptHost.Script.Scope
