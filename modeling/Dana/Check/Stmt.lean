import Dana.Check.Basic
import Dana.Check.Expr

/-!
# Checking statements

Statements are checked in order, up to the first fault. A conditional opens a
scope for itself and one for the body of each branch, a loop and a procedure
call open one each, and so does a function for its parameters and body.
-/

namespace Dana

open Check

/-- Asks for the type of an expression. -/
def Expr.check (e : Expr) : Check Ty :=
  ask fun t => e.infer t.env

/-- Asks for the type of a place. -/
def Place.check (p : Place) : Check Ty :=
  ask fun t => p.infer t.env

/-- A branch without a condition has nothing to check in it. -/
def Branch.checkCondition : Option Expr → Check Unit
  | none => pure ()
  | some e => ask fun t => e.inferCondition t.env

/-- The keyword needs a loop that is open. -/
def requireLoop (keyword : String) (line : Line) : Check Unit :=
  ask fun t => if t.inLoop then .ok () else .error ⟨.loopContext keyword, line⟩

def noteLabel (line : Line) : Option String → Check Unit
  | none => pure ()
  | some label => note (.labelledLoop label line)

/-- Declares a function that no name in sight stands for yet. -/
def Header.declare (h : Header) (line : Line) : Check Unit := do
  match ← ask fun t => .ok (t.function? h.name) with
  | some _ => fail (.redeclaration "function" h.name) line
  | none => register h

/-- Registers a function that is defined without a declaration before. -/
def Header.ensureRegistered (h : Header) : Check Unit := do
  match ← ask fun t => .ok (t.function? h.name) with
  | some _ => pure ()
  | none => register h

def Header.bindParameters (h : Header) : Check Unit :=
  h.parameters.forM fun (name, ty, line) => bindName .param name ty line

def Stmt.bindVariables (names : List String) (ty : Ty) (line : Line) : Check Unit :=
  names.forM fun name => bindName .plain name ty line

mutual

def Stmt.check : Stmt → Check Unit
  | ⟨.assign target value, line⟩ => ask fun t => target.inferAssign t.env value line
  | ⟨.skip, _⟩ => pure ()
  | ⟨.exit, _⟩ => pure ()
  | ⟨.ret none, _⟩ => pure ()
  | ⟨.ret (some e), _⟩ => do
    let _ ← e.check
  | ⟨.brk _, line⟩ => requireLoop "break" line
  | ⟨.cont _, line⟩ => requireLoop "continue" line
  | ⟨.cond branches, line⟩ =>
    if branches.isEmpty then fail (.malformed "if statement") line
    else do
      openScope
      Branch.checkAll branches
      closeScope
  | ⟨.loop label body, line⟩ => do
    noteLabel line label
    openLoop
    openScope
    Stmt.checkAll body
    closeScope
    closeLoop
  | ⟨.proc call, _⟩ => do
    openScope
    let _ ← call.check
    closeScope
  | ⟨.define d, _⟩ => d.check
  | ⟨.declare h, line⟩ => h.declare line
  | ⟨.vars names ty, line⟩ =>
    if names.isEmpty || ty.isReference then fail (.malformed "variable declaration") line
    else Stmt.bindVariables names ty line
termination_by structural s => s

def Stmt.checkAll : List Stmt → Check Unit
  | [] => pure ()
  | s :: ss => do
    s.check
    Stmt.checkAll ss
termination_by structural ss => ss

/-- The condition is checked outside the scope of the body. -/
def Branch.check : Branch → Check Unit
  | ⟨condition, body, _⟩ => do
    Branch.checkCondition condition
    openScope
    Stmt.checkAll body
    closeScope
termination_by structural b => b

def Branch.checkAll : List Branch → Check Unit
  | [] => pure ()
  | b :: bs => do
    b.check
    Branch.checkAll bs
termination_by structural bs => bs

/-- The function is registered before its body is checked, so that it may call
itself. Parameters and body share a scope. -/
def Definition.check : Definition → Check Unit
  | ⟨header, body, line⟩ =>
    if header.name = "" then fail (.malformed "function definition") line
    else do
      header.ensureRegistered
      note (.checkingFunction header)
      openScope
      header.bindParameters
      Stmt.checkAll body
      closeScope
termination_by structural d => d

end

/-- Checks the declarations at the top of a program. -/
def Program.check (p : Program) : Check Unit := do
  note (.checkingProgram p.length)
  Stmt.checkAll p
  note .programPassed

end Dana
