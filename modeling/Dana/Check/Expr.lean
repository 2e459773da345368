import Dana.Program
import Dana.Table

/-!
# Types of expressions

An expression does not change the table: its type depends on what names mean
there, which is all an `Env` gives. A fault is reported as soon as it is met,
left to right.
-/

namespace Dana

/-- What an expression sees of a table. -/
structure Env where
  /-- The type a name stands for. -/
  type? : String → Option Ty
  /-- The function a name stands for in a call. -/
  function? : String → Option Header

def Table.env (t : Table) : Env where
  type? name := (t.find? name).map Entry.type
  function? := t.function?

/-- The operands of `op` must agree. -/
def operandsAgree (op : String) (left right : Ty) (line : Line) : Except Fault Unit :=
  if left.agrees right then .ok ()
  else .error ⟨.typeMismatch (quoted op ++ " expression") left right, line⟩

mutual

def Expr.infer (env : Env) : Expr → Except Fault Ty
  | ⟨.const _, _⟩ => .ok .int
  | ⟨.hex _, _⟩ => .ok .byte
  | ⟨.bool _, _⟩ => .ok .byte
  | ⟨.place p, _⟩ => p.infer env
  | ⟨.call c, _⟩ => c.infer env
  | ⟨.not none, line⟩ => .error ⟨.nullOperand "not", line⟩
  | ⟨.not (some e), _⟩ => do
    let _ ← e.infer env
    return .bool
  | ⟨.arith op none none, line⟩ => .error ⟨.nullOperand op.symbol, line⟩
  | ⟨.arith _ (some left) none, _⟩ => left.infer env
  | ⟨.arith _ none (some right), _⟩ => right.infer env
  | ⟨.arith op (some left) (some right), line⟩ => do
    let l ← left.infer env
    let r ← right.infer env
    operandsAgree op.symbol l r line
    return l
  | ⟨.rel op (some left) (some right), line⟩ => do
    let l ← left.infer env
    let r ← right.infer env
    operandsAgree op.symbol l r line
    return .bool
  | ⟨.rel op _ _, line⟩ => .error ⟨.nullOperand op.symbol, line⟩
  | ⟨.logic op (some left) (some right), line⟩ => do
    let l ← left.infer env
    let r ← right.infer env
    operandsAgree op.symbol l r line
    return .bool
  | ⟨.logic op _ _, line⟩ => .error ⟨.nullOperand op.symbol, line⟩
termination_by structural e => e

/-- A string literal is a string whatever its indices. A variable has its
declared type under one reference, and each index takes an array layer off. -/
def Place.infer (env : Env) : Place → Except Fault Ty
  | ⟨ident, indices, isString, line⟩ =>
    if isString then .ok .string
    else if ident.name = "" then .error ⟨.malformed "l-value", line⟩
    else
      match env.type? ident.name with
      | none => .error ⟨.undeclaredVariable ident.name, line⟩
      | some ty => Place.inferIndexed env ident.name line ty.deref indices
termination_by structural p => p

/-- The type that is left of a type after the indices. -/
def Place.inferIndexed (env : Env) (name : String) (line : Line) : Ty → List Expr → Except Fault Ty
  | ty, [] => .ok ty
  | .array elem _, e :: es => do
    let ty ← e.infer env
    if ty.agrees .int then Place.inferIndexed env name line elem es
    else .error ⟨.indexType name ty, e.line⟩
  | _, _ :: _ => .error ⟨.notAnArray name, line⟩
termination_by structural _ es => es

def Call.infer (env : Env) : Call → Except Fault Ty
  | ⟨callee, args, line⟩ =>
    if callee.name = "" then .error ⟨.malformed "function call", line⟩
    else
      match env.function? callee.name with
      | none => .error ⟨.undefinedFunction callee.name, line⟩
      | some h =>
        if args.length = h.arity then do
          Call.inferArgs env callee.name line h.formals args
          return h.resultType
        else .error ⟨.arity callee.name h.arity args.length, line⟩
termination_by structural c => c

/-- Each argument must agree with the parameter at its position. -/
def Call.inferArgs (env : Env) (function : String) (line : Line) :
    List (String × Ty) → List Expr → Except Fault Unit
  | (param, formal) :: formals, e :: es => do
    let ty ← e.infer env
    if formal.agrees ty then Call.inferArgs env function line formals es
    else .error ⟨.argumentType function param formal ty, line⟩
  | _, _ => .ok ()
termination_by structural _ es => es

end

/-! ## Conditions and assignments -/

/-- A condition must be of boolean type. -/
def Expr.inferCondition (env : Env) (e : Expr) : Except Fault Unit := do
  let ty ← e.infer env
  if ty.agrees .bool then .ok () else .error ⟨.conditionType ty, e.line⟩

/-- Why a value cannot be assigned, where an array is involved. -/
def arrayObjection (target value : Ty) : Option String :=
  match target.isArray, value.isArray with
  | true, false => some "right-hand expression is not an array"
  | false, true => some "cannot assign an array to a non-array element"
  | true, true => some "entire arrays cannot be directly assigned"
  | false, false => none

/-- An assignment at `line`: no arrays, and the two sides agree. -/
def Place.inferAssign (env : Env) (target : Place) (value : Expr) (line : Line) : Except Fault Unit := do
  let l ← target.infer env
  let r ← value.infer env
  match arrayObjection l r with
  | some reason => .error ⟨.arrayAssignment reason, line⟩
  | none =>
    if l.agrees r then .ok ()
    else .error ⟨.typeMismatch ("assignment to " ++ quoted target.ident.name) l r, line⟩

end Dana
