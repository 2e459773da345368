import Dana.Header
import Dana.Operator

/-!
# Programs

The tree of a parsed program. Every node knows its line. Operands may be
missing, as a parser leaves them; the checker reports those.
-/

namespace Dana

mutual

structure Expr where
  form : ExprForm
  line : Line

inductive ExprForm
  | const (value : Int32)
  | hex (value : Int32)
  | bool (value : Bool)
  | place (p : Place)
  | call (c : Call)
  | not (operand : Option Expr)
  | arith (op : ArithOp) (left right : Option Expr)
  | rel (op : RelOp) (left right : Option Expr)
  | logic (op : LogicOp) (left right : Option Expr)

/-- A variable with its indices, or a string literal whose text is the name. -/
structure Place where
  ident : Ident
  indices : List Expr
  isString : Bool
  line : Line

structure Call where
  callee : Ident
  args : List Expr
  line : Line

end

mutual

structure Stmt where
  form : StmtForm
  line : Line

inductive StmtForm
  | assign (target : Place) (value : Expr)
  | skip
  | exit
  | ret (value : Option Expr)
  | brk (label : Option String)
  | cont (label : Option String)
  | cond (branches : List Branch)
  | loop (label : Option String) (body : List Stmt)
  | proc (call : Expr)
  | define (d : Definition)
  | declare (h : Header)
  | vars (names : List String) (ty : Ty)

/-- One arm of a conditional; the last may have no condition. -/
structure Branch where
  condition : Option Expr
  body : List Stmt
  line : Line

structure Definition where
  header : Header
  body : List Stmt
  line : Line

end

abbrev Program := List Stmt

/-! ## Building nodes

Each builder puts the node and the names it makes on the one given line. -/

namespace Place

def var (name : String) (line : Line) : Place :=
  { ident := ⟨name, line⟩, indices := [], isString := false, line }

def indexed (name : String) (indices : List Expr) (line : Line) : Place :=
  { ident := ⟨name, line⟩, indices, isString := false, line }

def string (text : String) (line : Line) : Place :=
  { ident := ⟨text, line⟩, indices := [], isString := true, line }

end Place

namespace Expr

def const (value : Int32) (line : Line) : Expr :=
  ⟨.const value, line⟩

def hex (value : Int32) (line : Line) : Expr :=
  ⟨.hex value, line⟩

def bool (value : Bool) (line : Line) : Expr :=
  ⟨.bool value, line⟩

def var (name : String) (line : Line) : Expr :=
  ⟨.place (.var name line), line⟩

def place (p : Place) : Expr :=
  ⟨.place p, p.line⟩

def call (callee : String) (args : List Expr) (line : Line) : Expr :=
  ⟨.call ⟨⟨callee, line⟩, args, line⟩, line⟩

def not (operand : Expr) (line : Line) : Expr :=
  ⟨.not (some operand), line⟩

def arith (op : ArithOp) (left right : Expr) (line : Line) : Expr :=
  ⟨.arith op (some left) (some right), line⟩

/-- A sign: an arithmetic operator without its left operand. -/
def signed (op : ArithOp) (operand : Expr) (line : Line) : Expr :=
  ⟨.arith op none (some operand), line⟩

def rel (op : RelOp) (left right : Expr) (line : Line) : Expr :=
  ⟨.rel op (some left) (some right), line⟩

def logic (op : LogicOp) (left right : Expr) (line : Line) : Expr :=
  ⟨.logic op (some left) (some right), line⟩

end Expr

namespace Stmt

def vars (names : List String) (ty : Ty) (line : Line) : Stmt :=
  ⟨.vars names ty, line⟩

def assign (target : Place) (value : Expr) (line : Line) : Stmt :=
  ⟨.assign target value, line⟩

def proc (callee : String) (args : List Expr) (line : Line) : Stmt :=
  ⟨.proc (.call callee args line), line⟩

/-- A definition on the line of its header. -/
def define (header : Header) (body : List Stmt) : Stmt :=
  ⟨.define ⟨header, body, header.line⟩, header.line⟩

/-- A declaration on the line of its header. -/
def declare (header : Header) : Stmt :=
  ⟨.declare header, header.line⟩

def loop (label : Option String) (body : List Stmt) (line : Line) : Stmt :=
  ⟨.loop label body, line⟩

def cond (branches : List Branch) (line : Line) : Stmt :=
  ⟨.cond branches, line⟩

end Stmt

end Dana
