import Dana.Fault

/-!
# Entries of the symbol table

What a declared name means: a bound type, or a function.
-/

namespace Dana

/-- How a bound name came about. -/
inductive Role
  | plain
  | param
  | const
deriving DecidableEq, Repr, Inhabited

inductive Meaning
  | binding (ty : Ty) (role : Role)
  | function (h : Header)
deriving DecidableEq, Repr, Inhabited

structure Entry where
  name : String
  meaning : Meaning
  line : Line
deriving DecidableEq, Repr, Inhabited

namespace Entry

def ofBinding (role : Role) (name : String) (ty : Ty) (line : Line) : Entry :=
  { name, meaning := .binding ty role, line }

def ofHeader (h : Header) : Entry :=
  { name := h.name, meaning := .function h, line := h.line }

def header? (e : Entry) : Option Header :=
  match e.meaning with
  | .binding _ _ => none
  | .function h => some h

/-- The type the name stands for: a function's name stands for its result. -/
def type (e : Entry) : Ty :=
  match e.meaning with
  | .binding ty _ => ty
  | .function h => h.resultType

def isParam (e : Entry) : Bool :=
  match e.meaning with
  | .binding _ .param => true
  | _ => false

def isConst (e : Entry) : Bool :=
  match e.meaning with
  | .binding _ .const => true
  | _ => false

/-- What a fault calls the entry. -/
def noun (e : Entry) : String :=
  match e.meaning with
  | .binding _ .plain => "variable"
  | .binding _ .param => "parameter"
  | .binding _ .const => "constant"
  | .function _ => "function"

def text (e : Entry) : String :=
  match e.meaning with
  | .binding ty .plain => "[Var] " ++ e.name ++ " : " ++ ty.text
  | .binding ty .param => "[Param] " ++ e.name ++ " : " ++ ty.text
  | .binding ty .const => "[Const] " ++ e.name ++ " : " ++ ty.text
  | .function h => "[Function] " ++ e.name ++ " -> " ++ h.text

end Entry

end Dana
