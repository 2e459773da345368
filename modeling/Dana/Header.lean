import Dana.Ty

/-!
# Function headers

A header names a function, its parameters in groups of one type each, and its
result. Callers see the parameters flattened, in the order of the groups.
-/

namespace Dana

/-- A source line. Line 0 stands for an unknown one. -/
abbrev Line := UInt32

structure Ident where
  name : String
  line : Line
deriving DecidableEq, Repr, Inhabited

/-- Parameters that share a type and a way of passing. -/
structure Group where
  names : List String
  ty : Ty
  byRef : Bool
  line : Line
deriving DecidableEq, Repr, Inhabited

/-- A procedure has no result type. -/
structure Header where
  ident : Ident
  result : Option Ty
  groups : List Group
  line : Line
deriving DecidableEq, Repr, Inhabited

/-- The type each name of the group is bound to. -/
def Group.boundType (g : Group) : Ty :=
  if g.byRef then g.ty.byReference else g.ty

/-- The group `names : ty`, at no known line. -/
def Group.ofNames (names : List String) (ty : Ty) (byRef : Bool) : Group :=
  { names, ty, byRef, line := 0 }

namespace Header

/-- The header whose name and whole stand at `line`. -/
def make (name : String) (result : Option Ty) (groups : List Group) (line : Line) : Header :=
  { ident := ⟨name, line⟩, result, groups, line }

abbrev name (h : Header) : String :=
  h.ident.name

def resultType (h : Header) : Ty :=
  h.result.getD .void

/-- Names and types of the parameters, groups flattened. -/
def formals (h : Header) : List (String × Ty) :=
  h.groups.flatMap fun g => g.names.map fun x => (x, g.boundType)

/-- The number of parameters, counted by groups. -/
def arity (h : Header) : Nat :=
  h.groups.foldr (fun g n => g.names.length + n) 0

/-- The line of a group's parameters; a group without one takes the header's. -/
def groupLine (h : Header) (g : Group) : Line :=
  if g.line = 0 then h.line else g.line

/-- What a definition binds: names, types and lines, groups flattened. -/
def parameters (h : Header) : List (String × Ty × Line) :=
  h.groups.flatMap fun g => g.names.map fun x => (x, g.boundType, h.groupLine g)

def resultText : Option Ty → String
  | none => ""
  | some t => " -> " ++ t.text

def text (h : Header) : String :=
  h.name ++ "(" ++ ", ".intercalate (h.formals.map fun (x, t) => t.text ++ " " ++ x) ++ ")"
    ++ resultText h.result

end Header

end Dana
