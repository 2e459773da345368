import Dana.Scope

/-!
# The symbol table

A stack of scopes and a count of open loops. The outermost scope is the global
one, level 0; functions are always entered there. A name means what the
innermost scope that has it says.
-/

namespace Dana

/-- The innermost scope comes first. -/
structure Table where
  scopes : List Scope
  loopDepth : Nat
deriving DecidableEq, Repr, Inhabited

namespace Table

/-- Only the global scope is open, and it is empty. -/
def empty : Table :=
  ⟨[.empty], 0⟩

/-- The number of open scopes. -/
def depth (t : Table) : Nat :=
  t.scopes.length

def inLoop (t : Table) : Bool :=
  0 < t.loopDepth

/-- The entry a name stands for: that of the innermost scope to have one. -/
def find? (t : Table) (name : String) : Option Entry :=
  t.scopes.findSome? fun s => s.find? name

/-- The entry of a name in the innermost scope. -/
def findInnermost? (t : Table) (name : String) : Option Entry :=
  match t.scopes with
  | [] => none
  | s :: _ => s.find? name

/-- The function a name stands for. Bindings of the name do not hide it. -/
def function? (t : Table) (name : String) : Option Header :=
  t.scopes.findSome? fun s => s.function? name

def openScope (t : Table) : Table :=
  { t with scopes := .empty :: t.scopes }

/-- The table without its innermost scope, which may be the global one. -/
def closeScope (t : Table) : Except Fault Table :=
  match t.scopes with
  | [] => .error ⟨.internal "exit_scope called with no active scope", 0⟩
  | _ :: outer => .ok { t with scopes := outer }

def openLoop (t : Table) : Table :=
  { t with loopDepth := t.loopDepth + 1 }

/-- Stays at zero when no loop is open. -/
def closeLoop (t : Table) : Table :=
  { t with loopDepth := t.loopDepth - 1 }

def noScope : Fault :=
  ⟨.internal "no active scope", 0⟩

/-- Enters a name into the innermost scope. -/
def declare (t : Table) (e : Entry) : Except Fault Table :=
  match t.scopes with
  | [] => .error noScope
  | s :: outer => do
    let s ← s.declare e
    return { t with scopes := s :: outer }

/-- Enters a name into the last of `scopes`. -/
def declareLast (e : Entry) : List Scope → Except Fault (List Scope)
  | [] => .error noScope
  | [s] => do
    let s ← s.declare e
    return [s]
  | s :: outer => do
    let outer ← declareLast e outer
    return s :: outer

/-- Enters a name into the global scope. -/
def declareGlobal (t : Table) (e : Entry) : Except Fault Table := do
  let scopes ← declareLast e t.scopes
  return { t with scopes }

/-! ## Text -/

def innermostText (t : Table) : String :=
  match t.scopes with
  | [] => "<no active scope>\n"
  | s :: _ => "---- Current Scope ----\n" ++ s.text

/-- The scopes given from level `level` on, outermost first. -/
def levelsText (level : Nat) : List Scope → String
  | [] => ""
  | s :: inner => "Scope " ++ level.repr ++ ":\n" ++ s.text ++ levelsText (level + 1) inner

def text (t : Table) : String :=
  "==== Symbol Table ====\n" ++ levelsText 0 t.scopes.reverse ++ "======================\n"

end Table

end Dana
