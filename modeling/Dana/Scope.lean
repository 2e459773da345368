import Dana.Entry

/-!
# Scopes

A scope has at most one entry for a name. Entries stand in the order of their
names, so that a scope does not show in which order they were declared.
-/

namespace Dana

structure Scope where
  entries : List Entry
deriving DecidableEq, Repr, Inhabited

namespace Scope

def empty : Scope :=
  ⟨[]⟩

def find? (s : Scope) (name : String) : Option Entry :=
  s.entries.find? fun e => e.name = name

/-- The function called `name`, if that is what the name means here. -/
def function? (s : Scope) (name : String) : Option Header :=
  (s.find? name).bind Entry.header?

/-- Puts an entry before the first one with a greater name. Names compare by
code points. -/
def insertEntry (e : Entry) : List Entry → List Entry
  | [] => [e]
  | f :: fs => if e.name < f.name then e :: f :: fs else f :: insertEntry e fs

def insert (s : Scope) (e : Entry) : Scope :=
  ⟨insertEntry e s.entries⟩

/-- Enters a name that the scope does not have yet. -/
def declare (s : Scope) (e : Entry) : Except Fault Scope :=
  match s.find? e.name with
  | some _ => .error ⟨.redeclaration e.noun e.name, e.line⟩
  | none => .ok (s.insert e)

/-- One line for each entry. -/
def text (s : Scope) : String :=
  String.join (s.entries.map fun e => e.text ++ "\n")

end Scope

end Dana
