import Dana.Proofs.Run
import Dana.Proofs.Typing

/-!
# Nodes

The nodes of a program, in the order of its text, and the names that stand in
them. A fault is about one of the nodes, and a check looks at no other name.
-/

namespace Dana

inductive Node
  | stmt (s : Stmt)
  | branch (b : Branch)
  | definition (d : Definition)
  | expr (e : Expr)
  | place (p : Place)
  | call (c : Call)

/-! ## The nodes of a program -/

mutual

def Expr.nodes : Expr → List Node
  | ⟨form, line⟩ => .expr ⟨form, line⟩ :: form.nodes
termination_by structural e => e

def ExprForm.nodes : ExprForm → List Node
  | .const _ | .hex _ | .bool _ => []
  | .place p => p.nodes
  | .call c => c.nodes
  | .not operand => Expr.nodes? operand
  | .arith _ left right => Expr.nodes? left ++ Expr.nodes? right
  | .rel _ left right => Expr.nodes? left ++ Expr.nodes? right
  | .logic _ left right => Expr.nodes? left ++ Expr.nodes? right
termination_by structural form => form

def Place.nodes : Place → List Node
  | ⟨ident, indices, isString, line⟩ => .place ⟨ident, indices, isString, line⟩ :: Expr.nodesAll indices
termination_by structural p => p

def Call.nodes : Call → List Node
  | ⟨callee, args, line⟩ => .call ⟨callee, args, line⟩ :: Expr.nodesAll args
termination_by structural c => c

def Expr.nodes? : Option Expr → List Node
  | none => []
  | some e => e.nodes
termination_by structural o => o

def Expr.nodesAll : List Expr → List Node
  | [] => []
  | e :: es => e.nodes ++ Expr.nodesAll es
termination_by structural es => es

end

mutual

def Stmt.nodes : Stmt → List Node
  | ⟨form, line⟩ => .stmt ⟨form, line⟩ :: form.nodes
termination_by structural s => s

def StmtForm.nodes : StmtForm → List Node
  | .assign target value => target.nodes ++ value.nodes
  | .ret value => Expr.nodes? value
  | .cond branches => Branch.nodesAll branches
  | .loop _ body => Stmt.nodesAll body
  | .proc call => call.nodes
  | .define d => d.nodes
  | .skip | .exit | .brk _ | .cont _ | .declare _ | .vars _ _ => []
termination_by structural form => form

def Branch.nodes : Branch → List Node
  | ⟨condition, body, line⟩ => .branch ⟨condition, body, line⟩ :: (Expr.nodes? condition ++ Stmt.nodesAll body)
termination_by structural b => b

def Definition.nodes : Definition → List Node
  | ⟨header, body, line⟩ => .definition ⟨header, body, line⟩ :: Stmt.nodesAll body
termination_by structural d => d

def Stmt.nodesAll : List Stmt → List Node
  | [] => []
  | s :: ss => s.nodes ++ Stmt.nodesAll ss
termination_by structural ss => ss

def Branch.nodesAll : List Branch → List Node
  | [] => []
  | b :: bs => b.nodes ++ Branch.nodesAll bs
termination_by structural bs => bs

end

def Task.nodes : Task → List Node
  | .stmt s => s.nodes
  | .block ss => Stmt.nodesAll ss
  | .branch b => b.nodes
  | .branches bs => Branch.nodesAll bs
  | .definition d => d.nodes

theorem Expr.mem_nodes? {n : Node} {o : Option Expr} : n ∈ Expr.nodes? o ↔ ∃ e ∈ o, n ∈ e.nodes := by
  cases o with
  | none => simp [Expr.nodes?]
  | some e => simp [Expr.nodes?]

theorem Expr.mem_nodesAll {n : Node} {es : List Expr} : n ∈ Expr.nodesAll es ↔ ∃ e ∈ es, n ∈ e.nodes := by
  induction es with
  | nil => simp [Expr.nodesAll]
  | cons e es ih => simp [Expr.nodesAll, ih]

theorem Place.mem_nodes {n : Node} {p : Place} : n ∈ p.nodes ↔ n = .place p ∨ ∃ e ∈ p.indices, n ∈ e.nodes := by
  obtain ⟨ident, indices, isString, line⟩ := p
  rw [Place.nodes, List.mem_cons, Expr.mem_nodesAll]

theorem Call.mem_nodes {n : Node} {c : Call} : n ∈ c.nodes ↔ n = .call c ∨ ∃ e ∈ c.args, n ∈ e.nodes := by
  obtain ⟨callee, args, line⟩ := c
  rw [Call.nodes, List.mem_cons, Expr.mem_nodesAll]

/-- No statement, branch or definition stands in an expression. -/
theorem Expr.mem_nodes_cases {n : Node} {e : Expr} (h : n ∈ e.nodes) :
    (∃ e', n = .expr e') ∨ (∃ p, n = .place p) ∨ ∃ c, n = .call c := by
  induction e with
  | const value line | hex value line | bool value line => exact .inl ⟨_, List.mem_singleton.mp h⟩
  | place part line ih | call part line ih =>
    rw [nodes, ExprForm.nodes] at h
    simp only [List.mem_cons, Place.mem_nodes, Call.mem_nodes] at h
    rcases h with h | h | ⟨e, he, h⟩
    · exact .inl ⟨_, h⟩
    · simp [h]
    · exact ih e he h
  | not part line ih =>
    rw [nodes, ExprForm.nodes] at h
    simp only [List.mem_cons, mem_nodes?] at h
    rcases h with h | ⟨e, he, h⟩
    · exact .inl ⟨_, h⟩
    · exact ih e he h
  | arith op left right line ihl ihr | rel op left right line ihl ihr | logic op left right line ihl ihr =>
    rw [nodes, ExprForm.nodes] at h
    simp only [List.mem_cons, List.mem_append, mem_nodes?] at h
    rcases h with h | ⟨e, he, h⟩ | ⟨e, he, h⟩
    · exact .inl ⟨_, h⟩
    · exact ihl e he h
    · exact ihr e he h

/-! ## The names of a program -/

def Header.names (h : Header) : List String :=
  h.name :: h.groups.flatMap Group.names

/-- The names in the node itself, not those in its parts. The text of a string
literal is no name. -/
def Node.names : Node → List String
  | .place p => if p.isString then [] else [p.ident.name]
  | .call c => [c.callee.name]
  | .definition d => d.header.names
  | .stmt ⟨.declare h, _⟩ => h.names
  | .stmt ⟨.vars names _, _⟩ => names
  | .stmt _ | .branch _ | .expr _ => []

def Program.names (p : Program) : List String :=
  (Stmt.nodesAll p).flatMap Node.names

end Dana
