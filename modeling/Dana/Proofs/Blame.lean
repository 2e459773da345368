import Dana.Proofs.Node
import Dana.Proofs.Stop
import Dana.Proofs.Typing
import Dana.Report

/-!
# What a fault is about

A fault names a line, and a reader looks there for what is wrong. `Fault.About`
lists what there is to be found: a node of the program that has the name, symbol or
number the fault speaks of, and really lacks what the fault says it lacks.
`checkAll_error_about` says that there always is one.
-/

namespace Dana

/-- The node is what the fault is about, and the line of the fault is its own. A
fault in an index, a condition or a group of parameters has the line of that part,
and the node is the one it belongs to. -/
inductive Fault.About : Fault → Node → Prop
  | brk {label line} : About ⟨.loopContext "break", line⟩ (.stmt ⟨.brk label, line⟩)
  | cont {label line} : About ⟨.loopContext "continue", line⟩ (.stmt ⟨.cont label, line⟩)
  | undeclaredVariable {p} : p.isString = false → p.ident.name ≠ "" →
      About ⟨.undeclaredVariable p.ident.name, p.line⟩ (.place p)
  | notAnArray {p} : p.isString = false → p.indices ≠ [] → About ⟨.notAnArray p.ident.name, p.line⟩ (.place p)
  | indexType {p e τ} : p.isString = false → e ∈ p.indices → τ.kind ≠ .scalar .int →
      About ⟨.indexType p.ident.name τ, e.line⟩ (.place p)
  | undefinedFunction {c} : c.callee.name ≠ "" → About ⟨.undefinedFunction c.callee.name, c.line⟩ (.call c)
  | arity {c expected} : c.args.length ≠ expected →
      About ⟨.arity c.callee.name expected c.args.length, c.line⟩ (.call c)
  | argumentType {c x τ σ} : τ.kind ≠ σ.kind → About ⟨.argumentType c.callee.name x τ σ, c.line⟩ (.call c)
  | conditionType {e body line τ} : τ.kind ≠ .scalar .bool →
      About ⟨.conditionType τ, e.line⟩ (.branch ⟨some e, body, line⟩)
  -- operators that lack an operand
  | notOperand {line} : About ⟨.nullOperand "not", line⟩ (.expr ⟨.not none, line⟩)
  | arithOperands {op line} : About ⟨.nullOperand op.symbol, line⟩ (.expr ⟨.arith op none none, line⟩)
  | relOperand {op left right line} : left = none ∨ right = none →
      About ⟨.nullOperand op.symbol, line⟩ (.expr ⟨.rel op left right, line⟩)
  | logicOperand {op left right line} : left = none ∨ right = none →
      About ⟨.nullOperand op.symbol, line⟩ (.expr ⟨.logic op left right, line⟩)
  -- assignments, and operators with operands that disagree
  | arrayAssignment {target value line τ σ reason} : arrayObjection τ σ = some reason →
      About ⟨.arrayAssignment reason, line⟩ (.stmt ⟨.assign target value, line⟩)
  | assignTypes {target value line τ σ} : τ.kind ≠ σ.kind →
      About ⟨.typeMismatch ("assignment to " ++ quoted target.ident.name) τ σ, line⟩
        (.stmt ⟨.assign target value, line⟩)
  | arithTypes {op left right line τ σ} : τ.kind ≠ σ.kind →
      About ⟨.typeMismatch (quoted op.symbol ++ " expression") τ σ, line⟩
        (.expr ⟨.arith op (some left) (some right), line⟩)
  | relTypes {op left right line τ σ} : τ.kind ≠ σ.kind →
      About ⟨.typeMismatch (quoted op.symbol ++ " expression") τ σ, line⟩
        (.expr ⟨.rel op (some left) (some right), line⟩)
  | logicTypes {op left right line τ σ} : τ.kind ≠ σ.kind →
      About ⟨.typeMismatch (quoted op.symbol ++ " expression") τ σ, line⟩
        (.expr ⟨.logic op (some left) (some right), line⟩)
  -- names that are taken
  | takenVariable {names x ty line} : x ∈ names →
      About ⟨.redeclaration "variable" x, line⟩ (.stmt ⟨.vars names ty, line⟩)
  | takenParameter {h body line g x} : g ∈ h.groups → x ∈ g.names →
      About ⟨.redeclaration "parameter" x, h.groupLine g⟩ (.definition ⟨h, body, line⟩)
  | takenDefinition {h body line} : About ⟨.redeclaration "function" h.name, h.line⟩ (.definition ⟨h, body, line⟩)
  | takenDeclaration {h line} : About ⟨.redeclaration "function" h.name, line⟩ (.stmt ⟨.declare h, line⟩)
  | takenHeader {h line} : About ⟨.redeclaration "function" h.name, h.line⟩ (.stmt ⟨.declare h, line⟩)
  -- nodes without a name or a part that they need
  | malformedPlace {p} : p.isString = false → p.ident.name = "" → About ⟨.malformed "l-value", p.line⟩ (.place p)
  | malformedCall {c} : c.callee.name = "" → About ⟨.malformed "function call", c.line⟩ (.call c)
  | malformedCond {line} : About ⟨.malformed "if statement", line⟩ (.stmt ⟨.cond [], line⟩)
  | malformedVars {names ty line} : names = [] ∨ ty.isReference = true →
      About ⟨.malformed "variable declaration", line⟩ (.stmt ⟨.vars names ty, line⟩)
  | malformedHeader {h line} : h.name = "" →
      About ⟨.malformed "function header", h.line⟩ (.stmt ⟨.declare h, line⟩)
  | malformedDefinition {h body line} : h.name = "" →
      About ⟨.malformed "function definition", line⟩ (.definition ⟨h, body, line⟩)

/-- If there is a fault, it is about one of the nodes. -/
def Blames {α : Type} (ns : List Node) (x : Except Fault α) : Prop :=
  ∀ f, x = .error f → ∃ n ∈ ns, f.About n

namespace Blames

variable {α β : Type} {ns ms : List Node}

theorem ok {a : α} : Blames ns (.ok a : Except Fault α) := by
  intro f h
  cases h

theorem error {f : Fault} {n : Node} (hn : n ∈ ns) (h : f.About n) : Blames ns (.error f : Except Fault α) := by
  intro f' hf
  cases hf
  exact ⟨n, hn, h⟩

theorem bind {x : Except Fault α} {k : α → Except Fault β} (hx : Blames ns x) (hk : ∀ a, Blames ns (k a)) :
    Blames ns (x >>= k) := by
  cases x with
  | ok a => exact hk a
  | error f =>
    obtain ⟨n, hn, h⟩ := hx f rfl
    exact error hn h

theorem ite {c : Prop} [Decidable c] {x y : Except Fault α} (hx : c → Blames ns x) (hy : ¬ c → Blames ns y) :
    Blames ns (if c then x else y) := by
  by_cases hc : c
  · rw [if_pos hc]
    exact hx hc
  · rw [if_neg hc]
    exact hy hc

theorem mono {x : Except Fault α} (h : Blames ns x) (hs : ∀ n ∈ ns, n ∈ ms) : Blames ms x := by
  intro f hf
  obtain ⟨n, hn, hf⟩ := h f hf
  exact ⟨n, hs n hn, hf⟩

end Blames

/-! ## Expressions -/

section
variable {env : Env}

theorem operands_blames {ns : List Node} {n : Node} {x y : Except Fault Ty} {op : String} {line : Line} {k : Ty → Ty}
    (hx : Blames ns x) (hy : Blames ns y) (hn : n ∈ ns)
    (h : ∀ {τ σ : Ty}, τ.kind ≠ σ.kind → Fault.About ⟨.typeMismatch (quoted op ++ " expression") τ σ, line⟩ n) :
    Blames ns (do
      let l ← x
      let r ← y
      operandsAgree op l r line
      return k l) := by
  refine .bind hx fun l => .bind hy fun r => .bind ?_ fun _ => .ok
  refine .ite (fun _ => .ok) fun hne => .error hn (h ?_)
  simpa [Ty.agrees] using hne

theorem Place.inferIndexed_blames {p : Place} (hp : p.isString = false) : ∀ {es : List Expr} {τ : Ty},
    (∀ e ∈ es, e ∈ p.indices) → (∀ e ∈ es, Blames p.nodes (e.infer env)) →
      Blames p.nodes (Place.inferIndexed env p.ident.name p.line τ es)
  | [], τ, _, _ => by
    rw [inferIndexed]
    exact .ok
  | e :: es, .array elem size, hes, h => by
    rw [inferIndexed]
    refine .bind (h e List.mem_cons_self) fun τ => .ite (fun _ => ?_) fun hne => ?_
    · apply inferIndexed_blames hp
      · intro e' he'
        exact hes e' (List.mem_cons_of_mem _ he')
      · intro e' he'
        exact h e' (List.mem_cons_of_mem _ he')
    · have hk : τ.kind ≠ Ty.int.kind := by simpa [Ty.agrees] using hne
      exact .error (Place.mem_nodes.mpr (.inl rfl)) (.indexType hp (hes e List.mem_cons_self) hk)
  | e :: es, .scalar s, hes, _ | e :: es, .reference base, hes, _ => by
    have hne : p.indices ≠ [] := List.ne_nil_of_mem (hes e List.mem_cons_self)
    rw [inferIndexed]
    · exact .error (Place.mem_nodes.mpr (.inl rfl)) (.notAnArray hp hne)
    · simp

theorem Place.infer_blames_of {p : Place} (h : ∀ e ∈ p.indices, Blames e.nodes (e.infer env)) :
    Blames p.nodes (p.infer env) := by
  have hself : Node.place p ∈ p.nodes := Place.mem_nodes.mpr (.inl rfl)
  rw [infer_eq]
  refine .ite (fun _ => .ok) fun hs => ?_
  have hs : p.isString = false := by simpa using hs
  refine .ite (fun hn => .error hself (.malformedPlace hs hn)) fun hn => ?_
  split
  · exact .error hself (.undeclaredVariable hs hn)
  · apply inferIndexed_blames hs fun _ he => he
    intro e he
    exact (h e he).mono fun n hn => Place.mem_nodes.mpr (.inr ⟨e, he, hn⟩)

theorem Call.inferArgs_blames {c : Call} : ∀ {formals : List (String × Ty)} {es : List Expr},
    (∀ e ∈ es, Blames c.nodes (e.infer env)) →
      Blames c.nodes (Call.inferArgs env c.callee.name c.line formals es)
  | [], es, _ => by
    rw [inferArgs]
    · exact .ok
    · simp
  | (x, formal) :: formals, [], _ => by
    rw [inferArgs]
    · exact .ok
    · simp
  | (x, formal) :: formals, e :: es, h => by
    rw [inferArgs]
    refine .bind (h e List.mem_cons_self) fun τ => .ite (fun _ => ?_) fun hne => ?_
    · apply inferArgs_blames
      intro e' he'
      exact h e' (List.mem_cons_of_mem _ he')
    · have hk : formal.kind ≠ τ.kind := by simpa [Ty.agrees] using hne
      exact .error (Call.mem_nodes.mpr (.inl rfl)) (.argumentType hk)

theorem Call.infer_blames_of {c : Call} (h : ∀ e ∈ c.args, Blames e.nodes (e.infer env)) :
    Blames c.nodes (c.infer env) := by
  have hself : Node.call c ∈ c.nodes := Call.mem_nodes.mpr (.inl rfl)
  rw [infer_eq]
  refine .ite (fun hn => .error hself (.malformedCall hn)) fun hn => ?_
  split
  · exact .error hself (.undefinedFunction hn)
  · refine .ite (fun _ => .bind ?_ fun _ => .ok) fun hne => .error hself (.arity hne)
    apply inferArgs_blames
    intro e he
    exact (h e he).mono fun n hn => Call.mem_nodes.mpr (.inr ⟨e, he, hn⟩)

theorem left_blames (n : Node) {left : Option Expr} (right : Option Expr)
    (h : ∀ e ∈ left, Blames e.nodes (e.infer env)) :
    ∀ e ∈ left, Blames (n :: (Expr.nodes? left ++ Expr.nodes? right)) (e.infer env) := by
  intro e he
  refine (h e he).mono fun m hm => ?_
  exact List.mem_cons_of_mem _ (List.mem_append_left _ (Expr.mem_nodes?.mpr ⟨e, he, hm⟩))

theorem right_blames (n : Node) (left : Option Expr) {right : Option Expr}
    (h : ∀ e ∈ right, Blames e.nodes (e.infer env)) :
    ∀ e ∈ right, Blames (n :: (Expr.nodes? left ++ Expr.nodes? right)) (e.infer env) := by
  intro e he
  refine (h e he).mono fun m hm => ?_
  exact List.mem_cons_of_mem _ (List.mem_append_right _ (Expr.mem_nodes?.mpr ⟨e, he, hm⟩))

theorem Expr.infer_blames (e : Expr) : Blames e.nodes (e.infer env) := by
  induction e with
  | const value line | hex value line | bool value line =>
    rw [infer]
    exact .ok
  | place p line ih =>
    rw [infer, nodes, ExprForm.nodes]
    exact (Place.infer_blames_of ih).mono fun n hn => List.mem_cons_of_mem _ hn
  | call c line ih =>
    rw [infer, nodes, ExprForm.nodes]
    exact (Call.infer_blames_of ih).mono fun n hn => List.mem_cons_of_mem _ hn
  | not operand line ih =>
    rw [nodes, ExprForm.nodes]
    cases operand with
    | none =>
      rw [infer]
      exact .error List.mem_cons_self .notOperand
    | some e =>
      rw [infer]
      refine .bind ((ih e rfl).mono fun n hn => ?_) fun _ => .ok
      exact List.mem_cons_of_mem _ (mem_nodes?.mpr ⟨e, rfl, hn⟩)
  | arith op left right line ihl ihr =>
    rw [nodes, ExprForm.nodes]
    have hl := left_blames (.expr ⟨.arith op left right, line⟩) right ihl
    have hr := right_blames (.expr ⟨.arith op left right, line⟩) left ihr
    cases left with
    | none =>
      cases right with
      | none =>
        rw [infer]
        exact .error List.mem_cons_self .arithOperands
      | some r =>
        rw [infer]
        exact hr r rfl
    | some l =>
      cases right with
      | none =>
        rw [infer]
        exact hl l rfl
      | some r =>
        rw [infer]
        exact operands_blames (hl l rfl) (hr r rfl) List.mem_cons_self .arithTypes
  | rel op left right line ihl ihr =>
    rw [nodes, ExprForm.nodes]
    have hl := left_blames (.expr ⟨.rel op left right, line⟩) right ihl
    have hr := right_blames (.expr ⟨.rel op left right, line⟩) left ihr
    cases left with
    | none =>
      simp only [infer]
      exact .error List.mem_cons_self (.relOperand (.inl rfl))
    | some l =>
      cases right with
      | none =>
        simp only [infer]
        exact .error List.mem_cons_self (.relOperand (.inr rfl))
      | some r =>
        rw [infer]
        exact operands_blames (hl l rfl) (hr r rfl) List.mem_cons_self .relTypes
  | logic op left right line ihl ihr =>
    rw [nodes, ExprForm.nodes]
    have hl := left_blames (.expr ⟨.logic op left right, line⟩) right ihl
    have hr := right_blames (.expr ⟨.logic op left right, line⟩) left ihr
    cases left with
    | none =>
      simp only [infer]
      exact .error List.mem_cons_self (.logicOperand (.inl rfl))
    | some l =>
      cases right with
      | none =>
        simp only [infer]
        exact .error List.mem_cons_self (.logicOperand (.inr rfl))
      | some r =>
        rw [infer]
        exact operands_blames (hl l rfl) (hr r rfl) List.mem_cons_self .logicTypes

theorem Place.infer_blames (p : Place) : Blames p.nodes (p.infer env) :=
  Place.infer_blames_of fun e _ => e.infer_blames

/-! ## Statements -/

theorem Place.inferAssign_blames (target : Place) (value : Expr) (line : Line) :
    Blames (Stmt.nodes ⟨.assign target value, line⟩) (target.inferAssign env value line) := by
  have hself : Node.stmt ⟨.assign target value, line⟩ ∈ Stmt.nodes ⟨.assign target value, line⟩ := by
    rw [Stmt.nodes]
    exact List.mem_cons_self
  have htarget : Blames (Stmt.nodes ⟨.assign target value, line⟩) (target.infer env) := by
    refine target.infer_blames.mono fun n hn => ?_
    rw [Stmt.nodes, StmtForm.nodes]
    exact List.mem_cons_of_mem _ (List.mem_append_left _ hn)
  have hvalue : Blames (Stmt.nodes ⟨.assign target value, line⟩) (value.infer env) := by
    refine value.infer_blames.mono fun n hn => ?_
    rw [Stmt.nodes, StmtForm.nodes]
    exact List.mem_cons_of_mem _ (List.mem_append_right _ hn)
  refine .bind htarget fun τ => .bind hvalue fun σ => ?_
  split
  · rename_i reason hr
    exact .error hself (.arrayAssignment hr)
  · refine .ite (fun _ => .ok) fun hne => .error hself (.assignTypes ?_)
    simpa [Ty.agrees] using hne

theorem Expr.inferCondition_blames (e : Expr) (body : List Stmt) (line : Line) :
    Blames (Branch.nodes ⟨some e, body, line⟩) (e.inferCondition env) := by
  rw [Branch.nodes, nodes?]
  refine .bind (e.infer_blames.mono fun n hn => ?_) fun τ => .ite (fun _ => .ok) fun hne => ?_
  · exact List.mem_cons_of_mem _ (List.mem_append_left _ hn)
  · have hk : τ.kind ≠ Ty.bool.kind := by simpa [Ty.agrees] using hne
    exact .error List.mem_cons_self (.conditionType hk)

end

theorem Stops.about {t u : Table} {w : Task} {path : List Opening} {f : Fault} (h : Stops t w path f u)
    (ht : 0 < t.depth) : ∃ n ∈ w.nodes, f.About n := by
  induction h with
  | assign h => exact Place.inferAssign_blames _ _ _ _ h
  | ret h | proc h =>
    obtain ⟨n, hn, hf⟩ := Expr.infer_blames _ _ h
    exact ⟨n, List.mem_cons_of_mem _ hn, hf⟩
  | condition h => exact Expr.inferCondition_blames _ _ _ _ h
  | brk => exact ⟨_, List.mem_cons_self, .brk⟩
  | cont => exact ⟨_, List.mem_cons_self, .cont⟩
  | emptyCond => exact ⟨_, List.mem_cons_self, .malformedCond⟩
  | declared => exact ⟨_, List.mem_cons_self, .takenDeclaration⟩
  | unnamedHeader _ hn => exact ⟨_, List.mem_cons_self, .malformedHeader hn⟩
  | emptyVars hb => exact ⟨_, List.mem_cons_self, .malformedVars hb⟩
  | unnamed hn => exact ⟨_, List.mem_cons_self, .malformedDefinition hn⟩
  | cond _ _ ih | loop _ ih =>
    obtain ⟨n, hn, hf⟩ := ih (Nat.succ_pos _)
    exact ⟨n, List.mem_cons_of_mem _ hn, hf⟩
  | branch _ _ ih =>
    obtain ⟨n, hn, hf⟩ := ih (Nat.succ_pos _)
    exact ⟨n, List.mem_cons_of_mem _ (List.mem_append_right _ hn), hf⟩
  | define _ ih =>
    obtain ⟨n, hn, hf⟩ := ih ht
    exact ⟨n, List.mem_cons_of_mem _ hn, hf⟩
  | head _ ih | headBranch _ ih =>
    obtain ⟨n, hn, hf⟩ := ih ht
    exact ⟨n, List.mem_append_left _ hn, hf⟩
  | tail h _ ih | tailBranch h _ ih =>
    obtain ⟨n, hn, hf⟩ := ih (h.depth.1 ▸ ht)
    exact ⟨n, List.mem_append_right _ hn, hf⟩
  | declare _ _ h =>
    rw [(Table.declareGlobal_error ht h).2]
    exact ⟨_, List.mem_cons_self, .takenHeader⟩
  | register _ _ h =>
    rw [(Table.declareGlobal_error ht h).2]
    exact ⟨_, List.mem_cons_self, .takenDefinition⟩
  | @vars t u names ty line es e es' f _ _ hes hd h =>
    have he : e ∈ Stmt.varEntries names ty line := by
      rw [hes]
      exact List.mem_append_right _ List.mem_cons_self
    obtain ⟨x, hx, rfl⟩ := List.mem_map.mp he
    rw [(Table.declare_error ((Table.declareAll_depth hd).1 ▸ ht) h).2]
    exact ⟨_, List.mem_cons_self, .takenVariable hx⟩
  | @params t u v header body line es e es' f _ _ hes hd h =>
    have he : e ∈ header.paramEntries := by
      rw [hes]
      exact List.mem_append_right _ List.mem_cons_self
    rw [Header.paramEntries, Header.parameters, List.mem_map] at he
    obtain ⟨⟨x, ty, l⟩, hx, rfl⟩ := he
    obtain ⟨g, hg, hx⟩ := List.mem_flatMap.mp hx
    obtain ⟨y, hy, hxy⟩ := List.mem_map.mp hx
    cases hxy
    rw [(Table.declare_error (Table.openScope_declareAll_pos hd) h).2]
    exact ⟨_, List.mem_cons_self, .takenParameter hg hy⟩
  | definition _ _ hp _ ih =>
    obtain ⟨n, hn, hf⟩ := ih (Table.openScope_declareAll_pos hp)
    exact ⟨n, List.mem_cons_of_mem _ hn, hf⟩

theorem Task.check_blames {t : Table} (w : Task) (ht : 0 < t.depth) : Blames w.nodes (w.check.run t).result := by
  intro f h
  obtain ⟨path, hs⟩ := stops_of_faults ⟨h, rfl⟩
  exact hs.about ht

end Dana
