import Dana.Proofs.Blame

/-!
# Internal faults

An internal fault says that a scope was closed or written to with none open. No
program brings that about (`checks_never_internal`): with a scope open to begin with,
every fault is about a node of the program, and an internal one is about none.
-/

namespace Dana

def Fault.isInternal (f : Fault) : Bool :=
  match f.cause with
  | .internal _ => true
  | _ => false

theorem Fault.code_eq_iff_isInternal (f : Fault) : f.code = "E0014" ↔ f.isInternal = true := by
  obtain ⟨cause, line⟩ := f
  cases cause <;> simp [code, Cause.code, isInternal]

def NeverInternal {α : Type} (x : Except Fault α) : Prop :=
  ∀ f, x = .error f → f.isInternal = false

theorem Fault.About.not_isInternal {f : Fault} {n : Node} (h : f.About n) : f.isInternal = false := by
  cases h <;> rfl

theorem Blames.neverInternal {α : Type} {ns : List Node} {x : Except Fault α} (h : Blames ns x) :
    NeverInternal x := by
  intro f hf
  obtain ⟨n, -, hn⟩ := h f hf
  exact hn.not_isInternal

/-- **No internal faults.** In a table with a scope open, nothing that is checked
ends at one. So the code of internal faults is never reported for a program. -/
theorem checks_never_internal {t : Table} (ht : 0 < t.depth) :
    (∀ w : Task, NeverInternal (w.check.run t).result) ∧
    (∀ e : Expr, NeverInternal (e.check.run t).result) ∧
    (∀ p : Place, NeverInternal (p.check.run t).result) ∧
    ∀ (p : Program) (f : Fault), check p = .error f → f.code ≠ "E0014" := by
  refine ⟨fun w => (w.check_blames ht).neverInternal, fun e => e.infer_blames.neverInternal,
    fun p => p.infer_blames.neverInternal, ?_⟩
  intro p f h
  rw [check, p.check_result] at h
  have hf := (Task.check_blames (.block p) (by decide)).neverInternal f h
  rw [Ne, f.code_eq_iff_isInternal, hf]
  decide

def repeated : List Stmt :=
  [.vars ["x", "x"] .int 1]

/-- Without a scope the same statement does end at an internal fault. -/
theorem checks_never_internal_repeated :
    0 < Table.empty.depth ∧
    ((Stmt.checkAll repeated).run .empty).result = .error ⟨.redeclaration "variable" "x", 1⟩ ∧
    NeverInternal ((Stmt.checkAll repeated).run .empty).result ∧
    Table.empty.closeScope = .ok ⟨[], 0⟩ ∧
    ((Stmt.checkAll repeated).run ⟨[], 0⟩).result = .error Table.noScope :=
  ⟨by decide, rfl, (checks_never_internal (t := .empty) (by decide)).1 (.block repeated), rfl, rfl⟩

end Dana
