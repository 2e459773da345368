import Dana.Proofs.Clean
import Dana.Proofs.State

/-!
# References in types

A place takes one reference off the type that was declared, and `Ty.isArray` looks
behind one more. Types with references elsewhere can be declared all the same: in the
elements of an array, in the result of a function, or two in a row. So a result may
be a reference (`results_unwrapped_iff` says in which tables), and an array behind
two references may be assigned (`assign_arrays_iff`).
-/

namespace Dana

/-! ## Tables after checks -/

/-- The tables of a checker that starts with the library and goes over programs, one
after the other, whether they pass or not. -/
inductive Table.Checked : Table → Prop
  | standard : Checked .standard
  | after {t} (p : Program) : Checked t → Checked (p.check.run t).table

section
variable {t : Table}

theorem Program.check_table (p : Program) (t : Table) :
    (p.check.run t).table = ((Stmt.checkAll p).run t).table := by
  simp only [Program.check, Check.run, bind, Check.bind, Check.note]
  rcases Stmt.checkAll p t with ⟨_ | _, _, _⟩ <;> rfl

theorem Stmt.checkAll_leaves (p : List Stmt) (ht : 0 < t.depth) :
    Leaves t.scopes ((Stmt.checkAll p).run t).table.scopes := by
  cases hr : ((Stmt.checkAll p).run t).result with
  | ok _ =>
    have hp : Passes t (.block p) ((Stmt.checkAll p).run t).table := passes_of_yields ⟨hr, rfl⟩
    apply Leaves.of_grows (hp.grows ht)
    intro e he
    obtain ⟨s, -, he⟩ := List.mem_flatMap.mp he
    exact Stmt.entries_variable e he
  | error f =>
    obtain ⟨path, hs⟩ := stops_of_faults (w := .block p) ⟨hr, rfl⟩
    exact hs.leaves ht

theorem Leaves.length_le {ss us : List Scope} (h : Leaves ss us) : ss.length ≤ us.length := by
  obtain ⟨extra, lower, vs, hs, rfl, -, -, hg⟩ := h
  rw [List.length_append, hg.length]
  exact Nat.le_add_left _ _

theorem Table.Checked.library (h : t.Checked) :
    0 < t.depth ∧ ∀ x g, Table.standard.function? x = some g → t.function? x = some g := by
  induction h with
  | standard => exact ⟨by decide, fun _ _ hg => hg⟩
  | @after t p _ ih =>
    have hl := Stmt.checkAll_leaves p ih.1
    rw [p.check_table]
    exact ⟨Nat.lt_of_lt_of_le ih.1 hl.length_le, fun x g hg => hl.function? (ih.2 x g hg)⟩

theorem Table.Checked.infer_void (h : t.Checked) :
    (Expr.call "writeInteger" [.const 0 0] 0).infer t.env = .ok .void := by
  -- a call of a procedure is void, and those of the library stay known
  have hw : t.env.function? "writeInteger" =
      some (.make "writeInteger" none [.ofNames ["n"] .int false] 0) := h.library.2 _ _ rfl
  simp only [Expr.call, Expr.infer, Call.infer, hw]
  rfl

end

/-! ## Results that are references -/

/-- No name in sight has a reference behind the one that a place takes off, and no
function gives one. -/
structure Table.Unwrapped (t : Table) : Prop where
  names : ∀ τ, t.env.Names τ → τ.isReference = false
  results : ∀ f h, f ≠ "" → t.function? f = some h → h.resultType.isReference = false

theorem Table.Unwrapped.offers {t : Table} {τ : Ty} (h : t.Unwrapped) (ho : t.env.Offers τ) :
    τ.isReference = false := by
  cases ho with
  | int | byte | bool | string => rfl
  | name hn => exact h.names _ hn
  | result hf hg => exact h.results _ _ hf hg

theorem Table.Clean.unwrapped {t : Table} (h : t.Clean) : t.Unwrapped where
  names _ hn := Ty.isReference_of_plain (h.offers (.name hn))
  results _ _ hf hg := Ty.isReference_of_plain (h.offers (.result hf hg))

/-- **When results are no references.** After any programs, no expression and no place has
a reference for its type exactly if the types in the table are as `Table.Unwrapped`
asks. -/
theorem results_unwrapped_iff {t : Table} (h : t.Checked) :
    ((∀ (e : Expr) τ, (e.check.run t).result = .ok τ → τ.isReference = false) ∧
      ∀ (p : Place) τ, (p.check.run t).result = .ok τ → τ.isReference = false) ↔ t.Unwrapped := by
  constructor
  · intro hresults
    obtain ⟨hexprs, hplaces⟩ := hresults
    refine ⟨fun τ hn => ?_, fun f g hf hg => ?_⟩
    · obtain ⟨p, hp⟩ := hn.inferred
      exact hplaces p τ hp
    · have ho : t.env.Offers g.resultType := .result hf hg
      obtain ⟨e, he⟩ := ho.inferred h.infer_void rfl
      exact hexprs e _ he
  · intro hu
    exact ⟨fun e τ he => hu.offers (Expr.infer_offers he), fun p τ hp => hu.offers (Place.infer_offers hp)⟩

theorem results_unwrapped_iff_halted :
    halted.Checked ∧ halted.Unwrapped ∧ halted.env.type? "a" = some (.reference .int) ∧
    (∀ (e : Expr) τ, (e.check.run halted).result = .ok τ → τ.isReference = false) ∧
    ∀ (p : Place) τ, (p.check.run halted).result = .ok τ → τ.isReference = false := by
  have hchecked : halted.Checked := .after halting .standard
  have hresults := (results_unwrapped_iff hchecked).mpr halted_clean.unwrapped
  exact ⟨hchecked, halted_clean.unwrapped, rfl, hresults⟩

def wrapping : Program :=
  [.declare (.make "f" (some (.reference .int)) [] 1), .vars ["x"] (.array (.reference .int) (some 2)) 2]

theorem results_wrapped :
    (wrapping.check.run .standard).table.Checked ∧
    ((Expr.call "f" [] 3).check.run (wrapping.check.run .standard).table).result = .ok (.reference .int) ∧
    ((Place.indexed "x" [.const 0 3] 3).check.run (wrapping.check.run .standard).table).result =
      .ok (.reference .int) :=
  ⟨.after wrapping .standard, rfl, rfl⟩

/-! ## Assignments of arrays -/

def Ty.hidesArray : Ty → Bool
  | .reference (.reference base) => base.kind = .array
  | _ => false

theorem Ty.hidesArray_iff {τ : Ty} : τ.hidesArray = true ↔ τ.kind = .array ∧ τ.isArray = false := by
  cases τ with
  | scalar s => simp [hidesArray, kind]
  | array elem size => simp [hidesArray, isArray, deref]
  | reference base =>
    cases base with
    | scalar s => simp [hidesArray, kind]
    | array elem size => simp [hidesArray, isArray, deref]
    | reference base => simp [hidesArray, kind, isArray, deref]

/-- **When arrays are not assigned.** The two sides of an assignment that passes have the
same kind. In a table this is never that of arrays exactly if no name in sight has a
type that hides one. -/
theorem assign_arrays_iff (t : Table) :
    (∀ target value line, ((Stmt.assign target value line).check.run t).result = .ok () →
      ∃ τ σ, (target.check.run t).result = .ok τ ∧ (value.check.run t).result = .ok σ ∧ τ.kind = σ.kind) ∧
    ((∀ target value line, ((Stmt.assign target value line).check.run t).result = .ok () →
      ∀ τ σ, (target.check.run t).result = .ok τ → (value.check.run t).result = .ok σ →
        τ.kind ≠ .array ∧ σ.kind ≠ .array) ↔ ∀ τ, t.env.Names τ → τ.hidesArray = false) := by
  refine ⟨fun target value line h => ?_, fun h τ hn => ?_, fun h target value line ha τ σ hτ hσ => ?_⟩
  · obtain ⟨τ, σ, hτ, hσ, -, -, hk⟩ := Place.inferAssign_eq_ok.mp h
    exact ⟨τ, σ, hτ, hσ, hk⟩
  · -- a place that hides an array can be assigned to itself
    rw [Bool.eq_false_iff]
    intro hh
    obtain ⟨hk, ha⟩ := Ty.hidesArray_iff.mp hh
    obtain ⟨p, hp⟩ := hn.inferred
    have hv : (Expr.place p).infer t.env = .ok τ := by rw [Expr.place, Expr.infer, hp]
    have hassign : p.inferAssign t.env (.place p) 0 = .ok () :=
      Place.inferAssign_eq_ok.mpr ⟨τ, τ, hp, hv, ha, ha, rfl⟩
    exact (h p (.place p) 0 hassign τ τ hp hv).1 hk
  · obtain ⟨τ', σ', hτ', hσ', hτa, -, hk⟩ := Place.inferAssign_eq_ok.mp ha
    cases hτ.symm.trans hτ'
    cases hσ.symm.trans hσ'
    have hne : τ.kind ≠ .array := by
      intro hkind
      have hh := Ty.hidesArray_iff.mpr ⟨hkind, hτa⟩
      rcases Place.infer_names hτ with rfl | hn
      · cases hτa
      · rw [h τ hn] at hh
        cases hh
    exact ⟨hne, hk ▸ hne⟩

def rows : Program :=
  [.vars ["x"] (.array (.reference (.reference (.array .int (some 3)))) (some 2)) 1]

theorem array_assigned :
    (rows.check.run .standard).table.Checked ∧
    ((Stmt.assign (.indexed "x" [.const 0 2] 2) (.place (.indexed "x" [.const 1 2] 2)) 2).check.run
      (rows.check.run .standard).table).result = .ok () ∧
    ∃ τ, ((Place.indexed "x" [.const 0 2] 2).check.run (rows.check.run .standard).table).result = .ok τ ∧
      ((Expr.place (.indexed "x" [.const 1 2] 2)).check.run (rows.check.run .standard).table).result = .ok τ ∧
      τ.kind = .array :=
  ⟨.after rows .standard, rfl, _, rfl, rfl, rfl⟩

end Dana
