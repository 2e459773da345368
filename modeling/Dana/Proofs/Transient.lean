import Dana.Proofs.Parallel

/-!
# Scopes that hold nothing

The scope of a procedure call, and the one round the branches of a conditional, are
closed with nothing entered into them. A check that does not open them gives the same
(`bareCheckAll_agrees`), as long as there is a global scope. The two go side by side
with tables that differ in empty scopes, neither innermost when a name is declared
nor global when a function is.
-/

namespace Dana

open Check

/-! ## Checking without them -/

mutual

/-- Opens no scope for a procedure call, and for a conditional only those of its branches. -/
def Stmt.bareCheck : Stmt → Check Unit
  | ⟨.cond branches, line⟩ =>
    if branches.isEmpty then fail (.malformed "if statement") line
    else Branch.bareCheckAll branches
  | ⟨.loop label body, line⟩ => do
    noteLabel line label
    openLoop
    openScope
    Stmt.bareCheckAll body
    closeScope
    closeLoop
  | ⟨.proc call, _⟩ => do
    let _ ← call.check
  | ⟨.define d, _⟩ => d.bareCheck
  -- no other statement has a scope or a statement in it
  | s => s.check
termination_by structural s => s

def Stmt.bareCheckAll : List Stmt → Check Unit
  | [] => pure ()
  | s :: ss => do
    s.bareCheck
    Stmt.bareCheckAll ss
termination_by structural ss => ss

def Branch.bareCheck : Branch → Check Unit
  | ⟨condition, body, _⟩ => do
    Branch.checkCondition condition
    openScope
    Stmt.bareCheckAll body
    closeScope
termination_by structural b => b

def Branch.bareCheckAll : List Branch → Check Unit
  | [] => pure ()
  | b :: bs => do
    b.bareCheck
    Branch.bareCheckAll bs
termination_by structural bs => bs

def Definition.bareCheck : Definition → Check Unit
  | ⟨header, body, line⟩ =>
    if header.name = "" then fail (.malformed "function definition") line
    else do
      header.ensureRegistered
      note (.checkingFunction header)
      openScope
      header.bindParameters
      Stmt.bareCheckAll body
      closeScope
termination_by structural d => d

end

def Task.bareCheck : Task → Check Unit
  | .stmt s => s.bareCheck
  | .block ss => Stmt.bareCheckAll ss
  | .branch b => b.bareCheck
  | .branches bs => Branch.bareCheckAll bs
  | .definition d => d.bareCheck

/-! ## Stacks with empty scopes between -/

/-- The first stack is the second with empty scopes put in where the mask is true. None
is put in below the global scope. -/
inductive Padded : List Bool → List Scope → List Scope → Prop
  | global (s : Scope) : Padded [false] [s] [s]
  | keep (s : Scope) {μ ss ss'} : Padded μ ss ss' → Padded (false :: μ) (s :: ss) (s :: ss')
  | pad {μ ss ss'} : Padded μ ss ss' → Padded (true :: μ) (.empty :: ss) ss'

namespace Padded

variable {μ : List Bool} {ss ss' : List Scope}

theorem refl : ∀ {ss : List Scope}, ss ≠ [] → Padded (ss.map fun _ => false) ss ss
  | [s], _ => .global s
  | s :: s' :: ss, _ => .keep s (refl (List.cons_ne_nil s' ss))

theorem eq_of_not_mem (h : Padded μ ss ss') (hμ : true ∉ μ) : ss = ss' := by
  induction h with
  | global s => rfl
  | keep s _ ih => rw [ih fun hm => hμ (.tail _ hm)]
  | pad _ _ => exact absurd (.head _) hμ

theorem ne_nil (h : Padded μ ss ss') : ss ≠ [] ∧ ss' ≠ [] := by
  induction h with
  | global s => simp
  | keep s _ _ => simp
  | pad _ ih => exact ⟨List.cons_ne_nil _ _, ih.2⟩

theorem findSome?_eq {α : Type} {f : Scope → Option α} (hf : f .empty = none) (h : Padded μ ss ss') :
    ss.findSome? f = ss'.findSome? f := by
  induction h with
  | global s => rfl
  | keep s _ ih => rw [List.findSome?_cons, List.findSome?_cons, ih]
  | pad _ ih => rw [List.findSome?_cons, hf, ih]

theorem declareLast (e : Entry) (h : Padded μ ss ss') :
    Alike Eq (Padded μ) (Table.declareLast e ss) (Table.declareLast e ss') := by
  induction h with
  | global s =>
    refine (Alike.refl (s.declare e)).bind fun u v huv => ?_
    subst huv
    exact .ok (.global u)
  | keep s hss ih =>
    obtain ⟨hne, hne'⟩ := hss.ne_nil
    rw [Table.declareLast_cons hne, Table.declareLast_cons hne']
    exact ih.bind fun _ _ hu => .ok (.keep s hu)
  | @pad μ ss ss' hss ih =>
    rw [Table.declareLast_cons hss.ne_nil.1]
    generalize Table.declareLast e ss = x, Table.declareLast e ss' = y at ih ⊢
    cases ih with
    | ok hu => exact .ok (.pad hu)
    | error hf => exact .error hf

end Padded

structure Table.Padded (μ : List Bool) (t t' : Table) : Prop where
  scopes : Dana.Padded μ t.scopes t'.scopes
  loopDepth : t.loopDepth = t'.loopDepth

namespace Table.Padded

variable {μ : List Bool} {t t' : Table}

theorem env (h : t.Padded μ t') : t.env = t'.env := by
  have hfind : ∀ x, t.find? x = t'.find? x := fun x => h.scopes.findSome?_eq (Scope.find?_empty x)
  have hfunction : t.function? = t'.function? := funext fun x => h.scopes.findSome?_eq rfl
  unfold Table.env
  simp only [hfind, hfunction]

theorem eq_of_not_mem (h : t.Padded μ t') (hμ : true ∉ μ) : t = t' := by
  obtain ⟨ss, depth⟩ := t
  obtain ⟨ss', depth'⟩ := t'
  rw [Table.mk.injEq]
  exact ⟨h.scopes.eq_of_not_mem hμ, h.loopDepth⟩

theorem inLoop (h : t.Padded μ t') : t.inLoop = t'.inLoop := by
  unfold Table.inLoop
  rw [h.loopDepth]

theorem declare (e : Entry) (h : t.Padded (false :: μ) t') :
    Alike Eq (Table.Padded (false :: μ)) (t.declare e) (t'.declare e) := by
  obtain ⟨ss, depth⟩ := t
  obtain ⟨ss', depth'⟩ := t'
  obtain ⟨hss, hd⟩ := h
  cases hss with
  | global s =>
    refine (Alike.refl (s.declare e)).bind fun u v huv => ?_
    subst huv
    exact .ok ⟨.global u, hd⟩
  | keep s hss =>
    refine (Alike.refl (s.declare e)).bind fun u v huv => ?_
    subst huv
    exact .ok ⟨.keep u hss, hd⟩

theorem declareGlobal (e : Entry) (h : t.Padded μ t') :
    Alike Eq (Table.Padded μ) (t.declareGlobal e) (t'.declareGlobal e) :=
  (h.scopes.declareLast e).bind fun _ _ hss => .ok ⟨hss, h.loopDepth⟩

theorem closeScope {b : Bool} (h : t.Padded (false :: b :: μ) t') :
    Alike Eq (Table.Padded (b :: μ)) t.closeScope t'.closeScope := by
  obtain ⟨ss, depth⟩ := t
  obtain ⟨ss', depth'⟩ := t'
  obtain ⟨hss, hd⟩ := h
  cases hss with
  | keep s hss => exact .ok ⟨hss, hd⟩

end Table.Padded

/-! ## Both checks -/

/-- What is written is not compared: the two open different scopes. -/
def sparing : Likeness where
  fault := Eq
  stuck t t' := ∃ μ, t.Padded μ t'
  journal _ _ := True
  journal_nil := trivial
  journal_append _ _ := trivial

section
variable {α β γ δ : Type} {μ μ' μ'' : List Bool}

/-- Both actions go on or both stop at the same fault. They find tables with the mask `μ`
and leave tables with the mask `μ'`. -/
abbrev Spares (μ μ' : List Bool) (m : Check α) (m' : Check β) : Prop :=
  m.Parallel sparing (Table.Padded μ) m' (fun _ _ => True) (Table.Padded μ')

theorem spares_pure {a : α} {b : β} : Spares μ μ (pure a) (pure b) :=
  parallel_pure trivial

theorem spares_fail {c : Cause} {line : Line} : Spares μ μ' (fail c line : Check α) (fail c line : Check β) :=
  parallel_fail rfl fun _ _ h => ⟨μ, h⟩

theorem spares_bind {m : Check α} {m' : Check β} {k : α → Check γ} {k' : β → Check δ} (hm : Spares μ μ' m m')
    (hk : ∀ a b, Spares μ' μ'' (k a) (k' b)) : Spares μ μ'' (m >>= k) (m' >>= k') :=
  parallel_bind hm fun a b _ => hk a b

theorem spares_ask {g : Table → Except Fault α} (hg : ∀ t t' : Table, t.Padded μ t' → g t = g t') :
    Spares μ μ (ask g) (ask g) := by
  refine parallel_ask (fun t t' h => ?_) fun _ _ h => ⟨μ, h⟩
  rw [hg t t' h]
  exact (Alike.refl (g t')).mono fun _ _ _ => trivial

theorem spares_change {g g' : Table → Except Fault Table} {r r' : Table → List Event}
    (hg : ∀ t t' : Table, t.Padded μ t' → Alike Eq (Table.Padded μ') (g t) (g' t')) :
    Spares μ μ' (change g r) (change g' r') :=
  parallel_change hg (fun _ _ h => ⟨μ, h⟩) fun _ _ _ => trivial

theorem spares_openScope : Spares μ (false :: μ) openScope openScope :=
  spares_change fun _ _ h => .ok ⟨.keep .empty h.scopes, h.loopDepth⟩

theorem spares_closeScope {b : Bool} : Spares (false :: b :: μ) (b :: μ) closeScope closeScope :=
  spares_change fun _ _ h => h.closeScope

theorem spares_openLoop : Spares μ μ openLoop openLoop :=
  spares_change fun _ _ h => .ok ⟨h.scopes, congrArg (· + 1) h.loopDepth⟩

theorem spares_closeLoop : Spares μ μ closeLoop closeLoop :=
  spares_change fun _ _ h => .ok ⟨h.scopes, congrArg (· - 1) h.loopDepth⟩

theorem spares_register (h : Header) : Spares μ μ (register h) (register h) := by
  unfold register
  by_cases hname : h.name = ""
  · rw [if_pos hname]
    exact spares_fail
  · rw [if_neg hname]
    exact spares_change fun _ _ ht => ht.declareGlobal (.ofHeader h)

theorem function?_spares (x : String) :
    (ask fun t => .ok (t.function? x)).Parallel sparing (Table.Padded μ) (ask fun t => .ok (t.function? x)) Eq
      (Table.Padded μ) :=
  parallel_ask (fun _ _ h => .ok (congrFun (congrArg Env.function? h.env) x)) fun _ _ h => ⟨μ, h⟩

theorem spares_headerDeclare (h : Header) (line : Line) : Spares μ μ (h.declare line) (h.declare line) := by
  refine parallel_bind (function?_spares h.name) fun g g' hg => ?_
  subst hg
  cases g with
  | none => exact spares_register h
  | some _ => exact spares_fail

theorem spares_ensureRegistered (h : Header) : Spares μ μ h.ensureRegistered h.ensureRegistered := by
  refine parallel_bind (function?_spares h.name) fun g g' hg => ?_
  subst hg
  cases g with
  | none => exact spares_register h
  | some _ => exact spares_pure

theorem spares_bindNames {as : List α} {e : α → Entry} :
    Spares (false :: μ) (false :: μ) (as.forM fun a => change (·.declare (e a)) fun _ => [])
      (as.forM fun a => change (·.declare (e a)) fun _ => []) := by
  refine parallel_forM (X := Eq) (fun a b hab => ?_) (List.forall₂_same.mpr fun _ _ => rfl)
  subst hab
  exact spares_change fun _ _ h => h.declare (e a)

theorem spares_requireLoop (keyword : String) (line : Line) :
    Spares μ μ (requireLoop keyword line) (requireLoop keyword line) :=
  spares_ask fun _ _ h => by rw [h.inLoop]

theorem spares_noteLabel (line : Line) (label : Option String) :
    Spares μ μ (noteLabel line label) (noteLabel line label) := by
  cases label with
  | none => exact spares_pure
  | some l => exact parallel_note trivial

theorem spares_exprCheck (e : Expr) : Spares μ μ e.check e.check :=
  spares_ask fun _ _ h => by rw [h.env]

theorem spares_checkCondition (condition : Option Expr) :
    Spares μ μ (Branch.checkCondition condition) (Branch.checkCondition condition) := by
  cases condition with
  | none => exact spares_pure
  | some e => exact spares_ask fun _ _ h => by rw [h.env]

/-- A scope that is opened on the left only is closed as it was opened. -/
theorem spares_scope {m : Check α} {m' : Check β} (h : Spares (true :: μ) (true :: μ) m m') :
    Spares μ μ (openScope >>= fun _ => m >>= fun _ => closeScope) (m' >>= fun _ => pure ()) := by
  have hopen : Spares μ (true :: μ) openScope (pure ()) := by
    intro t t' ht
    exact .ok trivial ⟨.pad ht.scopes, ht.loopDepth⟩ trivial
  have hclose : Spares (true :: μ) μ closeScope (pure ()) := by
    intro t t' ht
    obtain ⟨ss, depth⟩ := t
    obtain ⟨hss, hd⟩ := ht
    cases hss with
    | pad hss => exact .ok trivial ⟨hss, hd⟩ trivial
  have hscope := spares_bind hopen fun _ _ => spares_bind h fun _ _ => hclose
  exact hscope

end

/-- Branches are checked inside the scope of their conditional. -/
def Task.mask : Task → List Bool → List Bool
  | .branch _, μ | .branches _, μ => true :: false :: μ
  | .stmt _, μ | .block _, μ | .definition _, μ => false :: μ

theorem Task.spares_check (w : Task) (μ : List Bool) : Spares (w.mask μ) (w.mask μ) w.check w.bareCheck := by
  induction w generalizing μ with
  | assign target value line => exact spares_ask fun _ _ h => by rw [h.env]
  | skip line | exit line | nil | noBranch => exact spares_pure
  | ret value line =>
    cases value with
    | none => exact spares_pure
    | some e => exact spares_bind (spares_exprCheck e) fun _ _ => spares_pure
  | brk label line => exact spares_requireLoop "break" line
  | cont label line => exact spares_requireLoop "continue" line
  | cond bs line ih =>
    cases bs with
    | nil => exact spares_fail
    | cons b bs =>
      -- the branches find one empty scope more on the left
      have hscope := spares_scope (ih μ)
      rw [bind_pure_unit] at hscope
      exact hscope
  | loop label body line ih =>
    exact spares_bind (spares_noteLabel line label) fun _ _ => spares_bind spares_openLoop fun _ _ =>
      spares_bind spares_openScope fun _ _ => spares_bind (ih (false :: μ)) fun _ _ =>
      spares_bind spares_closeScope fun _ _ => spares_closeLoop
  | proc call line => exact spares_scope (spares_exprCheck call)
  | define d line ih => exact ih μ
  | declare h line => exact spares_headerDeclare h line
  | vars names ty line =>
    simp only [Task.check, Task.bareCheck, Stmt.bareCheck, Stmt.check]
    by_cases hbad : (names.isEmpty || ty.isReference) = true
    · rw [if_pos hbad]
      exact spares_fail
    · rw [if_neg hbad]
      exact spares_bindNames
  | cons s ss ih ihs | consBranch s ss ih ihs => exact spares_bind (ih μ) fun _ _ => ihs μ
  | branch condition body line ih =>
    exact spares_bind (spares_checkCondition condition) fun _ _ => spares_bind spares_openScope fun _ _ =>
      spares_bind (ih (true :: false :: μ)) fun _ _ => spares_closeScope
  | definition header body line ih =>
    simp only [Task.check, Task.bareCheck, Definition.check, Definition.bareCheck]
    by_cases hn : header.name = ""
    · rw [if_pos hn, if_pos hn]
      exact spares_fail
    · rw [if_neg hn, if_neg hn]
      exact spares_bind (spares_ensureRegistered header) fun _ _ => spares_bind (parallel_note trivial) fun _ _ =>
        spares_bind spares_openScope fun _ _ => spares_bind spares_bindNames fun _ _ =>
        spares_bind (ih (false :: μ)) fun _ _ => spares_closeScope

/-- **Empty scopes do not matter.** Where a scope is open, a check that opens none for
procedure calls and none round the branches of a conditional gives the same result. If
the program passes it leaves the same table, and in any case one in which every name
means the same. -/
theorem bareCheckAll_agrees {t : Table} (h : 0 < t.depth) (p : Program) :
    ((Stmt.bareCheckAll p).run t).result = ((Stmt.checkAll p).run t).result ∧
    ((Stmt.bareCheckAll p).run t).table.env = ((Stmt.checkAll p).run t).table.env ∧
    (((Stmt.checkAll p).run t).result = .ok () →
      ((Stmt.bareCheckAll p).run t).table = ((Stmt.checkAll p).run t).table) := by
  obtain ⟨ss, loops⟩ := t
  have hne : ss ≠ [] := List.ne_nil_of_length_pos h
  cases ss with
  | nil => exact absurd rfl hne
  | cons s ss =>
    have hmask : true ∉ false :: ss.map fun _ => false := by simp
    have hrun : ((Stmt.checkAll p).run ⟨s :: ss, loops⟩).Alike sparing (fun _ _ => True)
        (Table.Padded (false :: ss.map fun _ => false)) ((Stmt.bareCheckAll p).run ⟨s :: ss, loops⟩) :=
      Task.spares_check (.block p) _ ⟨.refl hne, rfl⟩
    generalize (Stmt.checkAll p).run ⟨s :: ss, loops⟩ = o, (Stmt.bareCheckAll p).run ⟨s :: ss, loops⟩ = o' at hrun ⊢
    cases hrun with
    | ok _ hu _ => exact ⟨rfl, hu.env.symm, fun _ => (hu.eq_of_not_mem hmask).symm⟩
    | error hf hu _ =>
      obtain ⟨μ, hu⟩ := hu
      exact ⟨congrArg Except.error hf.symm, hu.env.symm, fun hok => nomatch hok⟩

-- A function is defined in one branch and called in the next.
def branching : Program :=
  [.cond [⟨some (.not (.bool true 1) 1), [.define (.make "f" none [.ofNames ["x"] .int true] 2)
      [.loop none [.vars ["x"] .byte 3, .proc "f" [.const 1 4] 4] 3]], 1⟩,
    ⟨none, [.proc "f" [.const 2 5] 5], 5⟩] 1]

-- It stops in a call in a branch.
def stranded : Program :=
  [.cond [⟨none, [.vars ["x"] .int 6, .proc "f" [.var "y" 7] 7], 6⟩] 6]

theorem bareCheckAll_agrees_branching :
    0 < Table.empty.depth ∧
    ((Stmt.checkAll branching).run .empty).result = .ok () ∧
    ((Stmt.bareCheckAll branching).run .empty).result = .ok () ∧
    ((Stmt.bareCheckAll branching).run .empty).table = ((Stmt.checkAll branching).run .empty).table ∧
    ((Stmt.checkAll (branching ++ stranded)).run .empty).table.depth = 4 ∧
    ((Stmt.bareCheckAll (branching ++ stranded)).run .empty).table.depth = 2 ∧
    ((Stmt.bareCheckAll (branching ++ stranded)).run .empty).result =
      ((Stmt.checkAll (branching ++ stranded)).run .empty).result := by
  have h : 0 < Table.empty.depth := by decide
  have hok : ((Stmt.checkAll branching).run .empty).result = .ok () := by rfl
  obtain ⟨hresult, -, htable⟩ := bareCheckAll_agrees h branching
  exact ⟨h, hok, hresult.trans hok, htable hok, by rfl, by rfl, (bareCheckAll_agrees h (branching ++ stranded)).1⟩

-- Where no scope is open, the one of the conditional would be the global one.
example : ((Stmt.checkAll branching).run ⟨[], 0⟩).result = .ok () ∧
    ((Stmt.bareCheckAll branching).run ⟨[], 0⟩).result = .error ⟨.undefinedFunction "f", 5⟩ :=
  ⟨rfl, rfl⟩

end Dana
