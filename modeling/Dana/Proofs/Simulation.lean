import Dana.Proofs.Rewriting

/-!
# Programs that are checked alike

Where a rewriting has a simulation, a check of the rewritten program goes side by side
with one of the program itself: first for the types of expressions, which see of the
tables only what names stand for, then for statements.
-/

namespace Dana

open Check

namespace Simulation

variable {φ : Rewriting} (S : Simulation φ) {env env' : Env}

/-! ## Expressions -/

theorem operands_alike {x x' y y' : Except Fault Ty} {op : String} {line : Line} {k : Ty → Ty}
    (hx : Alike S.fault (types φ) x x') (hy : Alike S.fault (types φ) y y')
    (hk : ∀ τ : Ty, k (τ.resize φ.size) = (k τ).resize φ.size) :
    Alike S.fault (types φ)
      (do
        let l ← x
        let r ← y
        operandsAgree op l r line
        return k l)
      (do
        let l ← x'
        let r ← y'
        operandsAgree op l r (φ.line line)
        return k l) := by
  refine hx.bind fun l l' hl => hy.bind fun r r' hr => ?_
  subst hl hr
  unfold operandsAgree
  rw [Ty.agrees_resize]
  by_cases h : l.agrees r = true
  · rw [if_pos h, if_pos h]
    exact .ok (hk l)
  · rw [if_neg h, if_neg h]
    exact .error (S.fault_rewrite ⟨.typeMismatch _ l r, line⟩)

theorem line_rewrite (e : Expr) : (e.rewrite φ).line = φ.line e.line := by
  obtain ⟨form, line⟩ := e
  rfl

theorem inferIndexed_alike {name : String} {line : Line} : ∀ {es : List Expr} {τ : Ty},
    (∀ e ∈ es, Alike S.fault (types φ) (e.infer env) ((e.rewrite φ).infer env')) →
      Alike S.fault (types φ) (Place.inferIndexed env name line τ es)
        (Place.inferIndexed env' name (φ.line line) (τ.resize φ.size) (Expr.rewriteAll φ es))
  | [], τ, _ => by
    rw [Expr.rewriteAll, Place.inferIndexed, Place.inferIndexed]
    exact .ok rfl
  | e :: es, .array elem size, h => by
    obtain ⟨he, hes⟩ := List.forall_mem_cons.mp h
    rw [Expr.rewriteAll, Ty.resize, Place.inferIndexed, Place.inferIndexed]
    refine he.bind fun ι ι' hι => ?_
    subst hι
    have hint : ι.agrees .int = true ↔ (ι.resize φ.size).agrees .int = true := by
      rw [← Ty.agrees_resize φ.size]
      rfl
    refine .ite hint (inferIndexed_alike hes) ?_
    rw [line_rewrite]
    exact .error (S.fault_rewrite ⟨.indexType name ι, e.line⟩)
  | e :: es, .scalar s, _ | e :: es, .reference base, _ => by
    rw [Expr.rewriteAll, Ty.resize, Place.inferIndexed, Place.inferIndexed]
    · exact .error (S.fault_rewrite ⟨.notAnArray name, line⟩)
    · simp
    · simp

theorem inferArgs_alike {function : String} {line : Line} {formals formals' : List (String × Ty)}
    (hformals : List.Forall₂ (φ.Param S.fault) formals formals') :
    ∀ {es : List Expr}, (∀ e ∈ es, Alike S.fault (types φ) (e.infer env) ((e.rewrite φ).infer env')) →
      Alike S.fault (fun _ _ => True) (Call.inferArgs env function line formals es)
        (Call.inferArgs env' function (φ.line line) formals' (Expr.rewriteAll φ es)) := by
  induction hformals with
  | nil =>
    intro es _
    simp only [Call.inferArgs]
    exact .ok trivial
  | @cons p p' ps ps' hp _ ih =>
    intro es h
    obtain ⟨x, τ⟩ := p
    obtain ⟨x', τ'⟩ := p'
    obtain ⟨hx, hkind, hfault⟩ := hp
    simp only at hx hkind hfault
    subst hx
    cases es with
    | nil =>
      simp only [Expr.rewriteAll, Call.inferArgs]
      exact .ok trivial
    | cons e es =>
      obtain ⟨he, hes⟩ := List.forall_mem_cons.mp h
      rw [Expr.rewriteAll, Call.inferArgs, Call.inferArgs]
      refine he.bind fun σ σ' hσ => ?_
      subst hσ
      have hagrees : τ.agrees σ = true ↔ τ'.agrees (σ.resize φ.size) = true := by
        unfold Ty.agrees
        rw [hkind, Ty.kind_resize]
      exact .ite hagrees (ih hes) (.error (hfault function σ line))

variable {S}
variable (henv : S.Envs env env')
include henv

theorem place_alike_of {p : Place}
    (h : ∀ e ∈ p.indices, Alike S.fault (types φ) (e.infer env) ((e.rewrite φ).infer env')) :
    Alike S.fault (types φ) (p.infer env) ((p.rewrite φ).infer env') := by
  obtain ⟨ident, indices, isString, line⟩ := p
  rw [Place.rewrite, Place.infer, Place.infer]
  cases isString with
  | true =>
    rw [if_pos rfl, if_pos rfl]
    refine .ok ?_
    unfold types Ty.string Ty.resize
    rw [S.size_none]
    rfl
  | false =>
    rw [if_neg Bool.false_ne_true, if_neg Bool.false_ne_true, if_neg Bool.false_ne_true]
    refine .ite .rfl (.error (S.fault_rewrite ⟨.malformed "l-value", line⟩)) ?_
    have htype := henv.type? ident.name
    generalize env.type? ident.name = o, env'.type? ident.name = o' at htype ⊢
    cases htype with
    | none => exact .error (S.fault_rewrite ⟨.undeclaredVariable ident.name, line⟩)
    | @some τ τ' hτ =>
      simp only
      rw [hτ]
      exact inferIndexed_alike S h

theorem call_alike_of {c : Call}
    (h : ∀ e ∈ c.args, Alike S.fault (types φ) (e.infer env) ((e.rewrite φ).infer env')) :
    Alike S.fault (types φ) (c.infer env) ((c.rewrite φ).infer env') := by
  obtain ⟨callee, args, line⟩ := c
  rw [Call.rewrite, Call.infer, Call.infer]
  refine .ite .rfl (.error (S.fault_rewrite ⟨.malformed "function call", line⟩)) ?_
  have hfunction := henv.function? callee.name
  simp only
  generalize env.function? callee.name = o, env'.function? callee.name = o' at hfunction ⊢
  cases hfunction with
  | none => exact .error (S.fault_rewrite ⟨.undefinedFunction callee.name, line⟩)
  | @some g g' hg =>
    have hformals := S.formals hg
    have harity : g'.arity = g.arity := by
      rw [Header.arity_eq, Header.arity_eq, hformals.length_eq]
    have hlength : (Expr.rewriteAll φ args).length = args.length := by
      clear h
      induction args with
      | nil => rfl
      | cons e es ih => rw [Expr.rewriteAll, List.length_cons, List.length_cons, ih]
    simp only
    rw [harity, hlength]
    refine .ite .rfl ?_ (.error (S.fault_rewrite ⟨.arity callee.name g.arity args.length, line⟩))
    exact (inferArgs_alike S hformals h).bind fun _ _ _ => .ok (S.resultType hg)

theorem expr_alike (e : Expr) : Alike S.fault (types φ) (e.infer env) ((e.rewrite φ).infer env') := by
  induction e with
  | const value line | hex value line | bool value line =>
    rw [Expr.rewrite, ExprForm.rewrite, Expr.infer, Expr.infer]
    exact .ok rfl
  | place p line ih =>
    rw [Expr.rewrite, ExprForm.rewrite, Expr.infer, Expr.infer]
    exact place_alike_of henv ih
  | call c line ih =>
    rw [Expr.rewrite, ExprForm.rewrite, Expr.infer, Expr.infer]
    exact call_alike_of henv ih
  | not operand line ih =>
    cases operand with
    | none =>
      rw [Expr.rewrite, ExprForm.rewrite, Expr.rewrite?, Expr.infer, Expr.infer]
      exact .error (S.fault_rewrite ⟨.nullOperand "not", line⟩)
    | some e =>
      rw [Expr.rewrite, ExprForm.rewrite, Expr.rewrite?, Expr.infer, Expr.infer]
      exact (ih e rfl).bind fun _ _ _ => .ok rfl
  | arith op left right line ihl ihr =>
    cases left with
    | none =>
      cases right with
      | none =>
        simp only [Expr.rewrite, ExprForm.rewrite, Expr.rewrite?, Expr.infer]
        exact .error (S.fault_rewrite ⟨.nullOperand op.symbol, line⟩)
      | some r =>
        simp only [Expr.rewrite, ExprForm.rewrite, Expr.rewrite?, Expr.infer]
        exact ihr r rfl
    | some l =>
      cases right with
      | none =>
        simp only [Expr.rewrite, ExprForm.rewrite, Expr.rewrite?, Expr.infer]
        exact ihl l rfl
      | some r =>
        simp only [Expr.rewrite, ExprForm.rewrite, Expr.rewrite?, Expr.infer]
        exact operands_alike S (k := id) (ihl l rfl) (ihr r rfl) fun _ => rfl
  | rel op left right line ihl ihr | logic op left right line ihl ihr =>
    cases left with
    | none =>
      simp only [Expr.rewrite, ExprForm.rewrite, Expr.rewrite?, Expr.infer]
      exact .error (S.fault_rewrite ⟨.nullOperand op.symbol, line⟩)
    | some l =>
      cases right with
      | none =>
        simp only [Expr.rewrite, ExprForm.rewrite, Expr.rewrite?, Expr.infer]
        exact .error (S.fault_rewrite ⟨.nullOperand op.symbol, line⟩)
      | some r =>
        simp only [Expr.rewrite, ExprForm.rewrite, Expr.rewrite?, Expr.infer]
        exact operands_alike S (k := fun _ => .bool) (ihl l rfl) (ihr r rfl) fun _ => rfl

theorem condition_alike (e : Expr) :
    Alike S.fault (fun _ _ => True) (e.inferCondition env) ((e.rewrite φ).inferCondition env') := by
  refine (expr_alike henv e).bind fun τ τ' hτ => ?_
  subst hτ
  have hbool : τ.agrees .bool = true ↔ (τ.resize φ.size).agrees .bool = true := by
    rw [← Ty.agrees_resize φ.size]
    rfl
  refine .ite hbool (.ok trivial) ?_
  rw [line_rewrite]
  exact .error (S.fault_rewrite ⟨.conditionType τ, e.line⟩)

theorem place_alike (p : Place) : Alike S.fault (types φ) (p.infer env) ((p.rewrite φ).infer env') :=
  place_alike_of henv fun e _ => expr_alike henv e

theorem assign_alike (target : Place) (value : Expr) (line : Line) :
    Alike S.fault (fun _ _ => True) (target.inferAssign env value line)
      ((target.rewrite φ).inferAssign env' (value.rewrite φ) (φ.line line)) := by
  -- a string literal is an array, so that its text does not get into a fault
  have hname : target.isString = false → (target.rewrite φ).ident.name = target.ident.name := by
    obtain ⟨ident, indices, isString, l⟩ := target
    intro hs
    cases hs
    rfl
  have hstring : ∀ {τ}, target.isString = true → target.infer env = .ok τ → τ.isArray = true := by
    intro τ hs hτ
    rw [Place.infer_eq, if_pos hs] at hτ
    cases hτ
    rfl
  have htarget := place_alike henv target
  unfold Place.inferAssign
  generalize hx : target.infer env = x, (target.rewrite φ).infer env' = x' at htarget ⊢
  cases htarget with
  | error hf => exact .error hf
  | @ok τ τ' hτ =>
    refine (expr_alike henv value).bind fun σ σ' hσ => ?_
    subst hτ hσ
    have hobjection : arrayObjection (τ.resize φ.size) (σ.resize φ.size) = arrayObjection τ σ := by
      unfold arrayObjection
      rw [Ty.isArray_resize, Ty.isArray_resize]
    simp only [hobjection]
    cases ho : arrayObjection τ σ with
    | some reason => exact .error (S.fault_rewrite ⟨.arrayAssignment reason, line⟩)
    | none =>
      have hplain : target.isString = false := by
        rw [Bool.eq_false_iff]
        intro hs
        have harray := hstring hs hx
        rw [(arrayObjection_eq_none.mp ho).1] at harray
        cases harray
      simp only [Ty.agrees_resize, hname hplain]
      exact .ite .rfl (.ok trivial) (.error (S.fault_rewrite ⟨.typeMismatch _ τ σ, line⟩))

omit henv

/-! ## Statements -/

variable (S)

theorem paired_env {t t' : Table} (h : t.Paired S.entry t') : S.Envs t.env t'.env where
  type? x := by
    have hfind := h.find? (fun _ _ => S.name) x
    unfold Table.env
    simp only
    generalize t.find? x = o, t'.find? x = o' at hfind ⊢
    cases hfind with
    | none => exact .none
    | some he => exact .some (S.deref he)
  function? := h.function? (fun _ _ => S.name) fun _ _ => S.header?

theorem fault_internal (message : String) : S.fault ⟨.internal message, 0⟩ ⟨.internal message, 0⟩ := by
  have h := S.fault_rewrite ⟨.internal message, 0⟩
  unfold Fault.rewrite at h
  rwa [S.line_zero] at h

theorem fault_redeclaration {e e' : Entry} (he : S.entry e e') :
    S.fault ⟨.redeclaration e.noun e.name, e.line⟩ ⟨.redeclaration e'.noun e'.name, e'.line⟩ := by
  rw [S.name he, S.noun he, S.line he]
  exact S.fault_rewrite ⟨.redeclaration e.noun e.name, e.line⟩

/-- The two actions do alike, and what they give does not matter. -/
abbrev Runs {α β : Type} (m : Check α) (m' : Check β) : Prop :=
  m.Parallel S.likeness (Table.Paired S.entry) m' (fun _ _ => True) (Table.Paired S.entry)

theorem runs_pure {α β : Type} {a : α} {b : β} : S.Runs (pure a) (pure b) :=
  parallel_pure trivial

theorem runs_fail {c : Cause} {line : Line} :
    S.Runs (fail c line : Check Unit) (fail (c.mapTypes (Ty.resize φ.size)) (φ.line line) : Check Unit) :=
  parallel_fail (S.fault_rewrite ⟨c, line⟩) fun _ _ h => h

theorem runs_ask {α β : Type} {g : Table → Except Fault α} {g' : Table → Except Fault β}
    (hg : ∀ t t', t.Paired S.entry t' → Alike S.fault (fun _ _ => True) (g t) (g' t')) :
    S.Runs (ask g) (ask g') :=
  parallel_ask hg fun _ _ h => h

theorem runs_bind {α β γ δ : Type} {m : Check α} {m' : Check β} {k : α → Check γ} {k' : β → Check δ}
    (hm : S.Runs m m') (hk : ∀ a b, S.Runs (k a) (k' b)) : S.Runs (m >>= k) (m' >>= k') :=
  parallel_bind hm fun a b _ => hk a b

theorem runs_openScope : S.Runs openScope openScope := by
  refine parallel_change (fun t t' h => .ok h.openScope) (fun _ _ h => h) fun u u' h => ?_
  rw [h.depth]
  exact (S.depths _).1

theorem runs_closeScope : S.Runs closeScope closeScope := by
  refine parallel_change (fun t t' h => ?_) (fun _ _ h => h) fun u u' h => ?_
  · obtain ⟨ss, depth⟩ := t
    obtain ⟨ss', depth'⟩ := t'
    obtain ⟨hs, hd⟩ := h
    cases hs with
    | nil => exact .error (S.fault_internal _)
    | cons _ hrest => exact .ok ⟨hrest, hd⟩
  · rw [h.depth]
    exact (S.depths _).2.1

theorem runs_openLoop : S.Runs openLoop openLoop := by
  refine parallel_change (fun t t' h => .ok h.openLoop) (fun _ _ h => h) fun u u' h => ?_
  rw [h.loopDepth]
  exact (S.depths _).2.2.1

theorem runs_closeLoop : S.Runs closeLoop closeLoop := by
  refine parallel_change (fun t t' h => .ok h.closeLoop) (fun _ _ h => h) fun u u' h => ?_
  rw [h.loopDepth]
  exact (S.depths _).2.2.2

theorem runs_declare {e e' : Entry} (he : S.entry e e') :
    S.Runs (change (·.declare e) fun _ => []) (change (·.declare e') fun _ => []) :=
  parallel_change (fun _ _ h => h.declare (fun _ _ => S.name) he (S.fault_redeclaration he) (S.fault_internal _))
    (fun _ _ h => h) fun _ _ _ => S.journal_nil

theorem runs_register (h : Header) : S.Runs (register h) (register (φ.header h)) := by
  have he := S.ofHeader h
  have hname : (φ.header h).name = h.name := S.name he
  have hline : (φ.header h).line = φ.line h.line := S.line he
  unfold register
  rw [hname, hline]
  by_cases hn : h.name = ""
  · rw [if_pos hn, if_pos hn]
    exact S.runs_fail
  · rw [if_neg hn, if_neg hn]
    exact parallel_change (fun _ _ ht => ht.declareGlobal (fun _ _ => S.name) he (S.fault_redeclaration he)
      (S.fault_internal _)) (fun _ _ ht => ht) fun _ _ _ => S.registered h

theorem function?_parallel (h : Header) :
    (ask fun t => .ok (t.function? h.name)).Parallel S.likeness (Table.Paired S.entry)
      (ask fun t => .ok (t.function? (φ.header h).name)) (Option.Rel S.header) (Table.Paired S.entry) := by
  have hname : (φ.header h).name = h.name := S.name (S.ofHeader h)
  rw [hname]
  exact parallel_ask (fun _ _ ht => .ok ((S.paired_env ht).function? h.name)) fun _ _ ht => ht

theorem runs_headerDeclare (h : Header) (line : Line) :
    S.Runs (h.declare line) ((φ.header h).declare (φ.line line)) := by
  have hname : (φ.header h).name = h.name := S.name (S.ofHeader h)
  refine parallel_bind (S.function?_parallel h) fun g g' hg => ?_
  cases hg with
  | none => exact S.runs_register h
  | some _ =>
    simp only [hname]
    exact S.runs_fail

theorem runs_ensureRegistered (h : Header) : S.Runs h.ensureRegistered (φ.header h).ensureRegistered := by
  refine parallel_bind (S.function?_parallel h) fun g g' hg => ?_
  cases hg with
  | none => exact S.runs_register h
  | some _ => exact S.runs_pure

theorem runs_bindParameters (h : Header) : S.Runs h.bindParameters (φ.header h).bindParameters := by
  have hentries := S.paramEntries h
  unfold Header.paramEntries at hentries
  rw [List.forall₂_map_left_iff, List.forall₂_map_right_iff] at hentries
  exact parallel_forM (fun _ _ he => S.runs_declare he) hentries

theorem runs_bindVariables (names : List String) (ty : Ty) (line : Line) :
    S.Runs (Stmt.bindVariables names ty line) (Stmt.bindVariables names (ty.resize φ.size) (φ.line line)) := by
  refine parallel_forM (X := Eq) (fun x y hxy => ?_) (List.forall₂_same.mpr fun _ _ => rfl)
  subst hxy
  exact S.runs_declare (S.ofVariable x ty line)

theorem runs_requireLoop (keyword : String) (line : Line) :
    S.Runs (requireLoop keyword line) (requireLoop keyword (φ.line line)) := by
  refine S.runs_ask fun t t' ht => ?_
  unfold Table.inLoop
  rw [ht.loopDepth]
  exact .ite .rfl (.ok trivial) (.error (S.fault_rewrite ⟨.loopContext keyword, line⟩))

theorem runs_noteLabel (line : Line) (label : Option String) :
    S.Runs (noteLabel line label) (noteLabel (φ.line line) (φ.label label)) := by
  have hnote : ∀ line label (t : Table), (noteLabel line label).run t = ⟨.ok (), t, labelRecord line label⟩ := by
    intro line label t
    cases label <;> rfl
  intro t t' ht
  rw [hnote, hnote]
  exact .ok trivial ht (S.label line label)

theorem runs_exprCheck (e : Expr) : S.Runs e.check (e.rewrite φ).check :=
  S.runs_ask fun _ _ ht => (expr_alike (S.paired_env ht) e).mono fun _ _ _ => trivial

theorem runs_checkCondition (condition : Option Expr) :
    S.Runs (Branch.checkCondition condition) (Branch.checkCondition (Expr.rewrite? φ condition)) := by
  cases condition with
  | none => exact S.runs_pure
  | some e => exact S.runs_ask fun _ _ ht => condition_alike (S.paired_env ht) e

/-- **A program and its rewriting are checked alike.** -/
theorem runs_check (w : Task) : S.Runs w.check (w.rewrite φ).check := by
  induction w with
  | assign target value line =>
    exact S.runs_ask fun _ _ ht => assign_alike (S.paired_env ht) target value line
  | skip line | exit line | nil | noBranch => exact S.runs_pure
  | ret value line =>
    cases value with
    | none => exact S.runs_pure
    | some e => exact S.runs_bind (S.runs_exprCheck e) fun _ _ => S.runs_pure
  | brk label line => exact S.runs_requireLoop "break" line
  | cont label line => exact S.runs_requireLoop "continue" line
  | cond bs line ih =>
    cases bs with
    | nil => exact S.runs_fail
    | cons b bs =>
      exact S.runs_bind S.runs_openScope fun _ _ => S.runs_bind ih fun _ _ => S.runs_closeScope
  | loop label body line ih =>
    exact S.runs_bind (S.runs_noteLabel line label) fun _ _ => S.runs_bind S.runs_openLoop fun _ _ =>
      S.runs_bind S.runs_openScope fun _ _ => S.runs_bind ih fun _ _ =>
      S.runs_bind S.runs_closeScope fun _ _ => S.runs_closeLoop
  | proc call line =>
    exact S.runs_bind S.runs_openScope fun _ _ => S.runs_bind (S.runs_exprCheck call) fun _ _ => S.runs_closeScope
  | define d line ih => exact ih
  | declare h line => exact S.runs_headerDeclare h line
  | vars names ty line =>
    simp only [Task.rewrite, Stmt.rewrite, StmtForm.rewrite, Task.check, Stmt.check, Ty.isReference_resize]
    by_cases hbad : (names.isEmpty || ty.isReference) = true
    · rw [if_pos hbad, if_pos hbad]
      exact S.runs_fail
    · rw [if_neg hbad, if_neg hbad]
      exact S.runs_bindVariables names ty line
  | cons s ss ih ihs | consBranch s ss ih ihs => exact S.runs_bind ih fun _ _ => ihs
  | branch condition body line ih =>
    exact S.runs_bind (S.runs_checkCondition condition) fun _ _ => S.runs_bind S.runs_openScope fun _ _ =>
      S.runs_bind ih fun _ _ => S.runs_closeScope
  | definition header body line ih =>
    have hname : (φ.header header).name = header.name := S.name (S.ofHeader header)
    simp only [Task.rewrite, Definition.rewrite, Task.check, Definition.check, hname]
    by_cases hn : header.name = ""
    · rw [if_pos hn, if_pos hn]
      exact S.runs_fail
    · rw [if_neg hn, if_neg hn]
      exact S.runs_bind (S.runs_ensureRegistered header) fun _ _ =>
        S.runs_bind (parallel_note (S.checkingFunction header)) fun _ _ => S.runs_bind S.runs_openScope fun _ _ =>
        S.runs_bind (S.runs_bindParameters header) fun _ _ => S.runs_bind ih fun _ _ => S.runs_closeScope

end Simulation

end Dana
