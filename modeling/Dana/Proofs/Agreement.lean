import Dana.Proofs.Accept
import Dana.Proofs.Reachable

/-!
# The checker and the rules

A check in a table that matches a context passes exactly where the rules accept
the same piece of program, by induction over how it passes and over how it is
accepted. Every table of a session matches the context that is read off its
scopes, which gives `checks_iff_accepted`.
-/

namespace Dana

/-! ## Declarations that go through -/

namespace Table

variable {t : Table}

theorem declareGlobal_ok_iff {e : Entry} (ht : 0 < t.depth) :
    (∃ u, t.declareGlobal e = .ok u) ↔ t.findGlobal? e.name = none := by
  constructor
  · rintro ⟨u, hu⟩
    obtain ⟨inner, g, hs, hn, -⟩ := declareGlobal_ok.mp hu
    simpa [findGlobal?, hs] using hn
  · intro hn
    cases hd : t.declareGlobal e with
    | ok u => exact ⟨u, rfl⟩
    | error f => exact absurd hn (declareGlobal_error ht hd).1

/-- A row of declarations goes through if and only if the names differ from each
other and from those of the scope. -/
theorem declareAll_ok_iff {es : List Entry} (ht : 0 < t.depth) :
    (∃ u, t.declareAll es = .ok u) ↔ (es.map Entry.name).Nodup ∧ ∀ e ∈ es, t.findInnermost? e.name = none := by
  obtain ⟨_ | ⟨s, outer⟩, k⟩ := t
  · cases ht
  let row : Check Unit := es.forM fun e => Check.change (·.declare e) fun _ => []
  have hrow : Check.InTurn s (fun s' => ⟨s' :: outer, k⟩) id es (row.run ⟨s :: outer, k⟩) := Check.declareEach_inTurn
  have hyields : ∀ u, row.Yields ⟨s :: outer, k⟩ () u ↔ declareAll ⟨s :: outer, k⟩ es = .ok u := by
    intro u
    rw [← es.map_id]
    exact Check.yields_declareEach
  have hok : (∃ u, declareAll ⟨s :: outer, k⟩ es = .ok u) ↔ (row.run ⟨s :: outer, k⟩).result = .ok () := by
    simp [← hyields, Check.Yields]
  rw [hok]
  exact hrow.ok_iff

end Table

theorem Stmt.entries_declared (s : Stmt) : (s.entries.map fun e => (e.name, e.type)) = s.declared := by
  obtain ⟨kind, line⟩ := s
  cases kind with
  | vars names ty => simp [entries, declared, varEntries, Entry.ofBinding, Entry.type]
  | _ => rfl

theorem Header.paramEntries_formals (h : Header) :
    (h.paramEntries.map fun e => (e.name, e.type)) = h.formals := by
  simp [paramEntries, parameters, formals, List.map_flatMap, Entry.ofBinding, Entry.type, Function.comp_def]

/-! ## The simulation -/

/-- The table is one to check the task in where the rules have the context. The
scope of a conditional around its branches is no frame. -/
def Table.Suits (t : Table) (Γ : Context) : Task → Prop
  | .branch _ | .branches _ => t.Sees Γ
  | .stmt _ | .block _ | .definition _ => t.Matches Γ

section
variable {t u v : Table} {Γ : Context}

/-- What a statement leaves is what the rules have behind it. -/
theorem Table.Matches.after {s : Stmt} (h : t.Matches Γ) (hp : Passes t (.stmt s) u) : u.Matches (Γ.after s) := by
  obtain ⟨us, d⟩ := u
  obtain rfl : d = t.loopDepth := hp.depth.2
  have hm := h.grows (hp.grows h.depth)
  rw [know_newHeaders fun x => (h.functions x).trans (by rw [Context.functions_bindAll])] at hm
  rw [Context.after, ← s.entries_declared]
  exact hm

theorem Table.Sees.after {b : Branch} (h : t.Sees Γ) (hp : Passes t (.branch b) u) : u.Sees (Γ.know b.headers) := by
  obtain ⟨us, d⟩ := u
  obtain rfl : d = t.loopDepth := hp.depth.2
  rw [← know_newHeaders h.functions]
  exact h.grows (hp.grows h.depth)

/-- The body of a definition: the function is known and the parameters are bound. -/
theorem Table.Sees.enter {h : Header} (hs : t.Sees Γ) (hk : t.Knows h u)
    (hp : u.openScope.declareAll h.paramEntries = .ok v) :
    v.Matches ((Γ.know [h]).block.bindAll h.formals) := by
  have hu : u.Sees (Γ.know [h]) := by
    have hg := hs.grows hk.grows
    rw [know_newHeaders hs.functions, ← hk.depth.2] at hg
    exact hg
  have hv := hu.block.grows (declareAll_grows paramEntries_binding hp)
  rw [Context.know_nil, h.paramEntries_formals, ← (declareAll_depth hp).2] at hv
  exact hv

theorem Table.Matches.vars_iff {names : List String} {ty : Ty} {line : Line} (h : t.Matches Γ) :
    (∃ u, t.declareAll (Stmt.varEntries names ty line) = .ok u) ↔ names.Nodup ∧ ∀ x ∈ names, Γ.Free x := by
  rw [declareAll_ok_iff h.depth]
  simp [Stmt.varEntries, Entry.ofBinding, Function.comp_def, h.innermost]

theorem Table.openScope_params_iff {h : Header} :
    (∃ u, t.openScope.declareAll h.paramEntries = .ok u) ↔ (h.formals.map Prod.fst).Nodup := by
  have hpos : 0 < t.openScope.depth := Nat.succ_pos _
  rw [declareAll_ok_iff hpos, ← h.paramEntries_formals]
  simp [Function.comp_def]

theorem Table.Sees.register_iff {h : Header} (hs : t.Sees Γ) :
    (∃ u, t.declareGlobal (.ofHeader h) = .ok u) ↔ Γ.global h.name = none ∧ Γ.functions h.name = none := by
  rw [declareGlobal_ok_iff hs.depth]
  exact hs.global h.name

theorem Table.Sees.knows_iff {h : Header} (hs : t.Sees Γ) :
    (∃ u, t.Knows h u) ↔ (Γ.functions h.name = none → Γ.global h.name = none) := by
  rw [← hs.functions]
  constructor
  · rintro ⟨u, hk⟩ hn
    cases hk with
    | before hg => cases hg.symm.trans hn
    | now _ hd => exact (hs.register_iff.mp ⟨u, hd⟩).1
  · intro hn
    cases hg : t.function? h.name with
    | some g => exact ⟨t, .before hg⟩
    | none =>
      obtain ⟨u, hu⟩ := hs.register_iff.mpr ⟨hn hg, (hs.functions _).symm.trans hg⟩
      exact ⟨u, .now hg hu⟩

theorem accepts_of_passes {w : Task} (hp : Passes t w u) (h : t.Suits Γ w) : Accepts Γ w := by
  -- the context is any that suits: it changes with each scope and each declaration
  induction hp generalizing Γ with
  | assign hi =>
    obtain ⟨τ, σ, hτ, hσ, ha, hb, hk⟩ := (Place.inferAssign_iff h.types h.functions).mp hi
    exact .assign hτ hσ ha hb hk
  | skip => exact .skip
  | exit => exact .exit
  | ret hi =>
    refine .ret fun e he => ?_
    obtain ⟨τ, hτ⟩ := hi e he
    exact ⟨τ, (Expr.infer_iff h.types h.functions).mp hτ⟩
  | brk hl => exact .brk (h.inLoop ▸ hl)
  | cont hl => exact .cont (h.inLoop ▸ hl)
  | cond hb _ _ ih => exact .cond hb (ih h.toSees.openScope)
  | loop _ _ ih => exact .loop (ih h.openLoop.toSees.block)
  | proc hi => exact .proc ((Expr.infer_iff h.types h.functions).mp hi)
  | define _ ih => exact .define (ih h)
  | declare hg hn hd =>
    obtain ⟨hglobal, hfun⟩ := h.toSees.register_iff.mp ⟨_, hd⟩
    exact .declare hn hfun hglobal
  | vars hn hr hd =>
    obtain ⟨hnodup, hfree⟩ := h.vars_iff.mp ⟨_, hd⟩
    exact .vars hn hr hnodup hfree
  | nil => exact .nil
  | cons hp _ ih ihs => exact .cons (ih h) (ihs (h.after hp))
  | branch hc _ _ ih =>
    exact .branch (fun e he => (Expr.inferCondition_iff h.types h.functions).mp (hc e he)) (ih h.block)
  | noBranch => exact .noBranch
  | consBranch hp _ ih ihs => exact .consBranch (ih h) (ihs (h.after hp))
  | definition hn hk hp _ _ ih =>
    exact .definition hn (h.toSees.knows_iff.mp ⟨_, hk⟩) (Table.openScope_params_iff.mp ⟨_, hp⟩)
      (ih (h.toSees.enter hk hp))

theorem passes_of_accepts {w : Task} (ha : Accepts Γ w) (h : t.Suits Γ w) : ∃ u, Passes t w u := by
  -- the rules have no scopes to close, so here each one that is opened must be
  induction ha generalizing t with
  | assign hτ hσ ha hb hk =>
    exact ⟨t, .assign ((Place.inferAssign_iff h.types h.functions).mpr ⟨_, _, hτ, hσ, ha, hb, hk⟩)⟩
  | skip => exact ⟨t, .skip⟩
  | exit => exact ⟨t, .exit⟩
  | ret hi =>
    refine ⟨t, .ret fun e he => ?_⟩
    obtain ⟨τ, hτ⟩ := hi e he
    exact ⟨τ, (Expr.infer_iff h.types h.functions).mpr hτ⟩
  | brk hl => exact ⟨t, .brk (h.inLoop.trans hl)⟩
  | cont hl => exact ⟨t, .cont (h.inLoop.trans hl)⟩
  | cond hb _ ih =>
    obtain ⟨u, hu⟩ := ih h.toSees.openScope
    obtain ⟨v, hv⟩ := hu.closes (Nat.succ_pos _)
    exact ⟨v, .cond hb hu hv⟩
  | loop _ ih =>
    obtain ⟨u, hu⟩ := ih h.openLoop.toSees.block
    obtain ⟨v, hv⟩ := hu.closes (Nat.succ_pos _)
    exact ⟨_, .loop hu hv⟩
  | proc hi => exact ⟨t, .proc ((Expr.infer_iff h.types h.functions).mpr hi)⟩
  | define _ ih => exact (ih h).imp fun _ => .define
  | declare hn hg hd =>
    obtain ⟨u, hu⟩ := h.toSees.register_iff.mpr ⟨hd, hg⟩
    exact ⟨u, .declare ((h.functions _).trans hg) hn hu⟩
  | vars hn hr hnodup hfree =>
    obtain ⟨u, hu⟩ := h.vars_iff.mpr ⟨hnodup, hfree⟩
    exact ⟨u, .vars hn hr hu⟩
  | nil => exact ⟨t, .nil⟩
  | cons _ _ ih ihs =>
    obtain ⟨u, hu⟩ := ih h
    obtain ⟨v, hv⟩ := ihs (h.after hu)
    exact ⟨v, .cons hu hv⟩
  | branch hc _ ih =>
    obtain ⟨u, hu⟩ := ih h.block
    obtain ⟨v, hv⟩ := hu.closes (Nat.succ_pos _)
    exact ⟨v, .branch (fun e he => (Expr.inferCondition_iff h.types h.functions).mpr (hc e he)) hu hv⟩
  | noBranch => exact ⟨t, .noBranch⟩
  | consBranch _ _ ih ihs =>
    obtain ⟨u, hu⟩ := ih h
    obtain ⟨v, hv⟩ := ihs (h.after hu)
    exact ⟨v, .consBranch hu hv⟩
  | definition hn hg hnodup _ ih =>
    obtain ⟨u, hk⟩ := h.toSees.knows_iff.mpr hg
    obtain ⟨v, hp⟩ := Table.openScope_params_iff.mpr hnodup
    obtain ⟨w, hw⟩ := ih (h.toSees.enter hk hp)
    obtain ⟨x, hx⟩ := hw.closes (Table.openScope_declareAll_pos hp)
    exact ⟨x, .definition hn hk hp hw hx⟩

end

/-! ## The context of a table -/

/-- The type of a variable, which a function has not. -/
def Entry.variableType? (e : Entry) : Option Ty :=
  match e.meaning with
  | .binding ty _ => some ty
  | .function _ => none

def Scope.frame (s : Scope) : Frame :=
  fun x => (s.find? x).bind Entry.variableType?

def Table.context (t : Table) : Context where
  inner := t.scopes.dropLast.map Scope.frame
  global x := (t.findGlobal? x).bind Entry.variableType?
  functions := t.function?
  inLoop := t.inLoop

theorem Entry.type_eq (e : Entry) : some e.type = e.variableType?.or (e.header?.map Header.resultType) := by
  obtain ⟨name, _ | _, line⟩ := e <;> rfl

namespace Scope

variable {s g : Scope} {x : String}

theorem type_find? : (s.find? x).map Entry.type = (s.frame x).or ((s.function? x).map Header.resultType) := by
  unfold frame function?
  cases s.find? x with
  | none => rfl
  | some e => exact e.type_eq

theorem find?_eq_none_iff : s.find? x = none ↔ s.frame x = none ∧ s.function? x = none := by
  rw [← Option.map_eq_none_iff (f := Entry.type), type_find?]
  simp

theorem type_findSome? : ∀ {inner : List Scope}, (∀ s ∈ inner, ∀ e ∈ s.entries, e.header? = none) →
    ((inner ++ [g]).findSome? fun s => s.find? x).map Entry.type =
      ((inner.map frame).findSome? fun fr => fr x).or
        ((g.frame x).or ((g.function? x).map Header.resultType))
  | [], _ => by simp [← type_find?]
  | s :: inner, h => by
    -- without functions in `s`, its frame has all that is found there
    obtain ⟨hs, hinner⟩ := List.forall_mem_cons.mp h
    have hfr : s.frame x = (s.find? x).map Entry.type := by simp [type_find?, function?_of_bindings hs]
    have ih := type_findSome? hinner
    rw [List.cons_append, List.map_cons, List.findSome?_cons, List.findSome?_cons, hfr]
    cases s.find? x with
    | none => exact ih
    | some e => rfl

end Scope

theorem Table.matches_context {t : Table} (h : t.FunctionsGlobal) (ht : 0 < t.depth) : t.Matches t.context := by
  rcases List.eq_nil_or_concat t.scopes with hs | ⟨inner, g, hs⟩
  · simp [depth, hs] at ht
  · rw [List.concat_eq_append] at hs
    -- `g` is the global scope, and the only one with functions
    have hb : ∀ s ∈ inner, ∀ e ∈ s.entries, e.header? = none := by simpa [FunctionsGlobal, hs] using h
    have hfind : ∀ x, t.findGlobal? x = g.find? x := by simp [findGlobal?, hs]
    have hinner : t.context.inner = inner.map Scope.frame := by simp [context, hs]
    have hglobal : t.context.global = g.frame := by
      funext x
      simp only [context, hfind, Scope.frame]
    have hfunctions : t.context.functions = g.function? := by
      funext x
      have hnone : (inner.findSome? fun s => s.function? x) = none :=
        List.findSome?_eq_none_iff.mpr fun s hm => Scope.function?_of_bindings (hb s hm)
      simp [context, function?, hs, hnone]
    have hg : ∀ x, t.findGlobal? x = none ↔ t.context.global x = none ∧ t.context.functions x = none := by
      intro x
      rw [hfind, hglobal, hfunctions]
      exact Scope.find?_eq_none_iff
    refine ⟨⟨ht, fun x => ?_, fun x => rfl, hg, rfl⟩, ?_, fun x => ?_⟩
    · simp only [env, find?, hs, Scope.type_findSome? hb, Context.type?, hinner, hglobal, hfunctions]
    · simp [depth, hinner, hs]
    · cases inner with
      | nil =>
        have hd : t.depth = 1 := by simp [depth, hs]
        rw [← findGlobal?_of_sole hd, Context.free_of_sole hinner]
        exact hg x
      | cons s inner =>
        have hfn : s.function? x = none := Scope.function?_of_bindings (hb s List.mem_cons_self)
        simp [findInnermost?, hs, Context.Free, hinner, Scope.find?_eq_none_iff, hfn]

/-! ## The context of a program -/

section
open Check

theorem Table.Matches.registerEach {u : Table} {x : Unit} : ∀ {bs : List Builtin} {t : Table} {Γ : Context},
    t.Matches Γ → (bs.forM fun b => Check.register b.header).Yields t x u →
      u.Matches (Γ.know (bs.map Builtin.header))
  | [], t, Γ, h, hy => by
    obtain ⟨-, rfl⟩ := yields_pure.mp hy
    simpa using h
  | b :: bs, t, Γ, h, hy => by
    obtain ⟨_, v, hv, hy⟩ := yields_bind.mp hy
    have hb := registerEach (h.register (yields_register.mp hv).2) hy
    rwa [Context.know_know] at hb

theorem Table.matches_standard : Table.standard.Matches .standard := by
  have hempty : Table.empty.Matches Table.empty.context :=
    matches_context Reachable.empty.functionsGlobal Nat.one_pos
  have hy : Builtin.registerAll.Yields .empty () .standard := ⟨Builtin.registerAll_empty, rfl⟩
  have hk : Table.empty.context.know (Builtin.all.map Builtin.header) = .standard := by
    simp only [Context.know, Context.standard, List.find?_map]
    congr 1
  rw [← hk]
  exact hempty.registerEach hy

end

section
variable {t : Table} {Γ : Context}

theorem result_ok_iff_accepts {w : Task} (h : t.Suits Γ w) : (w.check.run t).result = .ok () ↔ Accepts Γ w := by
  constructor
  · intro hr
    exact accepts_of_passes (passes_of_yields ⟨hr, rfl⟩) h
  · intro ha
    obtain ⟨u, hu⟩ := passes_of_accepts ha h
    exact (yields_of_passes hu).1

theorem Table.Matches.suits (h : t.Matches Γ) : ∀ w, t.Suits Γ w
  | .stmt _ | .block _ | .definition _ => h
  | .branch _ | .branches _ => h.toSees

/-- **The checker accepts what the rules accept.** In every table of a session that
has a scope left, a type is inferred exactly where the rules give it, and a piece of
program passes exactly where they accept it. So a program passes exactly if they
accept it with the library and nothing else. -/
theorem checks_iff_accepted (h : t.Reachable) (ht : 0 < t.depth) :
    (∀ (e : Expr) τ, (e.check.run t).result = .ok τ ↔ e.HasType t.context τ) ∧
    (∀ (p : Place) τ, (p.check.run t).result = .ok τ ↔ p.HasType t.context τ) ∧
    (∀ (c : Call) τ, c.infer t.env = .ok τ ↔ c.HasType t.context τ) ∧
    (∀ w : Task, (w.check.run t).result = .ok () ↔ Accepts t.context w) ∧
    ∀ p : Program, check p = .ok () ↔ Accepts .standard (.block p) := by
  have hm := Table.matches_context h.functionsGlobal ht
  refine ⟨fun e τ => ?_, fun p τ => ?_, fun c τ => ?_, fun w => ?_, fun p => ?_⟩
  · exact Expr.infer_iff hm.types hm.functions
  · exact Place.infer_iff hm.types hm.functions
  · exact Call.infer_iff hm.types hm.functions
  · exact result_ok_iff_accepts (hm.suits w)
  · rw [check, p.check_result]
    exact result_ok_iff_accepts (Table.matches_standard.suits (.block p))

/-- A session that has stopped in a branch, in a function, in a loop. -/
def session : Table :=
  ((Operation.statements stuck).action.run .standard).table

/-- The parameter and the loop are still there. -/
def resumed : Program :=
  [.vars ["x"] .byte 6, .assign (.var "a" 7) (.const 1 7) 7, ⟨.brk none, 8⟩]

theorem checks_iff_accepted_session :
    session.Reachable ∧ 0 < session.depth ∧ Accepts session.context (.block resumed) ∧
    ¬ Accepts .standard (.block resumed) ∧ Accepts .standard (.block nested) := by
  have hr : session.Reachable := .after (.statements stuck) (.after .registerLibrary .empty)
  have hd : 0 < session.depth := by decide
  obtain ⟨-, -, -, htasks, hprograms⟩ := checks_iff_accepted hr hd
  refine ⟨hr, hd, (htasks (.block resumed)).mp rfl, fun ha => ?_, (hprograms nested).mp rfl⟩
  cases (hprograms resumed).mpr ha

end

end Dana
