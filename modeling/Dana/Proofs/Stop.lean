import Dana.Proofs.Run

/-!
# Checks that stop

A fault ends a check where it is met, and the constructs round that place stay
open. `Stops` tells this as rules that keep the open constructs in a list. They
agree with the checker (`faults_iff_stops`), and there is only one place to stop
at (`Stops.path_unique`).
-/

namespace Dana

/-- A construct that is open while something inside it is checked. -/
inductive Opening
  /-- A conditional, at the condition of a branch. -/
  | condition
  /-- A conditional, in the body of a branch. -/
  | branch
  | loop
  | call
  /-- A definition, at its parameters or in its body. -/
  | definition
deriving DecidableEq, Repr

/-- Checking the task from `t` stops at the fault and leaves the last table. The
list holds the constructs that are open there, the outermost first. -/
inductive Stops : Table → Task → List Opening → Fault → Table → Prop
  | assign {t target value line f} : Place.inferAssign t.env target value line = .error f →
      Stops t (.stmt ⟨.assign target value, line⟩) [] f t
  | ret {t e line f} : e.infer t.env = .error f → Stops t (.stmt ⟨.ret (some e), line⟩) [] f t
  | brk {t label line} : t.inLoop = false →
      Stops t (.stmt ⟨.brk label, line⟩) [] ⟨.loopContext "break", line⟩ t
  | cont {t label line} : t.inLoop = false →
      Stops t (.stmt ⟨.cont label, line⟩) [] ⟨.loopContext "continue", line⟩ t
  | emptyCond {t line} : Stops t (.stmt ⟨.cond [], line⟩) [] ⟨.malformed "if statement", line⟩ t
  | cond {t u bs line path f} : bs ≠ [] → Stops t.openScope (.branches bs) path f u →
      Stops t (.stmt ⟨.cond bs, line⟩) path f u
  | loop {t u label body line path f} : Stops t.openLoop.openScope (.block body) path f u →
      Stops t (.stmt ⟨.loop label body, line⟩) (.loop :: path) f u
  | proc {t call line f} : call.infer t.env = .error f →
      Stops t (.stmt ⟨.proc call, line⟩) [.call] f t.openScope
  | define {t u d line path f} : Stops t (.definition d) path f u →
      Stops t (.stmt ⟨.define d, line⟩) path f u
  | declared {t g h line} : t.function? h.name = some g →
      Stops t (.stmt ⟨.declare h, line⟩) [] ⟨.redeclaration "function" h.name, line⟩ t
  | unnamedHeader {t h line} : t.function? h.name = none → h.name = "" →
      Stops t (.stmt ⟨.declare h, line⟩) [] ⟨.malformed "function header", h.line⟩ t
  | declare {t h line f} : t.function? h.name = none → h.name ≠ "" →
      t.declareGlobal (.ofHeader h) = .error f → Stops t (.stmt ⟨.declare h, line⟩) [] f t
  | emptyVars {t names ty line} : names = [] ∨ ty.isReference = true →
      Stops t (.stmt ⟨.vars names ty, line⟩) [] ⟨.malformed "variable declaration", line⟩ t
  | vars {t u names ty line es e es' f} : names ≠ [] → ty.isReference = false →
      Stmt.varEntries names ty line = es ++ e :: es' → t.declareAll es = .ok u → u.declare e = .error f →
      Stops t (.stmt ⟨.vars names ty, line⟩) [] f u
  | head {t u s ss path f} : Stops t (.stmt s) path f u → Stops t (.block (s :: ss)) path f u
  | tail {t u v s ss path f} : Passes t (.stmt s) u → Stops u (.block ss) path f v →
      Stops t (.block (s :: ss)) path f v
  | condition {t e body line f} : e.inferCondition t.env = .error f →
      Stops t (.branch ⟨some e, body, line⟩) [.condition] f t
  | branch {t u body line path f} {condition : Option Expr} :
      (∀ e ∈ condition, e.inferCondition t.env = .ok ()) → Stops t.openScope (.block body) path f u →
      Stops t (.branch ⟨condition, body, line⟩) (.branch :: path) f u
  | headBranch {t u b bs path f} : Stops t (.branch b) path f u → Stops t (.branches (b :: bs)) path f u
  | tailBranch {t u v b bs path f} : Passes t (.branch b) u → Stops u (.branches bs) path f v →
      Stops t (.branches (b :: bs)) path f v
  | unnamed {t header body line} : header.name = "" →
      Stops t (.definition ⟨header, body, line⟩) [] ⟨.malformed "function definition", line⟩ t
  | register {t header body line f} : header.name ≠ "" → t.function? header.name = none →
      t.declareGlobal (.ofHeader header) = .error f → Stops t (.definition ⟨header, body, line⟩) [] f t
  | params {t u v header body line es e es' f} : header.name ≠ "" → t.Knows header u →
      header.paramEntries = es ++ e :: es' → u.openScope.declareAll es = .ok v → v.declare e = .error f →
      Stops t (.definition ⟨header, body, line⟩) [.definition] f v
  | definition {t u v w header body line path f} : header.name ≠ "" → t.Knows header u →
      u.openScope.declareAll header.paramEntries = .ok v → Stops v (.block body) path f w →
      Stops t (.definition ⟨header, body, line⟩) (.definition :: path) f w

section
variable {t u : Table} {f : Fault}
open Check

theorem faults_ensureRegistered {h : Header} (hn : h.name ≠ "") :
    h.ensureRegistered.Faults t f u ↔
      u = t ∧ t.function? h.name = none ∧ t.declareGlobal (.ofHeader h) = .error f := by
  simp only [Header.ensureRegistered, faults_bind, faults_ask, yields_ask, reduceCtorEq, false_and, false_or]
  constructor
  · rintro ⟨_ | g, v, ⟨hg, rfl⟩, h⟩
    · obtain ⟨rfl, ⟨h, -⟩ | ⟨-, h⟩⟩ := faults_register.mp h
      · exact absurd h hn
      · exact ⟨rfl, Except.ok.inj hg, h⟩
    · exact absurd h faults_pure
  · rintro ⟨rfl, hg, h⟩
    exact ⟨none, u, ⟨congrArg _ hg, rfl⟩, faults_register.mpr ⟨rfl, .inr ⟨hn, h⟩⟩⟩

theorem faults_requireLoop {keyword : String} {line : Line} :
    (requireLoop keyword line).Faults t f u ↔ t.inLoop = false ∧ f = ⟨.loopContext keyword, line⟩ ∧ u = t := by
  rw [requireLoop, faults_ask]
  cases t.inLoop <;> simp [eq_comm]

theorem faults_noteLabel {line : Line} {label : Option String} : ¬ (noteLabel line label).Faults t f u := by
  cases label with
  | none => exact faults_pure
  | some l => exact faults_note

theorem faults_checkCondition {condition : Option Expr} :
    (Branch.checkCondition condition).Faults t f u ↔
      ∃ e, condition = some e ∧ e.inferCondition t.env = .error f ∧ u = t := by
  cases condition with
  | none => simp [Branch.checkCondition, faults_pure]
  | some e => simp [Branch.checkCondition, faults_ask]

theorem faults_bindParameters {h : Header} :
    h.bindParameters.Faults t f u ↔
      ∃ es e es', h.paramEntries = es ++ e :: es' ∧ t.declareAll es = .ok u ∧ u.declare e = .error f :=
  faults_declareEach

theorem faults_vars {names : List String} {ty : Ty} {line : Line} :
    (Stmt.bindVariables names ty line).Faults t f u ↔
      ∃ es e es', Stmt.varEntries names ty line = es ++ e :: es' ∧ t.declareAll es = .ok u ∧
        u.declare e = .error f :=
  faults_declareEach

theorem stops_of_faults {w : Task} (h : w.check.Faults t f u) : ∃ path, Stops t w path f u := by
  induction w generalizing t u with
  | assign target value line =>
    obtain ⟨h, rfl⟩ := faults_ask.mp h
    exact ⟨_, .assign h⟩
  | skip line | exit line | nil | noBranch => exact absurd h faults_pure
  | ret value line =>
    cases value with
    | none => exact absurd h faults_pure
    | some e =>
      simp only [Task.check, Stmt.check, Expr.check, faults_bind, faults_ask, faults_pure, and_false,
        exists_false, or_false] at h
      obtain ⟨h, rfl⟩ := h
      exact ⟨_, .ret h⟩
  | brk label line =>
    obtain ⟨hl, rfl, rfl⟩ := faults_requireLoop.mp h
    exact ⟨_, .brk hl⟩
  | cont label line =>
    obtain ⟨hl, rfl, rfl⟩ := faults_requireLoop.mp h
    exact ⟨_, .cont hl⟩
  | cond bs line ih =>
    simp only [Task.check, Stmt.check, List.isEmpty_iff] at h
    split at h
    · rename_i hb
      obtain ⟨rfl, rfl⟩ := faults_fail.mp h
      subst hb
      exact ⟨_, .emptyCond⟩
    · rename_i hb
      simp only [faults_bind, faults_openScope, false_or, yields_openScope] at h
      obtain ⟨_, _, rfl, h | ⟨_, v, h, hv⟩⟩ := h
      · obtain ⟨path, h⟩ := ih h
        exact ⟨path, .cond hb h⟩
      · -- the body has passed, and left the scope that is to be closed
        have hp := passes_of_yields (w := .branches bs) h
        exact absurd hv (hp.not_faults_closeScope (Nat.succ_pos _))
  | loop label body line ih =>
    simp only [Task.check, Stmt.check, faults_bind, faults_noteLabel, yields_noteLabel, faults_openLoop,
      yields_openLoop, faults_openScope, yields_openScope, faults_closeLoop, and_false, exists_false, or_false,
      false_or] at h
    obtain ⟨_, _, rfl, _, _, rfl, _, _, rfl, h | ⟨_, v, h, hv⟩⟩ := h
    · obtain ⟨path, h⟩ := ih h
      exact ⟨_, .loop h⟩
    · have hp := passes_of_yields (w := .block body) h
      exact absurd hv (hp.not_faults_closeScope (Nat.succ_pos _))
  | proc call line =>
    simp only [Task.check, Stmt.check, Expr.check, faults_bind, faults_openScope, yields_openScope, faults_ask,
      yields_ask, faults_closeScope, false_or] at h
    obtain ⟨_, _, rfl, ⟨h, rfl⟩ | ⟨ty, _, ⟨-, rfl⟩, hc, -⟩⟩ := h
    · exact ⟨_, .proc (Table.env_openScope ▸ h)⟩
    · cases hc
  | define d line ih =>
    obtain ⟨path, h⟩ := ih h
    exact ⟨path, .define h⟩
  | declare header line =>
    simp only [Task.check, Stmt.check, Header.declare, faults_bind, faults_ask, yields_ask, reduceCtorEq,
      false_and, false_or] at h
    obtain ⟨g, _, ⟨hg, rfl⟩, hr⟩ := h
    have hg := Except.ok.inj hg
    cases g with
    | none =>
      obtain ⟨rfl, ⟨hn, rfl⟩ | ⟨hn, hr⟩⟩ := faults_register.mp hr
      · exact ⟨_, .unnamedHeader hg hn⟩
      · exact ⟨_, .declare hg hn hr⟩
    | some g =>
      obtain ⟨rfl, rfl⟩ := faults_fail.mp hr
      exact ⟨_, .declared hg⟩
  | vars names ty line =>
    simp only [Task.check, Stmt.check, Bool.or_eq_true, List.isEmpty_iff] at h
    split at h
    · rename_i hb
      obtain ⟨rfl, rfl⟩ := faults_fail.mp h
      exact ⟨_, .emptyVars hb⟩
    · rename_i hb
      simp only [not_or, Bool.not_eq_true] at hb
      obtain ⟨es, e, es', hes, hd, he⟩ := faults_vars.mp h
      exact ⟨_, .vars hb.1 hb.2 hes hd he⟩
  | cons s ss ih ihs =>
    obtain h | ⟨_, v, h, hs⟩ := faults_bind.mp h
    · obtain ⟨path, h⟩ := ih h
      exact ⟨path, .head h⟩
    · obtain ⟨path, hs⟩ := ihs hs
      exact ⟨path, .tail (passes_of_yields h) hs⟩
  | branch condition body line ih =>
    simp only [Task.check, Branch.check, faults_bind, faults_checkCondition, yields_checkCondition,
      faults_openScope, yields_openScope, false_or] at h
    obtain ⟨e, rfl, h, rfl⟩ | ⟨_, _, ⟨hc, rfl⟩, _, _, rfl, h | ⟨_, v, h, hv⟩⟩ := h
    · exact ⟨_, .condition h⟩
    · obtain ⟨path, h⟩ := ih h
      exact ⟨_, .branch hc h⟩
    · have hp := passes_of_yields (w := .block body) h
      exact absurd hv (hp.not_faults_closeScope (Nat.succ_pos _))
  | consBranch b bs ih ihs =>
    obtain h | ⟨_, v, h, hs⟩ := faults_bind.mp h
    · obtain ⟨path, h⟩ := ih h
      exact ⟨path, .headBranch h⟩
    · obtain ⟨path, hs⟩ := ihs hs
      exact ⟨path, .tailBranch (passes_of_yields h) hs⟩
  | definition header body line ih =>
    simp only [Task.check, Definition.check] at h
    split at h
    · rename_i hn
      obtain ⟨rfl, rfl⟩ := faults_fail.mp h
      exact ⟨_, .unnamed hn⟩
    · rename_i hn
      simp only [faults_bind, faults_ensureRegistered hn, yields_ensureRegistered hn, faults_note, yields_note,
        faults_openScope, yields_openScope, faults_bindParameters, yields_bindParameters, false_or] at h
      obtain ⟨rfl, hg, h⟩ | ⟨_, v, hk, _, _, rfl, _, _, rfl, h⟩ := h
      · exact ⟨_, .register hn hg h⟩
      · obtain ⟨es, e, es', hes, hd, he⟩ | ⟨_, w, hp, h | ⟨_, x, h, hx⟩⟩ := h
        · exact ⟨_, .params hn hk hes hd he⟩
        · obtain ⟨path, h⟩ := ih h
          exact ⟨_, .definition hn hk hp h⟩
        · have hb := passes_of_yields (w := .block body) h
          exact absurd hx (hb.not_faults_closeScope (Table.openScope_declareAll_pos hp))

theorem faults_of_stops {w : Task} {path : List Opening} (h : Stops t w path f u) : w.check.Faults t f u := by
  induction h with
  | assign h => exact faults_ask.mpr ⟨h, rfl⟩
  | ret h => exact faults_bind.mpr (.inl (faults_ask.mpr ⟨h, rfl⟩))
  | brk h | cont h => exact faults_requireLoop.mpr ⟨h, rfl, rfl⟩
  | emptyCond => exact faults_fail.mpr ⟨rfl, rfl⟩
  | cond hb _ ih =>
    simp only [Task.check, Stmt.check, List.isEmpty_iff, hb, if_false, faults_bind, yields_openScope]
    exact .inr ⟨(), _, rfl, .inl ih⟩
  | loop _ ih =>
    simp only [Task.check, Stmt.check, faults_bind, yields_noteLabel, yields_openLoop, yields_openScope]
    exact .inr ⟨(), _, rfl, .inr ⟨(), _, rfl, .inr ⟨(), _, rfl, .inl ih⟩⟩⟩
  | proc h =>
    simp only [Task.check, Stmt.check, Expr.check, faults_bind, yields_openScope, faults_ask]
    exact .inr ⟨(), _, rfl, .inl ⟨Table.env_openScope ▸ h, rfl⟩⟩
  | define _ ih => exact ih
  | declared hg =>
    simp only [Task.check, Stmt.check, Header.declare, faults_bind, yields_ask]
    exact .inr ⟨_, _, ⟨congrArg _ hg, rfl⟩, faults_fail.mpr ⟨rfl, rfl⟩⟩
  | unnamedHeader hg hn =>
    simp only [Task.check, Stmt.check, Header.declare, faults_bind, yields_ask]
    exact .inr ⟨none, _, ⟨congrArg _ hg, rfl⟩, faults_register.mpr ⟨rfl, .inl ⟨hn, rfl⟩⟩⟩
  | declare hg hn hr =>
    simp only [Task.check, Stmt.check, Header.declare, faults_bind, yields_ask]
    exact .inr ⟨none, _, ⟨congrArg _ hg, rfl⟩, faults_register.mpr ⟨rfl, .inr ⟨hn, hr⟩⟩⟩
  | emptyVars hb =>
    simp only [Task.check, Stmt.check, Bool.or_eq_true, List.isEmpty_iff, hb, if_true]
    exact faults_fail.mpr ⟨rfl, rfl⟩
  | vars hn hr hes hd he =>
    simp only [Task.check, Stmt.check, Bool.or_eq_true, List.isEmpty_iff, hn, hr, Bool.false_eq_true, or_self,
      if_false]
    exact faults_vars.mpr ⟨_, _, _, hes, hd, he⟩
  | head _ ih | headBranch _ ih => exact faults_bind.mpr (.inl ih)
  | tail h _ ih | tailBranch h _ ih => exact faults_bind.mpr (.inr ⟨(), _, yields_of_passes h, ih⟩)
  | condition h => exact faults_bind.mpr (.inl (faults_checkCondition.mpr ⟨_, rfl, h, rfl⟩))
  | branch hc _ ih =>
    simp only [Task.check, Branch.check, faults_bind, yields_checkCondition, yields_openScope]
    exact .inr ⟨(), _, ⟨hc, rfl⟩, .inr ⟨(), _, rfl, .inl ih⟩⟩
  | unnamed hn =>
    simp only [Task.check, Definition.check, hn, if_true]
    exact faults_fail.mpr ⟨rfl, rfl⟩
  | register hn hg h =>
    simp only [Task.check, Definition.check, hn, if_false, faults_bind, faults_ensureRegistered hn]
    exact .inl ⟨trivial, hg, h⟩
  | params hn hk hes hd he =>
    simp only [Task.check, Definition.check, hn, if_false, faults_bind, yields_ensureRegistered hn, yields_note,
      yields_openScope, faults_bindParameters]
    exact .inr ⟨(), _, hk, .inr ⟨(), _, rfl, .inr ⟨(), _, rfl, .inl ⟨_, _, _, hes, hd, he⟩⟩⟩⟩
  | definition hn hk hp _ ih =>
    simp only [Task.check, Definition.check, hn, if_false, faults_bind, yields_ensureRegistered hn, yields_note,
      yields_openScope, yields_bindParameters]
    exact .inr ⟨(), _, hk, .inr ⟨(), _, rfl, .inr ⟨(), _, rfl, .inr ⟨(), _, hp, .inl ih⟩⟩⟩⟩

theorem faults_iff_stops {w : Task} : w.check.Faults t f u ↔ ∃ path, Stops t w path f u :=
  ⟨stops_of_faults, fun ⟨_, h⟩ => faults_of_stops h⟩

/-! ## The place is determined -/

theorem Passes.unique {w : Task} {v : Table} (h : Passes t w u) (h' : Passes t w v) : u = v :=
  (yields_of_passes h).2.symm.trans (yields_of_passes h').2

theorem Passes.not_stops {w : Task} {v : Table} {path : List Opening} (h : Passes t w u) : ¬ Stops t w path f v := by
  intro h'
  have hok := (yields_of_passes h).1
  rw [(faults_of_stops h').1] at hok
  cases hok

theorem Table.Knows.unique {h : Header} {v : Table} (hk : t.Knows h u) (hk' : t.Knows h v) : u = v := by
  cases hk with
  | before hg =>
    cases hk' with
    | before => rfl
    | now hg' => rw [hg] at hg'; cases hg'
  | now hg hd =>
    cases hk' with
    | before hg' => rw [hg] at hg'; cases hg'
    | now _ hd' => exact Except.ok.inj (hd.symm.trans hd')

theorem Table.declareAll_append : ∀ {es es' : List Entry} {t : Table},
    t.declareAll (es ++ es') = .ok u ↔ ∃ v, t.declareAll es = .ok v ∧ v.declareAll es' = .ok u
  | [], es', t => by simp [declareAll]
  | e :: es, es', t => by
    rw [List.cons_append, declareAll_cons]
    constructor
    · rintro ⟨v, hv, h⟩
      obtain ⟨w, hw, h⟩ := declareAll_append.mp h
      exact ⟨w, declareAll_cons.mpr ⟨v, hv, hw⟩, h⟩
    · rintro ⟨w, hw, h⟩
      obtain ⟨v, hv, hw⟩ := declareAll_cons.mp hw
      exact ⟨v, hv, declareAll_append.mpr ⟨w, hw, h⟩⟩

/-- A row of declarations that one of them ends does not also go through. -/
theorem Table.declareAll_refused {es es' : List Entry} {e : Entry} {v : Table} (hd : t.declareAll es = .ok u)
    (he : u.declare e = .error f) : t.declareAll (es ++ e :: es') ≠ .ok v := by
  intro h
  obtain ⟨u', hu', h⟩ := declareAll_append.mp h
  obtain ⟨w, hw, -⟩ := declareAll_cons.mp h
  rw [hd] at hu'
  cases hu'
  rw [he] at hw
  cases hw

theorem Table.Knows.not_refused {h : Header} (hk : t.Knows h u) (hg : t.function? h.name = none) :
    t.declareGlobal (.ofHeader h) ≠ .error f := by
  intro hr
  cases hk with
  | before hg' => rw [hg] at hg'; cases hg'
  | now _ hd => rw [hr] at hd; cases hd

/-- There is one place to stop at. -/
theorem Stops.path_unique {w : Task} {path : List Opening} (h : Stops t w path f u) :
    ∀ {path' f' u'}, Stops t w path' f' u' → path' = path := by
  -- two rules for one task differ in what is checked first, and that passes or stops but not both
  induction h with
  | assign | ret | brk | cont | proc | emptyVars | vars | declared | unnamedHeader | declare =>
    intro path' f' u' h'; cases h' <;> rfl
  | emptyCond =>
    intro path' f' u' h'
    cases h' with
    | emptyCond => rfl
    | cond hb => exact absurd rfl hb
  | cond hb _ ih =>
    intro path' f' u' h'
    cases h' with
    | emptyCond => exact absurd rfl hb
    | cond _ h' => exact ih h'
  | loop _ ih =>
    intro path' f' u' h'
    cases h' with
    | loop h' => rw [ih h']
  | define _ ih =>
    intro path' f' u' h'
    cases h' with
    | define h' => exact ih h'
  | head h ih =>
    intro path' f' u' h'
    cases h' with
    | head h' => exact ih h'
    | tail hp _ => exact absurd h hp.not_stops
  | tail hp _ ih =>
    intro path' f' u' h'
    cases h' with
    | head h' => exact absurd h' hp.not_stops
    | tail hp' h' => cases hp.unique hp'; exact ih h'
  | condition he =>
    intro path' f' u' h'
    cases h' with
    | condition => rfl
    | branch hc => rw [hc _ rfl] at he; cases he
  | branch hc _ ih =>
    intro path' f' u' h'
    cases h' with
    | condition he => rw [hc _ rfl] at he; cases he
    | branch _ h' => rw [ih h']
  | headBranch h ih =>
    intro path' f' u' h'
    cases h' with
    | headBranch h' => exact ih h'
    | tailBranch hp _ => exact absurd h hp.not_stops
  | tailBranch hp _ ih =>
    intro path' f' u' h'
    cases h' with
    | headBranch h' => exact absurd h' hp.not_stops
    | tailBranch hp' h' => cases hp.unique hp'; exact ih h'
  | unnamed hn =>
    intro path' f' u' h'
    cases h' with
    | unnamed => rfl
    | register hn' | params hn' | definition hn' => exact absurd hn hn'
  | register hn hg hr =>
    intro path' f' u' h'
    cases h' with
    | unnamed hn' => exact absurd hn' hn
    | register => rfl
    | params _ hk | definition _ hk => exact absurd hr (hk.not_refused hg)
  | params hn hk hes hd he =>
    intro path' f' u' h'
    cases h' with
    | unnamed hn' => exact absurd hn' hn
    | register _ hg hr => exact absurd hr (hk.not_refused hg)
    | params => rfl
    | definition _ hk' hp => cases hk.unique hk'; exact absurd (hes ▸ hp) (Table.declareAll_refused hd he)
  | definition hn hk hp _ ih =>
    intro path' f' u' h'
    cases h' with
    | unnamed hn' => exact absurd hn' hn
    | register _ hg hr => exact absurd hr (hk.not_refused hg)
    | params _ hk' hes hd he => cases hk.unique hk'; exact absurd (hes ▸ hp) (Table.declareAll_refused hd he)
    | definition _ hk' hp' h' =>
      cases hk.unique hk'
      cases hp.symm.trans hp'
      rw [ih h']

end

end Dana
