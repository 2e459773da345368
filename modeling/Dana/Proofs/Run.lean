import Dana.Library
import Dana.Proofs.Table

/-!
# Checks that pass

A check passes or stops at a fault. `Passes` tells the first as rules, one for
each form of statement and with the table before and after. The rules say what
the checker does and nothing else (`yields_iff_passes`).
-/

namespace Dana

/-- Enters names into the innermost scope, up to the first that is taken. -/
def Table.declareAll (t : Table) : List Entry → Except Fault Table
  | [] => .ok t
  | e :: es => do
    let u ← t.declare e
    u.declareAll es

theorem Table.declareAll_cons {t u : Table} {e : Entry} {es : List Entry} :
    t.declareAll (e :: es) = .ok u ↔ ∃ v, t.declare e = .ok v ∧ v.declareAll es = .ok u := by
  simp only [declareAll, bind, Except.bind]
  cases t.declare e <;> simp

/-! ## Actions -/

namespace Check

variable {α β : Type}

/-- The action ends with the result `a` and leaves the table `u`. -/
def Yields (m : Check α) (t : Table) (a : α) (u : Table) : Prop :=
  (m.run t).result = .ok a ∧ (m.run t).table = u

/-- The action ends at the fault `f` and leaves the table `u`. -/
def Faults (m : Check α) (t : Table) (f : Fault) (u : Table) : Prop :=
  (m.run t).result = .error f ∧ (m.run t).table = u

section
variable {t u : Table} {f : Fault} {a a' : α} {b : β}

theorem yields_pure : (pure a : Check α).Yields t a' u ↔ a' = a ∧ u = t := by
  simp [Yields, run, pure, Check.pure, eq_comm]

theorem faults_pure : ¬ (pure a : Check α).Faults t f u := by
  simp [Faults, run, pure, Check.pure]

theorem yields_bind {m : Check α} {k : α → Check β} :
    (m >>= k).Yields t b u ↔ ∃ a v, m.Yields t a v ∧ (k a).Yields v b u := by
  unfold Yields
  rcases hm : m.run t with ⟨f | a, v, j⟩
  · simp [run_bind_error hm]
  · rw [run_bind_ok hm]
    constructor
    · intro h
      exact ⟨a, v, ⟨rfl, rfl⟩, h⟩
    · intro h
      obtain ⟨_, _, ⟨ha, rfl⟩, h⟩ := h
      cases ha
      exact h

theorem faults_bind {m : Check α} {k : α → Check β} :
    (m >>= k).Faults t f u ↔ m.Faults t f u ∨ ∃ a v, m.Yields t a v ∧ (k a).Faults v f u := by
  unfold Faults Yields
  rcases hm : m.run t with ⟨f' | a, v, j⟩
  · simp [run_bind_error hm]
  · rw [run_bind_ok hm]
    constructor
    · intro h
      exact .inr ⟨a, v, ⟨rfl, rfl⟩, h⟩
    · intro h
      obtain ⟨hf, _⟩ | ⟨_, _, ⟨ha, rfl⟩, h⟩ := h
      · cases hf
      · cases ha
        exact h

theorem yields_ask {g : Table → Except Fault α} : (ask g).Yields t a u ↔ g t = .ok a ∧ u = t := by
  simp [Yields, run, ask, eq_comm]

theorem faults_ask {g : Table → Except Fault α} : (ask g).Faults t f u ↔ g t = .error f ∧ u = t := by
  simp [Faults, run, ask, eq_comm]

theorem yields_fail {cause : Cause} {line : Line} : ¬ (fail cause line : Check α).Yields t a u := by
  simp [Yields, run, fail]

theorem faults_fail {cause : Cause} {line : Line} :
    (fail cause line : Check α).Faults t f u ↔ f = ⟨cause, line⟩ ∧ u = t := by
  simp [Faults, run, fail, eq_comm]

theorem yields_note {e : Event} {x : Unit} : (note e).Yields t x u ↔ u = t := by
  simp [Yields, run, note, eq_comm]

theorem faults_note {e : Event} : ¬ (note e).Faults t f u := by
  simp [Faults, run, note]

theorem yields_change {g : Table → Except Fault Table} {r : Table → List Event} {x : Unit} :
    (change g r).Yields t x u ↔ g t = .ok u := by
  simp only [Yields, run, change]
  cases g t <;> simp

theorem faults_change {g : Table → Except Fault Table} {r : Table → List Event} :
    (change g r).Faults t f u ↔ g t = .error f ∧ u = t := by
  simp only [Faults, run, change]
  cases g t <;> simp [eq_comm]

theorem yields_openScope {x : Unit} : openScope.Yields t x u ↔ u = t.openScope := by
  rw [openScope, yields_change, Except.ok.injEq, eq_comm]

theorem faults_openScope : ¬ openScope.Faults t f u := by
  simp [openScope, faults_change]

theorem yields_closeScope {x : Unit} : closeScope.Yields t x u ↔ t.closeScope = .ok u := yields_change

theorem faults_closeScope : closeScope.Faults t f u ↔ t.closeScope = .error f ∧ u = t := faults_change

theorem yields_openLoop {x : Unit} : openLoop.Yields t x u ↔ u = t.openLoop := by
  rw [openLoop, yields_change, Except.ok.injEq, eq_comm]

theorem faults_openLoop : ¬ openLoop.Faults t f u := by
  simp [openLoop, faults_change]

theorem yields_closeLoop {x : Unit} : closeLoop.Yields t x u ↔ u = t.closeLoop := by
  rw [closeLoop, yields_change, Except.ok.injEq, eq_comm]

theorem faults_closeLoop : ¬ closeLoop.Faults t f u := by
  simp [closeLoop, faults_change]

theorem yields_register {h : Header} {x : Unit} :
    (register h).Yields t x u ↔ h.name ≠ "" ∧ t.declareGlobal (.ofHeader h) = .ok u := by
  unfold register
  split
  · rename_i hn; simp [yields_fail, hn]
  · rename_i hn; simp [yields_change, hn]

theorem faults_register {h : Header} :
    (register h).Faults t f u ↔ u = t ∧
      (h.name = "" ∧ f = ⟨.malformed "function header", h.line⟩ ∨
        h.name ≠ "" ∧ t.declareGlobal (.ofHeader h) = .error f) := by
  unfold register
  split
  · rename_i hn; simp [faults_fail, hn, and_comm]
  · rename_i hn; simp [faults_change, hn, and_comm]

end

/-! ## Declaring in a row -/

section
variable {t u : Table} {f : Fault}

theorem yields_declareEach {entry : α → Entry} {x : Unit} : ∀ {as : List α} {t : Table},
    (as.forM fun a => change (·.declare (entry a)) fun _ => []).Yields t x u ↔
      t.declareAll (as.map entry) = .ok u
  | [], t => by
    simp [List.forM, yields_pure, Table.declareAll, eq_comm]
  | a :: as, t => by
    simp only [List.forM, yields_bind, yields_change, List.map_cons, Table.declareAll_cons, yields_declareEach]
    simp

/-- The entries before the one that is refused stay declared. -/
theorem faults_declareEach {entry : α → Entry} : ∀ {as : List α} {t : Table},
    (as.forM fun a => change (·.declare (entry a)) fun _ => []).Faults t f u ↔
      ∃ es e es', as.map entry = es ++ e :: es' ∧ t.declareAll es = .ok u ∧ u.declare e = .error f
  | [], t => by
    simp [List.forM, faults_pure]
  | a :: as, t => by
    simp only [List.forM, faults_bind, yields_change, faults_change, faults_declareEach, List.map_cons]
    constructor
    · rintro (⟨h, rfl⟩ | ⟨_, v, hv, es, e, es', hm, h, he⟩)
      · exact ⟨[], entry a, as.map entry, rfl, rfl, h⟩
      · exact ⟨entry a :: es, e, es', by simp [hm], Table.declareAll_cons.mpr ⟨v, hv, h⟩, he⟩
    · rintro ⟨_ | ⟨e₀, es⟩, e, es', hm, h, he⟩
      · cases hm; cases h
        exact .inl ⟨he, rfl⟩
      · obtain ⟨rfl, hm'⟩ := List.cons.inj hm
        obtain ⟨v, hv, h⟩ := Table.declareAll_cons.mp h
        exact .inr ⟨(), v, hv, es, e, es', hm', h, he⟩

end

/-- The entries of `as` have been declared one after the other in `s`, which `put` puts
back into the table. -/
structure InTurn (s : Scope) (put : Scope → Table) (entry : α → Entry) (as : List α)
    (o : Outcome Unit) : Prop where
  ok_iff : o.result = .ok () ↔ (as.map fun a => (entry a).name).Nodup ∧ ∀ a ∈ as, s.find? (entry a).name = none
  gains : o.result = .ok () → ∃ s', s.Gains (as.map entry) s' ∧ o.table = put s'
  refused : ∀ f, o.result = .error f → ∃ before a after s', as = before ++ a :: after ∧
    s.Gains (before.map entry) s' ∧
    (s.find? (entry a).name ≠ none ∨ ∃ b ∈ before, (entry b).name = (entry a).name) ∧
    f = ⟨.redeclaration (entry a).noun (entry a).name, (entry a).line⟩ ∧ o.table = put s'

section
variable {declare : Table → Entry → Except Fault Table} {put : Scope → Table}
  {entry : α → Entry} {m : α → Check Unit} {as : List α} {s s' : Scope}

theorem ne_of_nodup_split {name : α → String} {before after : List α} {a b : α}
    (h : ((before ++ a :: after).map name).Nodup) (hb : b ∈ before) : name b ≠ name a := by
  rw [List.map_append, List.nodup_append] at h
  exact h.2.2 _ (List.mem_map_of_mem hb) _ (List.mem_map_of_mem List.mem_cons_self)

/-- Either all go through, or one finds its name taken in the scope that the ones before
it have left. -/
theorem forM_change_cases (hput : ∀ s e, declare (put s) e = (s.declare e).map put) :
    ∀ {as : List α} {s : Scope}, (∀ a ∈ as, ∃ r, m a = change (declare · (entry a)) r) →
      (∃ s', (as.forM m).Yields (put s) () (put s') ∧ s.Gains (as.map entry) s') ∨
      ∃ before a after s', as = before ++ a :: after ∧ s.Gains (before.map entry) s' ∧
        s'.find? (entry a).name ≠ none ∧
        (as.forM m).Faults (put s) ⟨.redeclaration (entry a).noun (entry a).name, (entry a).line⟩ (put s')
  | [], s, _ => .inl ⟨s, yields_pure.mpr ⟨rfl, rfl⟩, .refl s⟩
  | a :: as, s, hm => by
    obtain ⟨⟨r, hr⟩, has⟩ := List.forall_mem_cons.mp hm
    cases hd : s.declare (entry a) with
    | error f =>
      obtain ⟨hfind, rfl⟩ := Scope.declare_error.mp hd
      have hfault : (m a).Faults (put s) ⟨.redeclaration (entry a).noun (entry a).name, (entry a).line⟩ (put s) := by
        rw [hr]
        exact faults_change.mpr ⟨by rw [hput, hd]; rfl, rfl⟩
      exact .inr ⟨[], a, as, s, rfl, .refl s, hfind, faults_bind.mpr (.inl hfault)⟩
    | ok v =>
      have hstep : (m a).Yields (put s) () (put v) := by
        rw [hr]
        exact yields_change.mpr (by rw [hput, hd]; rfl)
      have hgain : s.Gains [entry a] v := (Scope.Gains.refl s).declare hd
      rcases forM_change_cases hput (s := v) has with ⟨s', hy, hg⟩ | ⟨before, b, after, s', rfl, hg, hfind, hf⟩
      · exact .inl ⟨s', yields_bind.mpr ⟨(), put v, hstep, hy⟩, hgain.trans hg⟩
      · exact .inr ⟨a :: before, b, after, s', rfl, hgain.trans hg, hfind,
          faults_bind.mpr (.inr ⟨(), put v, hstep, hf⟩)⟩

theorem forM_change_inTurn (hput : ∀ s e, declare (put s) e = (s.declare e).map put)
    (hm : ∀ a ∈ as, ∃ r, m a = change (declare · (entry a)) r) :
    InTurn s put entry as ((as.forM m).run (put s)) := by
  rcases forM_change_cases hput (s := s) hm with ⟨s', ⟨hr, ht⟩, hg⟩ | ⟨before, a, after, s', has, hg, hx, hr, ht⟩
  · have hfree : (as.map fun a => (entry a).name).Nodup ∧ ∀ a ∈ as, s.find? (entry a).name = none := by
      refine ⟨?_, fun a ha => hg.fresh _ (List.mem_map_of_mem ha)⟩
      simpa [Function.comp_def] using hg.distinct
    refine ⟨⟨fun _ => hfree, fun _ => hr⟩, fun _ => ⟨s', hg, ht⟩, fun f hf => ?_⟩
    rw [hr] at hf
    cases hf
  · have htaken : s.find? (entry a).name ≠ none ∨ ∃ b ∈ before, (entry b).name = (entry a).name := by
      refine (hg.taken hx).imp_right ?_
      rintro ⟨e, he, hname⟩
      obtain ⟨b, hb, rfl⟩ := List.mem_map.mp he
      exact ⟨b, hb, hname⟩
    -- a taken name is not free, and a repeated one is not distinct
    have hbad : ¬ ((as.map fun a => (entry a).name).Nodup ∧ ∀ a ∈ as, s.find? (entry a).name = none) := by
      rintro ⟨hnodup, hfree⟩
      subst has
      rcases htaken with h | ⟨b, hb, hname⟩
      · exact h (hfree a (by simp))
      · exact ne_of_nodup_split hnodup hb hname
    refine ⟨⟨fun h => ?_, fun h => absurd h hbad⟩, fun h => ?_, fun f hf => ?_⟩
    · rw [hr] at h
      cases h
    · rw [hr] at h
      cases h
    · rw [hr] at hf
      cases hf
      exact ⟨before, a, after, s', has, hg, htaken, rfl, ht⟩

theorem declareEach_inTurn {outer : List Scope} {k : Nat} :
    InTurn s (fun s' => ⟨s' :: outer, k⟩) entry as
      ((as.forM fun a => change (·.declare (entry a)) fun _ => []).run ⟨s :: outer, k⟩) :=
  forM_change_inTurn (fun _ _ => Table.declare_cons rfl) fun _ _ => ⟨_, rfl⟩

end

end Check

def Header.paramEntries (h : Header) : List Entry :=
  h.parameters.map fun (x, ty, line) => .ofBinding .param x ty line

def Stmt.varEntries (names : List String) (ty : Ty) (line : Line) : List Entry :=
  names.map fun x => .ofBinding .plain x ty line

/-! ## Tasks -/

/-- What the checker can be asked to go over. -/
inductive Task
  | stmt (s : Stmt)
  | block (ss : List Stmt)
  | branch (b : Branch)
  | branches (bs : List Branch)
  | definition (d : Definition)

namespace Task

def check : Task → Check Unit
  | .stmt s => s.check
  | .block ss => Stmt.checkAll ss
  | .branch b => b.check
  | .branches bs => Branch.checkAll bs
  | .definition d => d.check

/-- Induction over a program, all five kinds of task at once. -/
@[induction_eliminator]
theorem induction {P : Task → Prop}
    (assign : ∀ target value line, P (.stmt ⟨.assign target value, line⟩))
    (skip : ∀ line, P (.stmt ⟨.skip, line⟩))
    (exit : ∀ line, P (.stmt ⟨.exit, line⟩))
    (ret : ∀ value line, P (.stmt ⟨.ret value, line⟩))
    (brk : ∀ label line, P (.stmt ⟨.brk label, line⟩))
    (cont : ∀ label line, P (.stmt ⟨.cont label, line⟩))
    (cond : ∀ bs line, P (.branches bs) → P (.stmt ⟨.cond bs, line⟩))
    (loop : ∀ label body line, P (.block body) → P (.stmt ⟨.loop label body, line⟩))
    (proc : ∀ call line, P (.stmt ⟨.proc call, line⟩))
    (define : ∀ d line, P (.definition d) → P (.stmt ⟨.define d, line⟩))
    (declare : ∀ h line, P (.stmt ⟨.declare h, line⟩))
    (vars : ∀ names ty line, P (.stmt ⟨.vars names ty, line⟩))
    (nil : P (.block []))
    (cons : ∀ s ss, P (.stmt s) → P (.block ss) → P (.block (s :: ss)))
    (branch : ∀ condition body line, P (.block body) → P (.branch ⟨condition, body, line⟩))
    (noBranch : P (.branches []))
    (consBranch : ∀ b bs, P (.branch b) → P (.branches bs) → P (.branches (b :: bs)))
    (definition : ∀ header body line, P (.block body) → P (.definition ⟨header, body, line⟩)) :
    ∀ w, P w
  | .stmt s => ofStmt s
  | .block ss => ofBlock ss
  | .branch b => ofBranch b
  | .branches bs => ofBranches bs
  | .definition d => ofDefinition d
where
  ofStmt : ∀ s, P (.stmt s)
    | ⟨.assign .., _⟩ => assign ..
    | ⟨.skip, _⟩ => skip ..
    | ⟨.exit, _⟩ => exit ..
    | ⟨.ret _, _⟩ => ret ..
    | ⟨.brk _, _⟩ => brk ..
    | ⟨.cont _, _⟩ => cont ..
    | ⟨.cond bs, _⟩ => cond _ _ (ofBranches bs)
    | ⟨.loop _ body, _⟩ => loop _ _ _ (ofBlock body)
    | ⟨.proc _, _⟩ => proc ..
    | ⟨.define d, _⟩ => define _ _ (ofDefinition d)
    | ⟨.declare _, _⟩ => declare ..
    | ⟨.vars .., _⟩ => vars ..
  termination_by structural s => s
  ofBlock : ∀ ss, P (.block ss)
    | [] => nil
    | s :: ss => cons _ _ (ofStmt s) (ofBlock ss)
  termination_by structural ss => ss
  ofBranch : ∀ b, P (.branch b)
    | ⟨_, body, _⟩ => branch _ _ _ (ofBlock body)
  termination_by structural b => b
  ofBranches : ∀ bs, P (.branches bs)
    | [] => noBranch
    | b :: bs => consBranch _ _ (ofBranch b) (ofBranches bs)
  termination_by structural bs => bs
  ofDefinition : ∀ d, P (.definition d)
    | ⟨_, body, _⟩ => definition _ _ _ (ofBlock body)
  termination_by structural d => d

end Task

/-! ## Passing -/

/-- `u` is `t` with the function known: it was so before, or it is entered now. -/
inductive Table.Knows (t : Table) (h : Header) : Table → Prop
  | before {g : Header} : t.function? h.name = some g → Knows t h t
  | now {u : Table} : t.function? h.name = none → t.declareGlobal (.ofHeader h) = .ok u → Knows t h u

/-- Checking the task from `t` passes and leaves the last table. -/
inductive Passes : Table → Task → Table → Prop
  | assign {t target value line} : Place.inferAssign t.env target value line = .ok () →
      Passes t (.stmt ⟨.assign target value, line⟩) t
  | skip {t line} : Passes t (.stmt ⟨.skip, line⟩) t
  | exit {t line} : Passes t (.stmt ⟨.exit, line⟩) t
  | ret {t line} {value : Option Expr} : (∀ e ∈ value, ∃ ty, e.infer t.env = .ok ty) →
      Passes t (.stmt ⟨.ret value, line⟩) t
  | brk {t label line} : t.inLoop = true → Passes t (.stmt ⟨.brk label, line⟩) t
  | cont {t label line} : t.inLoop = true → Passes t (.stmt ⟨.cont label, line⟩) t
  | cond {t u v bs line} : bs ≠ [] → Passes t.openScope (.branches bs) u → u.closeScope = .ok v →
      Passes t (.stmt ⟨.cond bs, line⟩) v
  | loop {t u v label body line} : Passes t.openLoop.openScope (.block body) u → u.closeScope = .ok v →
      Passes t (.stmt ⟨.loop label body, line⟩) v.closeLoop
  | proc {t call ty line} : call.infer t.env = .ok ty → Passes t (.stmt ⟨.proc call, line⟩) t
  | define {t u d line} : Passes t (.definition d) u → Passes t (.stmt ⟨.define d, line⟩) u
  | declare {t u h line} : t.function? h.name = none → h.name ≠ "" →
      t.declareGlobal (.ofHeader h) = .ok u → Passes t (.stmt ⟨.declare h, line⟩) u
  | vars {t u names ty line} : names ≠ [] → ty.isReference = false →
      t.declareAll (Stmt.varEntries names ty line) = .ok u → Passes t (.stmt ⟨.vars names ty, line⟩) u
  | nil {t} : Passes t (.block []) t
  | cons {t u v s ss} : Passes t (.stmt s) u → Passes u (.block ss) v → Passes t (.block (s :: ss)) v
  | branch {t u v body line} {condition : Option Expr} :
      (∀ e ∈ condition, e.inferCondition t.env = .ok ()) → Passes t.openScope (.block body) u →
      u.closeScope = .ok v → Passes t (.branch ⟨condition, body, line⟩) v
  | noBranch {t} : Passes t (.branches []) t
  | consBranch {t u v b bs} : Passes t (.branch b) u → Passes u (.branches bs) v →
      Passes t (.branches (b :: bs)) v
  | definition {t u v w x header body line} : header.name ≠ "" → t.Knows header u →
      u.openScope.declareAll header.paramEntries = .ok v → Passes v (.block body) w →
      w.closeScope = .ok x → Passes t (.definition ⟨header, body, line⟩) x

section
variable {t u : Table} {f : Fault}
open Check

theorem yields_ensureRegistered {h : Header} {x : Unit} (hn : h.name ≠ "") :
    h.ensureRegistered.Yields t x u ↔ t.Knows h u := by
  simp only [Header.ensureRegistered, yields_bind, yields_ask]
  constructor
  · rintro ⟨_ | g, v, ⟨hg, rfl⟩, h⟩
    · exact .now (Except.ok.inj hg) (yields_register.mp h).2
    · obtain ⟨-, rfl⟩ := yields_pure.mp h
      exact .before (Except.ok.inj hg)
  · rintro (hg | ⟨hg, h⟩)
    · exact ⟨_, _, ⟨rfl, rfl⟩, by rw [hg]; exact yields_pure.mpr ⟨rfl, rfl⟩⟩
    · exact ⟨_, _, ⟨rfl, rfl⟩, by rw [hg]; exact yields_register.mpr ⟨hn, h⟩⟩

theorem yields_requireLoop {keyword : String} {line : Line} {x : Unit} :
    (requireLoop keyword line).Yields t x u ↔ t.inLoop = true ∧ u = t := by
  rw [requireLoop, yields_ask]
  cases t.inLoop <;> simp

theorem yields_noteLabel {line : Line} {label : Option String} {x : Unit} :
    (noteLabel line label).Yields t x u ↔ u = t := by
  cases label with
  | none => simp [noteLabel, yields_pure]
  | some l => exact yields_note

theorem yields_checkCondition {condition : Option Expr} {x : Unit} :
    (Branch.checkCondition condition).Yields t x u ↔
      (∀ e ∈ condition, e.inferCondition t.env = .ok ()) ∧ u = t := by
  cases condition with
  | none => simp [Branch.checkCondition, yields_pure]
  | some e => simp [Branch.checkCondition, yields_ask]

theorem yields_bindParameters {h : Header} {x : Unit} :
    h.bindParameters.Yields t x u ↔ t.declareAll h.paramEntries = .ok u :=
  yields_declareEach

theorem yields_vars {names : List String} {ty : Ty} {line : Line} {x : Unit} :
    (Stmt.bindVariables names ty line).Yields t x u ↔ t.declareAll (Stmt.varEntries names ty line) = .ok u :=
  yields_declareEach

theorem passes_of_yields {w : Task} {x : Unit} (h : w.check.Yields t x u) : Passes t w u := by
  induction w generalizing t u x with
  | assign target value line =>
    obtain ⟨h, rfl⟩ := yields_ask.mp h
    exact .assign h
  | skip line =>
    obtain ⟨-, rfl⟩ := yields_pure.mp h
    exact .skip
  | exit line =>
    obtain ⟨-, rfl⟩ := yields_pure.mp h
    exact .exit
  | ret value line =>
    cases value with
    | none =>
      obtain ⟨-, rfl⟩ := yields_pure.mp h
      exact .ret (by simp)
    | some e =>
      simp only [Task.check, Stmt.check, Expr.check, yields_bind, yields_ask, yields_pure] at h
      obtain ⟨ty, _, ⟨h, rfl⟩, -, rfl⟩ := h
      exact .ret (by simpa using ⟨ty, h⟩)
  | brk label line =>
    obtain ⟨h, rfl⟩ := yields_requireLoop.mp h
    exact .brk h
  | cont label line =>
    obtain ⟨h, rfl⟩ := yields_requireLoop.mp h
    exact .cont h
  | cond bs line ih =>
    simp only [Task.check, Stmt.check, List.isEmpty_iff] at h
    split at h
    · exact absurd h yields_fail
    · rename_i hb
      simp only [yields_bind, yields_openScope, yields_closeScope] at h
      obtain ⟨_, _, rfl, _, v, h, hv⟩ := h
      exact .cond hb (ih h) hv
  | loop label body line ih =>
    simp only [Task.check, Stmt.check, yields_bind, yields_noteLabel, yields_openLoop, yields_openScope,
      yields_closeScope, yields_closeLoop] at h
    obtain ⟨_, _, rfl, _, _, rfl, _, _, rfl, _, v, h, _, _, hv, rfl⟩ := h
    exact .loop (ih h) hv
  | proc call line =>
    simp only [Task.check, Stmt.check, Expr.check, yields_bind, yields_openScope, yields_ask,
      yields_closeScope] at h
    obtain ⟨_, _, rfl, ty, v, ⟨h, rfl⟩, hv⟩ := h
    cases hv
    exact .proc (Table.env_openScope ▸ h)
  | define d line ih => exact .define (ih h)
  | declare header line =>
    simp only [Task.check, Stmt.check, Header.declare, yields_bind, yields_ask] at h
    obtain ⟨g, _, ⟨hg, rfl⟩, hr⟩ := h
    cases g with
    | none =>
      obtain ⟨hn, hr⟩ := yields_register.mp hr
      exact .declare (Except.ok.inj hg) hn hr
    | some g => exact absurd hr yields_fail
  | vars names ty line =>
    simp only [Task.check, Stmt.check, Bool.or_eq_true, List.isEmpty_iff] at h
    split at h
    · exact absurd h yields_fail
    · rename_i hb
      simp only [not_or, Bool.not_eq_true] at hb
      exact .vars hb.1 hb.2 (yields_vars.mp h)
  | nil =>
    obtain ⟨-, rfl⟩ := yields_pure.mp h
    exact .nil
  | cons s ss ih ihs =>
    obtain ⟨_, v, h, hs⟩ := yields_bind.mp h
    exact .cons (ih h) (ihs hs)
  | branch condition body line ih =>
    simp only [Task.check, Branch.check, yields_bind, yields_checkCondition, yields_openScope,
      yields_closeScope] at h
    obtain ⟨_, _, ⟨hc, rfl⟩, _, _, rfl, _, v, h, hv⟩ := h
    exact .branch hc (ih h) hv
  | noBranch =>
    obtain ⟨-, rfl⟩ := yields_pure.mp h
    exact .noBranch
  | consBranch b bs ih ihs =>
    obtain ⟨_, v, h, hs⟩ := yields_bind.mp h
    exact .consBranch (ih h) (ihs hs)
  | definition header body line ih =>
    simp only [Task.check, Definition.check] at h
    split at h
    · exact absurd h yields_fail
    · rename_i hn
      simp only [yields_bind, yields_ensureRegistered hn, yields_note, yields_openScope, yields_closeScope,
        yields_bindParameters] at h
      obtain ⟨_, _, hk, _, _, rfl, _, _, rfl, _, v, hp, _, w, h, hx⟩ := h
      exact .definition hn hk hp (ih h) hx

theorem yields_of_passes {w : Task} (h : Passes t w u) : w.check.Yields t () u := by
  induction h with
  | assign h => exact yields_ask.mpr ⟨h, rfl⟩
  | skip | exit | nil | noBranch => exact yields_pure.mpr ⟨rfl, rfl⟩
  | @ret t line value h =>
    cases value with
    | none => exact yields_pure.mpr ⟨rfl, rfl⟩
    | some e =>
      obtain ⟨ty, h⟩ := h e rfl
      exact yields_bind.mpr ⟨ty, t, yields_ask.mpr ⟨h, rfl⟩, yields_pure.mpr ⟨rfl, rfl⟩⟩
  | brk h | cont h => exact yields_requireLoop.mpr ⟨h, rfl⟩
  | cond hb _ hv ih =>
    simp only [Task.check, Stmt.check, List.isEmpty_iff, hb, if_false, yields_bind, yields_openScope,
      yields_closeScope]
    exact ⟨(), _, rfl, (), _, ih, hv⟩
  | loop _ hv ih =>
    simp only [Task.check, Stmt.check, yields_bind, yields_noteLabel, yields_openLoop, yields_openScope,
      yields_closeScope, yields_closeLoop]
    exact ⟨(), _, rfl, (), _, rfl, (), _, rfl, (), _, ih, (), _, hv, rfl⟩
  | @proc t call ty line h =>
    simp only [Task.check, Stmt.check, Expr.check, yields_bind, yields_openScope, yields_ask, yields_closeScope]
    exact ⟨(), _, rfl, ty, _, ⟨Table.env_openScope ▸ h, rfl⟩, rfl⟩
  | define _ ih => exact ih
  | declare hg hn hr =>
    simp only [Task.check, Stmt.check, Header.declare, yields_bind, yields_ask]
    exact ⟨none, _, ⟨congrArg _ hg, rfl⟩, yields_register.mpr ⟨hn, hr⟩⟩
  | vars hn hr h =>
    simp only [Task.check, Stmt.check, Bool.or_eq_true, List.isEmpty_iff, hn, hr, Bool.false_eq_true, or_self,
      if_false]
    exact yields_vars.mpr h
  | cons _ _ ih ihs => exact yields_bind.mpr ⟨(), _, ih, ihs⟩
  | branch hc _ hv ih =>
    simp only [Task.check, Branch.check, yields_bind, yields_checkCondition, yields_openScope, yields_closeScope]
    exact ⟨(), _, ⟨hc, rfl⟩, (), _, rfl, (), _, ih, hv⟩
  | consBranch _ _ ih ihs => exact yields_bind.mpr ⟨(), _, ih, ihs⟩
  | definition hn hk hp _ hx ih =>
    simp only [Task.check, Definition.check, hn, if_false, yields_bind, yields_ensureRegistered hn, yields_note,
      yields_openScope, yields_closeScope, yields_bindParameters]
    exact ⟨(), _, hk, (), _, rfl, (), _, rfl, (), _, hp, (), _, ih, hx⟩

theorem yields_iff_passes {w : Task} {x : Unit} : w.check.Yields t x u ↔ Passes t w u :=
  ⟨passes_of_yields, yields_of_passes⟩

theorem Program.check_result (p : Program) (t : Table) :
    (p.check.run t).result = ((Stmt.checkAll p).run t).result := by
  simp only [Program.check, Check.run, bind, Check.bind, Check.note]
  rcases Stmt.checkAll p t with ⟨_ | _, _, _⟩ <;> rfl

/-! ## A check that passes leaves as many scopes and loops as it found -/

theorem Table.declare_depth {e : Entry} (h : t.declare e = .ok u) :
    u.depth = t.depth ∧ u.loopDepth = t.loopDepth := by
  obtain ⟨s, outer, hs, -, rfl⟩ := declare_ok.mp h
  simp [depth, hs]

theorem Table.declareAll_depth : ∀ {es : List Entry} {t : Table}, t.declareAll es = .ok u →
    u.depth = t.depth ∧ u.loopDepth = t.loopDepth
  | [], t, h => by cases h; exact ⟨rfl, rfl⟩
  | e :: es, t, h => by
    obtain ⟨v, hv, h⟩ := declareAll_cons.mp h
    obtain ⟨h₁, h₂⟩ := declareAll_depth h
    obtain ⟨h₃, h₄⟩ := declare_depth hv
    exact ⟨h₁.trans h₃, h₂.trans h₄⟩

theorem Table.declareGlobal_depth {e : Entry} (h : t.declareGlobal e = .ok u) :
    u.depth = t.depth ∧ u.loopDepth = t.loopDepth := by
  obtain ⟨inner, g, hs, -, rfl⟩ := declareGlobal_ok.mp h
  simp [depth, hs]

theorem Table.Knows.depth {h : Header} (hk : t.Knows h u) : u.depth = t.depth ∧ u.loopDepth = t.loopDepth := by
  cases hk with
  | before => exact ⟨rfl, rfl⟩
  | now _ hd => exact declareGlobal_depth hd

theorem Table.closeScope_depth (h : t.closeScope = .ok u) :
    t.depth = u.depth + 1 ∧ u.loopDepth = t.loopDepth := by
  obtain ⟨s, hs, hl⟩ := closeScope_ok.mp h
  simp [Table.depth, hs, hl]

@[simp] theorem Table.openScope_depth (t : Table) : t.openScope.depth = t.depth + 1 := rfl

@[simp] theorem Table.openScope_loopDepth (t : Table) : t.openScope.loopDepth = t.loopDepth := rfl

@[simp] theorem Table.openLoop_depth (t : Table) : t.openLoop.depth = t.depth := rfl

@[simp] theorem Table.openLoop_loopDepth (t : Table) : t.openLoop.loopDepth = t.loopDepth + 1 := rfl

theorem Table.openScope_declareAll_pos {es : List Entry} (h : t.openScope.declareAll es = .ok u) : 0 < u.depth := by
  rw [(declareAll_depth h).1]
  exact Nat.succ_pos _

theorem Passes.depth {w : Task} (h : Passes t w u) : u.depth = t.depth ∧ u.loopDepth = t.loopDepth := by
  induction h with
  | assign | skip | exit | ret | brk | cont | proc | nil | noBranch => exact ⟨rfl, rfl⟩
  | cond _ _ hv ih | branch _ _ hv ih =>
    have hc := Table.closeScope_depth hv
    rw [Table.openScope_depth] at ih
    exact ⟨by omega, hc.2.trans ih.2⟩
  | @loop t u v label body line _ hv ih =>
    have hc := Table.closeScope_depth hv
    rw [Table.openScope_depth] at ih
    have hl : v.loopDepth = t.loopDepth + 1 := hc.2.trans ih.2
    refine ⟨?_, by simp [Table.closeLoop, hl]⟩
    have : v.depth + 1 = t.depth + 1 := hc.1.symm.trans ih.1
    simpa [Table.depth, Table.closeLoop] using this
  | define _ ih => exact ih
  | declare _ _ hd => exact Table.declareGlobal_depth hd
  | vars _ _ hd => exact Table.declareAll_depth hd
  | cons _ _ ih ihs | consBranch _ _ ih ihs => exact ⟨ihs.1.trans ih.1, ihs.2.trans ih.2⟩
  | definition _ hk hp _ hx ih =>
    have hc := Table.closeScope_depth hx
    have hd := Table.declareAll_depth hp
    rw [Table.openScope_depth] at hd
    have hk := hk.depth
    exact ⟨by omega, hc.2.trans (ih.2.trans (hd.2.trans hk.2))⟩

/-- So there is always a scope to close after what was checked inside it. -/
theorem Passes.closes {w : Task} (h : Passes t w u) (ht : 0 < t.depth) : ∃ v, u.closeScope = .ok v := by
  have hd := h.depth.1
  cases hs : u.scopes with
  | nil => simp only [Table.depth, hs, List.length_nil] at hd ht; omega
  | cons s outer => exact ⟨⟨outer, u.loopDepth⟩, Table.closeScope_ok.mpr ⟨s, hs, rfl⟩⟩

theorem Passes.not_faults_closeScope {w : Task} {v : Table} (h : Passes t w u) (ht : 0 < t.depth) :
    ¬ closeScope.Faults u f v := by
  rw [faults_closeScope]
  rintro ⟨hc, -⟩
  obtain ⟨v, hv⟩ := h.closes ht
  cases hc.symm.trans hv

end

end Dana
