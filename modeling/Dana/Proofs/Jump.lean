import Dana.Proofs.Blame

/-!
# Jumps and loops

`break` and `continue` pass where a loop is open. The count of open loops is kept for
the whole check, and the body of a function goes on with the count it is met with. So
a jump that passes stands in a loop, but the loop may be one that its function stands
in (`jumps_in_loops`).
-/

namespace Dana

/-! ## Positions -/

/-- The statement stands in the task, within the nodes of the list, the outermost first. -/
inductive Stmt.Within (s : Stmt) : Task → List Node → Prop
  | here : Within s (.stmt s) []
  | cond {bs line path} : Within s (.branches bs) path →
      Within s (.stmt ⟨.cond bs, line⟩) (.stmt ⟨.cond bs, line⟩ :: path)
  | loop {label body line path} : Within s (.block body) path →
      Within s (.stmt ⟨.loop label body, line⟩) (.stmt ⟨.loop label body, line⟩ :: path)
  | define {d line path} : Within s (.definition d) path →
      Within s (.stmt ⟨.define d, line⟩) (.stmt ⟨.define d, line⟩ :: path)
  | head {s' ss path} : Within s (.stmt s') path → Within s (.block (s' :: ss)) path
  | tail {s' ss path} : Within s (.block ss) path → Within s (.block (s' :: ss)) path
  | branch {condition body line path} : Within s (.block body) path →
      Within s (.branch ⟨condition, body, line⟩) (.branch ⟨condition, body, line⟩ :: path)
  | headBranch {b bs path} : Within s (.branch b) path → Within s (.branches (b :: bs)) path
  | tailBranch {b bs path} : Within s (.branches bs) path → Within s (.branches (b :: bs)) path
  | definition {header body line path} : Within s (.block body) path →
      Within s (.definition ⟨header, body, line⟩) (.definition ⟨header, body, line⟩ :: path)

def Stmt.jump? : Stmt → Option String
  | ⟨.brk _, _⟩ => some "break"
  | ⟨.cont _, _⟩ => some "continue"
  | _ => none

def Node.isLoop : Node → Bool
  | .stmt ⟨.loop _ _, _⟩ => true
  | _ => false

def Node.isDefinition : Node → Bool
  | .definition _ => true
  | _ => false

/-- There is a loop with no definition inside it. -/
def OwnLoop (path : List Node) : Prop :=
  ∃ outer n inner, path = outer ++ n :: inner ∧ n.isLoop = true ∧ ∀ m ∈ inner, m.isDefinition = false

/-- The innermost definition stands in a loop. -/
def InheritedLoop (path : List Node) : Prop :=
  ∃ outer d inner, path = outer ++ .definition d :: inner ∧ outer.any Node.isLoop = true ∧
    ∀ m ∈ inner, m.isDefinition = false

theorem exists_innermost_definition : ∀ path : List Node, (∀ m ∈ path, m.isDefinition = false) ∨
    ∃ outer d inner, path = outer ++ .definition d :: inner ∧ ∀ m ∈ inner, m.isDefinition = false
  | [] => .inl (by simp)
  | n :: path => by
    rcases exists_innermost_definition path with hpath | ⟨outer, d, inner, rfl, hinner⟩
    · cases n with
      | definition d => exact .inr ⟨[], d, path, rfl, hpath⟩
      | stmt | branch | expr | place | call => exact .inl (List.forall_mem_cons.mpr ⟨rfl, hpath⟩)
    · exact .inr ⟨n :: outer, d, inner, rfl, hinner⟩

theorem ownLoop_or_inheritedLoop {path : List Node} (h : path.any Node.isLoop = true) :
    OwnLoop path ∨ InheritedLoop path := by
  obtain ⟨n, hn, hl⟩ := List.any_eq_true.mp h
  obtain ⟨outer, inner, rfl⟩ := List.append_of_mem hn
  rcases exists_innermost_definition inner with hinner | ⟨between, d, inner, rfl, hinner⟩
  · exact .inl ⟨outer, n, inner, rfl, hl, hinner⟩
  · exact .inr ⟨outer ++ n :: between, d, inner, by simp, by simp [hl], hinner⟩

/-! ## Every statement has a position -/

theorem Expr.stmt_not_mem_nodes {e : Expr} {s : Stmt} : Node.stmt s ∉ e.nodes := by
  intro hs
  rcases mem_nodes_cases hs with ⟨_, h⟩ | ⟨_, h⟩ | ⟨_, h⟩ <;> cases h

theorem Expr.stmt_not_mem_nodes? {o : Option Expr} {s : Stmt} : Node.stmt s ∉ Expr.nodes? o := by
  rw [mem_nodes?]
  intro hs
  obtain ⟨e, -, hs⟩ := hs
  exact e.stmt_not_mem_nodes hs

theorem Place.stmt_not_mem_nodes {p : Place} {s : Stmt} : Node.stmt s ∉ p.nodes := by
  rw [mem_nodes]
  intro hs
  rcases hs with hs | ⟨e, -, hs⟩
  · cases hs
  · exact e.stmt_not_mem_nodes hs

theorem Task.within_of_mem_nodes {s : Stmt} {w : Task} (h : Node.stmt s ∈ w.nodes) : ∃ path, s.Within w path := by
  -- a statement is the task itself or stands in one of its parts, and no part is an expression
  have hself : ∀ {s' : Stmt}, Node.stmt s = .stmt s' → ∃ path, s.Within (.stmt s') path := by
    intro s' hs
    cases hs
    exact ⟨[], .here⟩
  induction w with
  | assign target value line =>
    rcases List.mem_cons.mp h with hs | hs
    · exact hself hs
    · rcases List.mem_append.mp hs with hs | hs
      · exact absurd hs target.stmt_not_mem_nodes
      · exact absurd hs value.stmt_not_mem_nodes
  | skip line | exit line | brk label line | cont label line | declare g line | vars names ty line =>
    exact hself (List.mem_singleton.mp h)
  | ret value line =>
    rcases List.mem_cons.mp h with hs | hs
    · exact hself hs
    · exact absurd hs Expr.stmt_not_mem_nodes?
  | cond bs line ih =>
    rcases List.mem_cons.mp h with hs | hs
    · exact hself hs
    · obtain ⟨path, hpath⟩ := ih hs
      exact ⟨_, .cond hpath⟩
  | loop label body line ih =>
    rcases List.mem_cons.mp h with hs | hs
    · exact hself hs
    · obtain ⟨path, hpath⟩ := ih hs
      exact ⟨_, .loop hpath⟩
  | proc call line =>
    rcases List.mem_cons.mp h with hs | hs
    · exact hself hs
    · exact absurd hs call.stmt_not_mem_nodes
  | define d line ih =>
    rcases List.mem_cons.mp h with hs | hs
    · exact hself hs
    · obtain ⟨path, hpath⟩ := ih hs
      exact ⟨_, .define hpath⟩
  | nil | noBranch => cases h
  | cons s' ss ih ihs =>
    rcases List.mem_append.mp h with hs | hs
    · obtain ⟨path, hpath⟩ := ih hs
      exact ⟨path, .head hpath⟩
    · obtain ⟨path, hpath⟩ := ihs hs
      exact ⟨path, .tail hpath⟩
  | branch condition body line ih =>
    rcases List.mem_cons.mp h with hs | hs
    · cases hs
    · rcases List.mem_append.mp hs with hs | hs
      · exact absurd hs Expr.stmt_not_mem_nodes?
      · obtain ⟨path, hpath⟩ := ih hs
        exact ⟨_, .branch hpath⟩
  | consBranch b bs ih ihs =>
    rcases List.mem_append.mp h with hs | hs
    · obtain ⟨path, hpath⟩ := ih hs
      exact ⟨path, .headBranch hpath⟩
    · obtain ⟨path, hpath⟩ := ihs hs
      exact ⟨path, .tailBranch hpath⟩
  | definition header body line ih =>
    rcases List.mem_cons.mp h with hs | hs
    · cases hs
    · obtain ⟨path, hpath⟩ := ih hs
      exact ⟨_, .definition hpath⟩

/-! ## Jumps that pass -/

section
variable {t u : Table} {w : Task}

theorem Table.inLoop_eq (h : u.loopDepth = t.loopDepth) : u.inLoop = t.inLoop := by
  unfold inLoop
  rw [h]

theorem Table.inLoop_params {header : Header} {v : Table} (hk : t.Knows header u)
    (hp : u.openScope.declareAll header.paramEntries = .ok v) : v.inLoop = t.inLoop :=
  inLoop_eq ((declareAll_depth hp).2.trans hk.depth.2)

theorem Passes.jump_in_loop {s : Stmt} (h : Passes t w u) (hj : s.jump? ≠ none) : ∀ {path}, s.Within w path →
    t.inLoop = true ∨ path.any Node.isLoop = true := by
  induction h with
  | assign | skip | exit | ret | proc | declare | vars =>
    intro path hs
    cases hs
    exact absurd rfl hj
  | brk ht | cont ht =>
    intro path _
    exact .inl ht
  | cond _ _ _ ih =>
    intro path hs
    cases hs with
    | here => exact absurd rfl hj
    | cond hs =>
      have hpath := ih hs
      exact hpath
  | loop =>
    intro path hs
    cases hs with
    | here => exact absurd rfl hj
    | loop hs => exact .inr rfl
  | define _ ih =>
    intro path hs
    cases hs with
    | here => exact absurd rfl hj
    | define hs =>
      have hpath := ih hs
      exact hpath
  | nil | noBranch =>
    intro path hs
    cases hs
  | cons h _ ih ihs =>
    intro path hs
    cases hs with
    | head hs => exact ih hs
    | tail hs => exact Table.inLoop_eq h.depth.2 ▸ ihs hs
  | branch _ _ _ ih =>
    intro path hs
    cases hs with
    | branch hs =>
      have hpath := ih hs
      exact hpath
  | consBranch h _ ih ihs =>
    intro path hs
    cases hs with
    | headBranch hs => exact ih hs
    | tailBranch hs => exact Table.inLoop_eq h.depth.2 ▸ ihs hs
  | definition _ hk hp _ _ ih =>
    intro path hs
    cases hs with
    | definition hs =>
      -- the count of loops goes on in the body
      rw [← Table.inLoop_params hk hp]
      have hpath := ih hs
      exact hpath

/-! ## Jumps that stop a check -/

theorem Fault.About.jump {keyword : String} {line : Line} {n : Node}
    (h : Fault.About ⟨.loopContext keyword, line⟩ n) :
    ∃ s : Stmt, n = .stmt s ∧ s.jump? = some keyword ∧ s.line = line := by
  cases h with
  | brk => exact ⟨_, rfl, rfl, rfl⟩
  | cont => exact ⟨_, rfl, rfl, rfl⟩

section
variable {env : Env} {keyword : String} {line : Line}

theorem Expr.infer_not_loopContext {e : Expr} : e.infer env ≠ .error ⟨.loopContext keyword, line⟩ := by
  intro h
  obtain ⟨n, hn, ha⟩ := e.infer_blames _ h
  obtain ⟨s, rfl, -⟩ := ha.jump
  exact e.stmt_not_mem_nodes hn

theorem Expr.inferCondition_not_loopContext {e : Expr} :
    e.inferCondition env ≠ .error ⟨.loopContext keyword, line⟩ := by
  intro h
  obtain ⟨n, hn, ha⟩ := e.inferCondition_blames [] 0 _ h
  obtain ⟨s, rfl, -⟩ := ha.jump
  obtain ⟨path, hs⟩ := Task.within_of_mem_nodes (w := .branch ⟨some e, [], 0⟩) hn
  cases hs with
  | branch hs => cases hs

theorem Place.inferAssign_not_loopContext {target : Place} {value : Expr} {stmtLine : Line} :
    target.inferAssign env value stmtLine ≠ .error ⟨.loopContext keyword, line⟩ := by
  intro h
  obtain ⟨n, hn, ha⟩ := Place.inferAssign_blames target value stmtLine _ h
  obtain ⟨s, rfl, hj, -⟩ := ha.jump
  obtain ⟨path, hs⟩ := Task.within_of_mem_nodes (w := .stmt ⟨.assign target value, stmtLine⟩) hn
  cases hs
  cases hj

end

theorem Stops.jump_outside {opened : List Opening} {f : Fault} {keyword : String} {line : Line}
    (h : Stops t w opened f u) (ht : 0 < t.depth) (hf : f = ⟨.loopContext keyword, line⟩) :
    t.inLoop = false ∧ ∃ s path, Stmt.Within s w path ∧ s.jump? = some keyword ∧ s.line = line ∧
      path.any Node.isLoop = false := by
  induction h with
  | assign h => exact absurd (hf ▸ h) Place.inferAssign_not_loopContext
  | ret h | proc h => exact absurd (hf ▸ h) Expr.infer_not_loopContext
  | condition h => exact absurd (hf ▸ h) Expr.inferCondition_not_loopContext
  | brk hl | cont hl =>
    cases hf
    exact ⟨hl, _, [], .here, rfl, rfl, rfl⟩
  | emptyCond | declared | unnamedHeader | emptyVars | unnamed => cases hf
  | declare _ _ h | register _ _ h => cases hf.symm.trans (Table.declareGlobal_error ht h).2
  | vars _ _ _ hd h => cases hf.symm.trans (Table.declare_error ((Table.declareAll_depth hd).1 ▸ ht) h).2
  | params _ _ _ hd h => cases hf.symm.trans (Table.declare_error (Table.openScope_declareAll_pos hd) h).2
  | cond _ _ ih =>
    obtain ⟨hl, s, path, hs, hj⟩ := ih (Nat.succ_pos _) hf
    exact ⟨hl, s, _, .cond hs, hj⟩
  | loop _ ih => cases (ih (Nat.succ_pos _) hf).1
  | define _ ih =>
    obtain ⟨hl, s, path, hs, hj⟩ := ih ht hf
    exact ⟨hl, s, _, .define hs, hj⟩
  | head _ ih =>
    obtain ⟨hl, s, path, hs, hj⟩ := ih ht hf
    exact ⟨hl, s, path, .head hs, hj⟩
  | tail h _ ih =>
    obtain ⟨hl, s, path, hs, hj⟩ := ih (h.depth.1 ▸ ht) hf
    exact ⟨Table.inLoop_eq h.depth.2 ▸ hl, s, path, .tail hs, hj⟩
  | branch _ _ ih =>
    obtain ⟨hl, s, path, hs, hj⟩ := ih (Nat.succ_pos _) hf
    exact ⟨hl, s, _, .branch hs, hj⟩
  | headBranch _ ih =>
    obtain ⟨hl, s, path, hs, hj⟩ := ih ht hf
    exact ⟨hl, s, path, .headBranch hs, hj⟩
  | tailBranch h _ ih =>
    obtain ⟨hl, s, path, hs, hj⟩ := ih (h.depth.1 ▸ ht) hf
    exact ⟨Table.inLoop_eq h.depth.2 ▸ hl, s, path, .tailBranch hs, hj⟩
  | definition _ hk hp _ ih =>
    obtain ⟨hl, s, path, hs, hj⟩ := ih (Table.openScope_declareAll_pos hp) hf
    exact ⟨Table.inLoop_params hk hp ▸ hl, s, _, .definition hs, hj⟩

end

/-! ## Main result -/

/-- **Jumps need loops, of their own or from outside their function.** In a program that
passes, each jump stands in a loop of its own function, or the function stands in a
loop. A program that is refused for a jump has one at that line that stands in none. -/
theorem jumps_in_loops (p : Program) :
    (check p = .ok () → ∀ s : Stmt, .stmt s ∈ Stmt.nodesAll p → s.jump? ≠ none →
      (∃ path, s.Within (.block p) path) ∧
        ∀ path, s.Within (.block p) path → OwnLoop path ∨ InheritedLoop path) ∧
    ∀ keyword line, check p = .error ⟨.loopContext keyword, line⟩ →
      ∃ s path, Stmt.Within s (.block p) path ∧ s.jump? = some keyword ∧ s.line = line ∧
        path.any Node.isLoop = false := by
  unfold check
  rw [p.check_result]
  refine ⟨fun h s hs hj => ?_, fun keyword line h => ?_⟩
  · refine ⟨Task.within_of_mem_nodes (w := .block p) hs, fun path hpath => ?_⟩
    have hp : Passes .standard (.block p) ((Stmt.checkAll p).run .standard).table := passes_of_yields ⟨h, rfl⟩
    rcases hp.jump_in_loop hj hpath with ht | hl
    · cases ht
    · exact ownLoop_or_inheritedLoop hl
  · obtain ⟨opened, hs⟩ := stops_of_faults (w := .block p) ⟨h, rfl⟩
    exact (hs.jump_outside (by decide) rfl).2

def jumping : Program :=
  [.loop (some "l")
    [.cond [⟨some (.rel .lt (.const 0 2) (.const 1 2) 2), [⟨.cont none, 3⟩], 2⟩] 2,
     .define (.make "f" none [] 4) [.loop none [⟨.brk (some "l"), 6⟩] 5],
     ⟨.brk none, 7⟩] 1]

theorem jumps_in_loops_jumping :
    check jumping = .ok () ∧ .stmt ⟨.brk (some "l"), 6⟩ ∈ Stmt.nodesAll jumping ∧
    (∃ path, Stmt.Within ⟨.brk (some "l"), 6⟩ (.block jumping) path) ∧
    ∀ path, Stmt.Within ⟨.brk (some "l"), 6⟩ (.block jumping) path → OwnLoop path ∨ InheritedLoop path := by
  have hpasses : check jumping = .ok () := rfl
  have hmem : .stmt ⟨.brk (some "l"), 6⟩ ∈ Stmt.nodesAll jumping := by
    simp [jumping, Stmt.loop, Stmt.cond, Stmt.define, Stmt.nodesAll, Stmt.nodes, StmtForm.nodes, Definition.nodes]
  have hjumps := (jumps_in_loops jumping).1 hpasses _ hmem (by decide)
  exact ⟨hpasses, hmem, hjumps⟩

/-- The function has no loop, but it stands in one. -/
def leaping : Program :=
  [.loop none [.define (.make "f" none [] 2) [⟨.brk none, 3⟩]] 1]

theorem jump_out_of_function :
    check leaping = .ok () ∧
    ∃ path, Stmt.Within ⟨.brk none, 3⟩ (.block leaping) path ∧ ¬ OwnLoop path := by
  refine ⟨rfl, _, .head (.loop (.head (.define (.definition (.head .here))))), ?_⟩
  intro hown
  obtain ⟨outer, n, inner, hpath, hl, hinner⟩ := hown
  -- the only loop is outermost, with the definition inside it
  rcases outer with _ | ⟨_, _ | ⟨_, _ | ⟨_, outer⟩⟩⟩
  · cases hpath
    cases hinner _ (List.mem_cons_of_mem _ List.mem_cons_self)
  · cases hpath
    cases hl
  · cases hpath
    cases hl
  · simp at hpath

end Dana
