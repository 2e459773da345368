import Dana.Proofs.Run

/-!
# Code in a block of its own

What a piece of program declares goes to the scope it stands in, and inside a loop or a
branch to a new one instead. The two checks see the same table but for one scope, which
the second has in two parts: the new scope and the one from before. A declaration that
passes finds its name in neither part, so what passes outside passes inside as well
(`enclosed_accepted`). The converse fails, as the new scope has room for names that are
taken outside.
-/

namespace Dana

/-! ## A scope in two parts -/

/-- What the scope has is in one of the two, and in one only. -/
structure Scope.Parts (s inner outer : Scope) : Prop where
  find? : ∀ x, s.find? x = (inner.find? x).or (outer.find? x)
  apart : ∀ x, inner.find? x = none ∨ outer.find? x = none

namespace Scope.Parts

variable {s inner outer : Scope} {e : Entry}

theorem new (s : Scope) : s.Parts .empty s :=
  ⟨fun _ => rfl, fun _ => .inl rfl⟩

theorem function? (h : s.Parts inner outer) (x : String) :
    s.function? x = (inner.function? x).or (outer.function? x) := by
  unfold Scope.function?
  rw [h.find?]
  rcases h.apart x with hx | hx
  · simp [hx]
  · simp [hx]

theorem find?_eq_none (h : s.Parts inner outer) {x : String} (hx : s.find? x = none) :
    inner.find? x = none ∧ outer.find? x = none := by
  rw [h.find?] at hx
  exact Option.or_eq_none_iff.mp hx

theorem insert_inner (h : s.Parts inner outer) (he : s.find? e.name = none) :
    (s.insert e).Parts (inner.insert e) outer := by
  obtain ⟨hi, ho⟩ := h.find?_eq_none he
  refine ⟨fun x => ?_, fun x => ?_⟩
  · rw [find?_insert he, find?_insert hi, h.find?]
    by_cases hx : e.name = x <;> simp [hx]
  · rw [find?_insert hi]
    by_cases hx : e.name = x
    · subst hx
      exact .inr ho
    · rw [if_neg hx]
      exact h.apart x

theorem insert_outer (h : s.Parts inner outer) (he : s.find? e.name = none) :
    (s.insert e).Parts inner (outer.insert e) := by
  obtain ⟨hi, ho⟩ := h.find?_eq_none he
  refine ⟨fun x => ?_, fun x => ?_⟩
  · rw [find?_insert he, find?_insert ho, h.find?]
    by_cases hx : e.name = x
    · subst hx
      simp [hi]
    · simp [hx]
  · rw [find?_insert ho]
    by_cases hx : e.name = x
    · subst hx
      exact .inl hi
    · rw [if_neg hx]
      exact h.apart x

end Scope.Parts

/-! ## Stacks of scopes -/

/-- The second stack is the first with one scope in two parts, under `k` others. -/
inductive Parted : Nat → List Scope → List Scope → Prop
  | here {s inner outer ss} : s.Parts inner outer → Parted 0 (s :: ss) (inner :: outer :: ss)
  | under (s : Scope) {k ss ss'} : Parted k ss ss' → Parted (k + 1) (s :: ss) (s :: ss')

namespace Parted

variable {k : Nat} {ss ss' us : List Scope} {e : Entry}

theorem ne_nil (h : Parted k ss ss') : ss ≠ [] ∧ ss' ≠ [] := by
  cases h <;> simp

theorem findSome?_eq {α : Type} {f : Scope → Option α}
    (hf : ∀ {s inner outer}, s.Parts inner outer → f s = (f inner).or (f outer)) (h : Parted k ss ss') :
    ss.findSome? f = ss'.findSome? f := by
  induction h with
  | @here s inner outer ss hs =>
    rw [List.findSome?_cons, List.findSome?_cons, List.findSome?_cons, hf hs]
    cases f inner <;> rfl
  | under s _ ih => rw [List.findSome?_cons, List.findSome?_cons, ih]

theorem declareLast (h : Parted k ss ss') (hu : Table.declareLast e ss = .ok us) :
    ∃ us', Table.declareLast e ss' = .ok us' ∧ Parted k us us' := by
  induction h generalizing us with
  | @here s inner outer ss hs =>
    by_cases hss : ss = []
    · -- the scope is the global one, and a function goes to its outer part
      subst hss
      obtain ⟨u, hd, hu⟩ := bind_eq_ok.mp hu
      cases hu
      obtain ⟨hn, rfl⟩ := Scope.declare_ok.mp hd
      have houter := Scope.declare_ok.mpr ⟨(hs.find?_eq_none hn).2, rfl⟩
      refine ⟨[inner, outer.insert e], ?_, .here (hs.insert_outer hn)⟩
      rw [Table.declareLast_cons (List.cons_ne_nil _ _), Table.declareLast, houter]
      rfl
    · rw [Table.declareLast_cons hss] at hu
      rw [Table.declareLast_cons (List.cons_ne_nil _ _), Table.declareLast_cons hss]
      cases hd : Table.declareLast e ss with
      | error f =>
        rw [hd] at hu
        cases hu
      | ok vs =>
        rw [hd] at hu
        cases hu
        exact ⟨inner :: outer :: vs, rfl, .here hs⟩
  | under s hss ih =>
    rw [Table.declareLast_cons hss.ne_nil.1] at hu
    rw [Table.declareLast_cons hss.ne_nil.2]
    generalize hd : Table.declareLast e _ = x at hu
    cases x with
    | error f => cases hu
    | ok vs =>
      cases hu
      obtain ⟨vs', hvs', hparted⟩ := ih hd
      refine ⟨s :: vs', ?_, .under s hparted⟩
      rw [hvs']
      rfl

end Parted

/-! ## Tables -/

structure Table.Parted (k : Nat) (t t' : Table) : Prop where
  scopes : Dana.Parted k t.scopes t'.scopes
  loopDepth : t.loopDepth ≤ t'.loopDepth

namespace Table.Parted

variable {k : Nat} {t t' u : Table} {e : Entry}

theorem env (h : t.Parted k t') : t'.env = t.env := by
  have hfind : ∀ x, t'.find? x = t.find? x := fun x => (h.scopes.findSome?_eq fun hs => hs.find? x).symm
  have hfunction : t'.function? = t.function? :=
    funext fun x => (h.scopes.findSome?_eq fun hs => hs.function? x).symm
  unfold Table.env
  simp only [hfind, hfunction]

theorem function? (h : t.Parted k t') (x : String) : t'.function? x = t.function? x :=
  congrFun (congrArg Env.function? h.env) x

theorem inLoop (h : t.Parted k t') (hl : t.inLoop = true) : t'.inLoop = true := by
  have hle := h.loopDepth
  unfold Table.inLoop at hl ⊢
  rw [decide_eq_true_eq] at hl ⊢
  omega

theorem openScope (h : t.Parted k t') : t.openScope.Parted (k + 1) t'.openScope :=
  ⟨.under .empty h.scopes, h.loopDepth⟩

theorem openLoop (h : t.Parted k t') : t.openLoop.Parted k t'.openLoop :=
  ⟨h.scopes, Nat.succ_le_succ h.loopDepth⟩

theorem closeLoop (h : t.Parted k t') : t.closeLoop.Parted k t'.closeLoop :=
  ⟨h.scopes, Nat.sub_le_sub_right h.loopDepth 1⟩

theorem closeScope (h : t.Parted (k + 1) t') (hu : t.closeScope = .ok u) :
    ∃ u', t'.closeScope = .ok u' ∧ u.Parted k u' := by
  obtain ⟨ss, depth⟩ := t
  obtain ⟨ss', depth'⟩ := t'
  obtain ⟨hss, hd⟩ := h
  cases hss with
  | under s hss =>
    cases hu
    exact ⟨⟨_, depth'⟩, rfl, hss, hd⟩

theorem declare (h : t.Parted k t') (hu : t.declare e = .ok u) : ∃ u', t'.declare e = .ok u' ∧ u.Parted k u' := by
  obtain ⟨ss, depth⟩ := t
  obtain ⟨ss', depth'⟩ := t'
  obtain ⟨hss, hd⟩ := h
  obtain ⟨s, outer, hs, hn, rfl⟩ := declare_ok.mp hu
  cases hss with
  | here hparts =>
    cases hs
    exact ⟨_, declare_ok.mpr ⟨_, _, rfl, (hparts.find?_eq_none hn).1, rfl⟩, .here (hparts.insert_inner hn), hd⟩
  | under s hss =>
    cases hs
    exact ⟨_, declare_ok.mpr ⟨_, _, rfl, hn, rfl⟩, .under _ hss, hd⟩

theorem declareAll : ∀ {es : List Entry} {t t' : Table}, t.Parted k t' → t.declareAll es = .ok u →
    ∃ u', t'.declareAll es = .ok u' ∧ u.Parted k u'
  | [], t, t', h, hu => by
    cases hu
    exact ⟨t', rfl, h⟩
  | e :: es, t, t', h, hu => by
    obtain ⟨v, hv, hu⟩ := declareAll_cons.mp hu
    obtain ⟨v', hv', hparted⟩ := h.declare hv
    obtain ⟨u', hu', hparted⟩ := hparted.declareAll hu
    exact ⟨u', declareAll_cons.mpr ⟨v', hv', hu'⟩, hparted⟩

theorem declareGlobal (h : t.Parted k t') (hu : t.declareGlobal e = .ok u) :
    ∃ u', t'.declareGlobal e = .ok u' ∧ u.Parted k u' := by
  obtain ⟨us, hus, hu⟩ := bind_eq_ok.mp hu
  cases hu
  obtain ⟨us', hus', hparted⟩ := h.scopes.declareLast hus
  exact ⟨⟨us', t'.loopDepth⟩, bind_eq_ok.mpr ⟨us', hus', rfl⟩, hparted, h.loopDepth⟩

theorem knows {g : Header} (h : t.Parted k t') (hk : t.Knows g u) : ∃ u', t'.Knows g u' ∧ u.Parted k u' := by
  cases hk with
  | before hg => exact ⟨t', .before ((h.function? _).trans hg), h⟩
  | now hg hd =>
    obtain ⟨u', hu', hparted⟩ := h.declareGlobal hd
    exact ⟨u', .now ((h.function? _).trans hg) hu', hparted⟩

end Table.Parted

/-! ## Checks -/

/-- What passes with a scope in one part passes with the scope in two. -/
theorem Passes.parted {t u : Table} {w : Task} (h : Passes t w u) : ∀ {k : Nat} {t' : Table}, t.Parted k t' →
    ∃ u', Passes t' w u' ∧ u.Parted k u' := by
  induction h with
  | assign hi =>
    intro k t' ht
    exact ⟨t', .assign (ht.env ▸ hi), ht⟩
  | skip =>
    intro k t' ht
    exact ⟨t', .skip, ht⟩
  | exit =>
    intro k t' ht
    exact ⟨t', .exit, ht⟩
  | ret hi =>
    intro k t' ht
    exact ⟨t', .ret (ht.env ▸ hi), ht⟩
  | brk hl =>
    intro k t' ht
    exact ⟨t', .brk (ht.inLoop hl), ht⟩
  | cont hl =>
    intro k t' ht
    exact ⟨t', .cont (ht.inLoop hl), ht⟩
  | cond hb _ hv ih =>
    intro k t' ht
    obtain ⟨u', hu', hparted⟩ := ih ht.openScope
    obtain ⟨v', hv', hparted⟩ := hparted.closeScope hv
    exact ⟨v', .cond hb hu' hv', hparted⟩
  | loop _ hv ih =>
    intro k t' ht
    obtain ⟨u', hu', hparted⟩ := ih ht.openLoop.openScope
    obtain ⟨v', hv', hparted⟩ := hparted.closeScope hv
    exact ⟨v'.closeLoop, .loop hu' hv', hparted.closeLoop⟩
  | proc hi =>
    intro k t' ht
    exact ⟨t', .proc (ht.env ▸ hi), ht⟩
  | define _ ih =>
    intro k t' ht
    obtain ⟨u', hu', hparted⟩ := ih ht
    exact ⟨u', .define hu', hparted⟩
  | declare hg hn hd =>
    intro k t' ht
    obtain ⟨u', hu', hparted⟩ := ht.declareGlobal hd
    exact ⟨u', .declare ((ht.function? _).trans hg) hn hu', hparted⟩
  | vars hn hr hd =>
    intro k t' ht
    obtain ⟨u', hu', hparted⟩ := ht.declareAll hd
    exact ⟨u', .vars hn hr hu', hparted⟩
  | nil =>
    intro k t' ht
    exact ⟨t', .nil, ht⟩
  | cons _ _ ih ihs =>
    intro k t' ht
    obtain ⟨u', hu', hparted⟩ := ih ht
    obtain ⟨v', hv', hparted⟩ := ihs hparted
    exact ⟨v', .cons hu' hv', hparted⟩
  | branch hc _ hv ih =>
    intro k t' ht
    obtain ⟨u', hu', hparted⟩ := ih ht.openScope
    obtain ⟨v', hv', hparted⟩ := hparted.closeScope hv
    exact ⟨v', .branch (ht.env ▸ hc) hu' hv', hparted⟩
  | noBranch =>
    intro k t' ht
    exact ⟨t', .noBranch, ht⟩
  | consBranch _ _ ih ihs =>
    intro k t' ht
    obtain ⟨u', hu', hparted⟩ := ih ht
    obtain ⟨v', hv', hparted⟩ := ihs hparted
    exact ⟨v', .consBranch hu' hv', hparted⟩
  | definition hn hk hp _ hx ih =>
    intro k t' ht
    obtain ⟨u', hk', hparted⟩ := ht.knows hk
    obtain ⟨v', hp', hparted⟩ := hparted.openScope.declareAll hp
    obtain ⟨w', hw', hparted⟩ := ih hparted
    obtain ⟨x', hx', hparted⟩ := hparted.closeScope hx
    exact ⟨x', .definition hn hk' hp' hw' hx', hparted⟩

theorem Table.parted_openScope {t : Table} (ht : 0 < t.depth) : t.Parted 0 t.openScope := by
  obtain ⟨ss, depth⟩ := t
  cases ss with
  | nil => exact absurd ht (Nat.lt_irrefl 0)
  | cons s ss => exact ⟨.here (.new s), Nat.le_refl _⟩

/-- Other loops round it do no harm. -/
theorem Table.Parted.addLoop {k : Nat} {t t' : Table} (h : t.Parted k t') : t.Parted k t'.openLoop :=
  ⟨h.scopes, Nat.le_succ_of_le h.loopDepth⟩

section
variable {t : Table} (ht : 0 < t.depth) {b : List Stmt}
include ht

theorem Passes.openScope {u : Table} (h : Passes t (.block b) u) : ∃ v, Passes t.openScope (.block b) v := by
  obtain ⟨v, hv, -⟩ := h.parted (Table.parted_openScope ht)
  exact ⟨v, hv⟩

theorem Passes.openLoop {u : Table} (h : Passes t (.block b) u) :
    ∃ v, Passes t.openLoop.openScope (.block b) v := by
  obtain ⟨v, hv, -⟩ := h.parted (Table.parted_openScope ht).addLoop
  exact ⟨v, hv⟩

end

/-! ## Main result -/

/-- **A block of its own does no harm.** Code that passes where it stands also passes as
the body of a loop, and as that of a conditional with no other branch and no condition. -/
theorem enclosed_accepted {t : Table} (ht : 0 < t.depth) {b : List Stmt}
    (h : ((Stmt.checkAll b).run t).result = .ok ()) :
    (∀ label line, ((Stmt.check ⟨.loop label b, line⟩).run t).result = .ok ()) ∧
    ∀ line line', ((Stmt.check ⟨.cond [⟨none, b, line'⟩], line⟩).run t).result = .ok () := by
  have hb : Passes t (.block b) ((Stmt.checkAll b).run t).table := passes_of_yields ⟨h, rfl⟩
  constructor
  · intro label line
    obtain ⟨u, hu⟩ := hb.openLoop ht
    obtain ⟨v, hv⟩ := hu.closes (Nat.succ_pos _)
    have hloop : Passes t (.stmt ⟨.loop label b, line⟩) v.closeLoop := .loop hu hv
    exact (yields_of_passes hloop).1
  · intro line line'
    -- the conditional opens a scope, and its branch another
    have hpos : 0 < t.openScope.depth := Nat.succ_pos _
    obtain ⟨u, hu⟩ := hb.openScope ht
    obtain ⟨v, hv⟩ := hu.openScope hpos
    obtain ⟨x, hx⟩ := hv.closes (Nat.succ_pos _)
    have hbranch : Passes t.openScope (.branch ⟨none, b, line'⟩) x := .branch (by simp) hv hx
    have hbranches : Passes t.openScope (.branches [⟨none, b, line'⟩]) x := .consBranch hbranch .noBranch
    obtain ⟨y, hy⟩ := hbranches.closes hpos
    have hcond : Passes t (.stmt ⟨.cond [⟨none, b, line'⟩], line⟩) y := .cond (List.cons_ne_nil _ _) hbranches hy
    exact (yields_of_passes hcond).1

/-- The variables and the function share the global scope, unless there is a block round them. -/
def sharing : List Stmt :=
  [.vars ["x", "y"] .int 1,
   .define (.make "f" none [.ofNames ["x"] .byte true] 2)
    [.vars ["y"] .byte 3, .assign (.var "x" 4) (.var "y" 4) 4],
   .assign (.var "x" 5) (.var "y" 5) 5, .proc "f" [.hex 6 6] 6]

theorem enclosed_accepted_sharing :
    0 < Table.standard.depth ∧ ((Stmt.checkAll sharing).run .standard).result = .ok () ∧
    ((Stmt.check ⟨.loop (some "l") sharing, 7⟩).run .standard).result = .ok () ∧
    ((Stmt.check ⟨.cond [⟨none, sharing, 8⟩], 7⟩).run .standard).result = .ok () := by
  have ht : 0 < Table.standard.depth := by decide
  have h : ((Stmt.checkAll sharing).run .standard).result = .ok () := rfl
  obtain ⟨hloop, hcond⟩ := enclosed_accepted ht h
  exact ⟨ht, h, hloop (some "l") 7, hcond 7 8⟩

-- A name that is taken outside is free inside.
example : ((Stmt.checkAll [.vars ["strlen"] .int 1]).run .standard).result =
      .error ⟨.redeclaration "variable" "strlen", 1⟩ ∧
    ((Stmt.check ⟨.loop none [.vars ["strlen"] .int 1], 1⟩).run .standard).result = .ok () :=
  ⟨rfl, rfl⟩

end Dana
