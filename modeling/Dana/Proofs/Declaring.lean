import Dana.Proofs.WellFormed

/-!
# Declarations that are refused

A single declaration that is refused leaves the table alone. A row of them does not: what
stands before the refused one has been entered. Which one is refused depends on the scope
and on the names before it in the row, and is given exactly here for the two rows there
are, the names of a variable declaration and the functions of the library
(`declarations_exact`).
-/

namespace Dana

open Check

/-! ## Single declarations -/

def Check.Atomic {α : Type} (m : Check α) : Prop :=
  ∀ t f, (m.run t).result = .error f → (m.run t).table = t

section
variable {α : Type} {m : Check α}

theorem Check.atomic_of_faults (h : ∀ {t f u}, m.Faults t f u → u = t) : m.Atomic :=
  fun _ _ hf => h ⟨hf, rfl⟩

theorem Check.bindName_atomic {role : Role} {x : String} {ty : Ty} {line : Line} :
    (bindName role x ty line).Atomic :=
  atomic_of_faults fun h => (faults_change.mp h).2

theorem Check.register_atomic {h : Header} : (register h).Atomic :=
  atomic_of_faults fun h => (faults_register.mp h).1

theorem Check.closeScope_atomic : closeScope.Atomic :=
  atomic_of_faults fun h => (faults_closeScope.mp h).2

end

/-! ## The two rows -/

/-- `u` is `t` with these entries more in its innermost scope, and not otherwise different. -/
def Table.GainsInnermost (t : Table) (es : List Entry) (u : Table) : Prop :=
  ∃ s s' outer, t.scopes = s :: outer ∧ s.Gains es s' ∧ u = { t with scopes := s' :: outer }

def Table.GainsGlobal (t : Table) (es : List Entry) (u : Table) : Prop :=
  ∃ inner g g', t.scopes = inner ++ [g] ∧ g.Gains es g' ∧ u = { t with scopes := inner ++ [g'] }

def Table.Admits (t : Table) (names : List String) : Prop :=
  names.Nodup ∧ ∀ x ∈ names, t.findInnermost? x = none

/-- What comes of declaring variables in `t`. -/
structure Outcome.EntersVariables (o : Outcome Unit) (t : Table) (names : List String) (ty : Ty) (line : Line) :
    Prop where
  ok_iff : o.result = .ok () ↔ t.Admits names
  ok : o.result = .ok () → t.GainsInnermost (Stmt.varEntries names ty line) o.table
  -- `x` is the first name that is taken or repeats one before it
  error : ∀ f, o.result = .error f → ∃ before x after, names = before ++ x :: after ∧ t.Admits before ∧
    (t.findInnermost? x ≠ none ∨ x ∈ before) ∧ f = ⟨.redeclaration "variable" x, line⟩ ∧
    t.GainsInnermost (Stmt.varEntries before ty line) o.table

def Table.Lacks (t : Table) (bs : List Builtin) : Prop :=
  ∀ b ∈ bs, t.findGlobal? b.name = none

structure Outcome.EntersLibrary (o : Outcome Unit) (t : Table) : Prop where
  ok_iff : o.result = .ok () ↔ t.Lacks Builtin.all
  ok : o.result = .ok () → t.GainsGlobal (Builtin.all.map fun b => .ofHeader b.header) o.table
  -- `b` is the first function whose name is taken
  error : ∀ f, o.result = .error f → ∃ before b after, Builtin.all = before ++ b :: after ∧ t.Lacks before ∧
    t.findGlobal? b.name ≠ none ∧ f = ⟨.redeclaration "function" b.name, 0⟩ ∧
    t.GainsGlobal (before.map fun b => .ofHeader b.header) o.table
  function? : o.result = .ok () →
    ∀ x, o.table.function? x = ((Builtin.find? x).map Builtin.header).or (t.function? x)

theorem Stmt.check_vars {names : List String} {ty : Ty} {line : Line} (hn : names ≠ []) (hty : ty.isReference = false) :
    Stmt.check ⟨.vars names ty, line⟩ = bindVariables names ty line := by
  simp [Stmt.check, hn, hty]

theorem Stmt.check_entersVariables {t : Table} (ht : 0 < t.depth) {names : List String} {ty : Ty} {line : Line}
    (hn : names ≠ []) (hty : ty.isReference = false) :
    ((Stmt.check ⟨.vars names ty, line⟩).run t).EntersVariables t names ty line := by
  obtain ⟨_ | ⟨s, outer⟩, k⟩ := t
  · cases ht
  have hrow : InTurn s (fun s' => ⟨s' :: outer, k⟩) (fun x => .ofBinding .plain x ty line) names
      ((Stmt.check ⟨.vars names ty, line⟩).run ⟨s :: outer, k⟩) := by
    rw [check_vars hn hty]
    exact declareEach_inTurn
  refine ⟨?_, fun h => ?_, fun f hf => ?_⟩
  · simpa [Entry.ofBinding, Table.Admits, Table.findInnermost?] using hrow.ok_iff
  · obtain ⟨s', hg, hu⟩ := hrow.gains h
    exact ⟨s, s', outer, rfl, hg, hu⟩
  · obtain ⟨before, x, after, s', hnames, hg, htaken, rfl, hu⟩ := hrow.refused f hf
    have hbefore : Table.Admits ⟨s :: outer, k⟩ before := by
      refine ⟨?_, fun y hy => hg.fresh _ (List.mem_map_of_mem hy)⟩
      simpa [Function.comp_def, Entry.ofBinding] using hg.distinct
    refine ⟨before, x, after, hnames, hbefore, ?_, rfl, s, s', outer, rfl, hg, hu⟩
    simpa [Entry.ofBinding, Table.findInnermost?] using htaken

/-! ## The library -/

theorem Builtin.names_nodup : (all.map Builtin.name).Nodup := by decide

theorem Builtin.register_eq {b : Builtin} (hb : b ∈ all) :
    register b.header = change (·.declareGlobal (.ofHeader b.header)) fun _ => [.registered b.header] := by
  have hnames : ∀ b ∈ all, b.name ≠ "" := by decide
  exact if_neg (hnames b hb)

theorem Table.function?_concat {t : Table} (h : t.FunctionsGlobal) {inner : List Scope} {g : Scope}
    (hs : t.scopes = inner ++ [g]) (x : String) : t.function? x = g.function? x := by
  rw [function?_eq_global h, findAt?, level?_zero, hs]
  simp [Scope.function?]

theorem Scope.Gains.function?_library {g g' : Scope}
    (h : g.Gains (Builtin.all.map fun b => .ofHeader b.header) g') (x : String) :
    g'.function? x = ((Builtin.find? x).map Builtin.header).or (g.function? x) := by
  have hfind : (Builtin.all.map fun b => Entry.ofHeader b.header).find? (fun e => e.name = x) =
      (Builtin.find? x).map fun b => .ofHeader b.header := by
    rw [List.find?_map]
    rfl
  unfold Scope.function?
  rw [h.lookup, hfind]
  cases hb : Builtin.find? x with
  | none => simp
  | some b =>
    -- the name was not there before, so nothing that was found is hidden
    have hname : b.name = x := by simpa using List.find?_some hb
    have hfree : g.find? x = none :=
      hname ▸ h.fresh (.ofHeader b.header) (List.mem_map_of_mem (List.mem_of_find?_eq_some hb))
    rw [hfree]
    rfl

theorem Builtin.registerAll_entersLibrary {t : Table} (h : t.Reachable) (ht : 0 < t.depth) :
    (registerAll.run t).EntersLibrary t := by
  have hfunctions := h.functionsGlobal
  have hfunctions' : (registerAll.run t).table.FunctionsGlobal :=
    (Table.Reachable.after .registerLibrary h).functionsGlobal
  obtain ⟨scopes, k⟩ := t
  rcases List.eq_nil_or_concat scopes with rfl | ⟨inner, g, hs⟩
  · cases ht
  rw [List.concat_eq_append] at hs
  subst hs
  have hrow : InTurn g (fun g' => ⟨inner ++ [g'], k⟩) (fun b : Builtin => .ofHeader b.header) all
      (registerAll.run ⟨inner ++ [g], k⟩) :=
    forM_change_inTurn (fun s e => Table.declareGlobal_concat rfl) fun b hb => ⟨_, register_eq hb⟩
  have hglobal : ∀ x, Table.findGlobal? ⟨inner ++ [g], k⟩ x = g.find? x := by simp [Table.findGlobal?]
  refine ⟨?_, fun hok => ?_, fun f hf => ?_, fun hok x => ?_⟩
  · rw [hrow.ok_iff, Table.Lacks]
    simp only [hglobal]
    exact and_iff_right names_nodup
  · obtain ⟨g', hg, hu⟩ := hrow.gains hok
    exact ⟨inner, g, g', rfl, hg, hu⟩
  · obtain ⟨before, b, after, g', hall, hg, htaken, rfl, hu⟩ := hrow.refused f hf
    have hbefore : Table.Lacks ⟨inner ++ [g], k⟩ before := by
      intro c hc
      rw [hglobal]
      exact hg.fresh _ (List.mem_map_of_mem hc)
    refine ⟨before, b, after, hall, hbefore, ?_, rfl, inner, g, g', rfl, hg, hu⟩
    rw [hglobal]
    -- the library has no name twice
    refine htaken.resolve_right ?_
    rintro ⟨c, hc, hname⟩
    exact ne_of_nodup_split (hall ▸ names_nodup) hc hname
  · obtain ⟨g', hg, hu⟩ := hrow.gains hok
    rw [Table.function?_concat hfunctions' (g := g') (congrArg Table.scopes hu),
      Table.function?_concat hfunctions rfl, hg.function?_library]

/-! ## All together -/

/-- Single declarations are refused without a trace. A row of variables and the library
are entered up to the first name that is taken, and the library is then what calls see. -/
theorem declarations_exact {t : Table} (h : t.Reachable) :
    (∀ role x ty line, (bindName role x ty line).Atomic) ∧ (∀ g, (register g).Atomic) ∧ closeScope.Atomic ∧
    (0 < t.depth → ∀ names ty line, names ≠ [] → ty.isReference = false →
      ((Stmt.check ⟨.vars names ty, line⟩).run t).EntersVariables t names ty line) ∧
    (0 < t.depth → (Builtin.registerAll.run t).EntersLibrary t) ∧
    (t.depth = 0 → Builtin.registerAll.run t = ⟨.error Table.noScope, t, []⟩) := by
  refine ⟨fun _ _ _ _ => bindName_atomic, fun _ => register_atomic, closeScope_atomic, ?_, ?_, fun ht => ?_⟩
  · intro ht names ty line hn hty
    exact Stmt.check_entersVariables ht hn hty
  · exact Builtin.registerAll_entersLibrary h
  · obtain ⟨scopes, k⟩ := t
    cases List.length_eq_zero_iff.mp ht
    rfl

/-- A global scope where a name of the library is taken. -/
def occupied : Table :=
  ((bindName .plain "extend" .byte 1).run .empty).table

theorem declarations_exact_occupied :
    (Builtin.registerAll.run occupied).result = .error ⟨.redeclaration "function" "extend", 0⟩ ∧
    (Builtin.registerAll.run occupied).EntersLibrary occupied ∧
    (let o := (Stmt.check ⟨.vars ["a", "b", "extend", "c"] .int, 2⟩).run occupied
     o.result = .error ⟨.redeclaration "variable" "extend", 2⟩ ∧
       o.EntersVariables occupied ["a", "b", "extend", "c"] .int 2) ∧
    (let o := (Stmt.check ⟨.vars ["a", "b", "a", "extend"] .int, 2⟩).run occupied
     o.result = .error ⟨.redeclaration "variable" "a", 2⟩ ∧
       o.EntersVariables occupied ["a", "b", "a", "extend"] .int 2) := by
  have hr : occupied.Reachable := .after (.bind .plain "extend" .byte 1) .empty
  have hpos : 0 < occupied.depth := by decide
  obtain ⟨-, -, -, hvars, hlibrary, -⟩ := declarations_exact hr
  exact ⟨rfl, hlibrary hpos, ⟨rfl, hvars hpos _ _ _ (by simp) rfl⟩, ⟨rfl, hvars hpos _ _ _ (by simp) rfl⟩⟩

end Dana
