import Dana.Proofs.Simulation

/-!
# How parameters are passed

A check does not look at whether parameters are passed by reference. The flag wraps the
type of a parameter in a reference. A use of the parameter takes the reference off again,
and an argument agrees with the type with and without it. So two programs that differ in
the flags alone are checked alike (`checkAll_unflagged`).
-/

namespace Dana

/-! ## Without the flags -/

def Group.unflagged (g : Group) : Group :=
  { g with byRef := false }

def Header.unflagged (h : Header) : Header :=
  { h with groups := h.groups.map Group.unflagged }

def unflagging : Rewriting where
  header := Header.unflagged

/-- The program with no parameter passed by reference. -/
def Program.unflagged (p : Program) : Program :=
  Stmt.rewriteAll unflagging p

def Meaning.unflagged : Meaning → Meaning
  | .binding ty .param => .binding ty.deref .param
  | .binding ty role => .binding ty role
  | .function h => .function h.unflagged

def Entry.unflagged (e : Entry) : Entry :=
  { e with meaning := e.meaning.unflagged }

def Table.unflagged : Table → Table :=
  Table.mapEntries Entry.unflagged

/-- The type of a parameter is reported only with an argument that does not fit it. -/
def Cause.unflagged : Cause → Cause
  | .argumentType function param expected got => .argumentType function param expected.deref got
  | c => c

def Fault.unflagged (f : Fault) : Fault :=
  { f with cause := f.cause.unflagged }

def Event.unflagged : Event → Event
  | .registered h => .registered h.unflagged
  | .checkingFunction h => .checkingFunction h.unflagged
  | e => e

def Outcome.unflagged {α : Type} (o : Outcome α) : Outcome α where
  result := o.result.mapError Fault.unflagged
  table := o.table.unflagged
  journal := o.journal.map Event.unflagged

theorem Ty.deref_eq_deref_iff {τ σ : Ty} : τ.deref = σ.deref ↔
    τ = σ ∨ (τ = .reference σ ∧ ¬σ.isReference) ∨ (σ = .reference τ ∧ ¬τ.isReference) := by
  cases τ <;> cases σ <;> simp [deref, isReference, eq_comm]

theorem Cause.unflagged_eq_self {c : Cause} (h : ∀ function param τ got, c ≠ .argumentType function param τ got) :
    c.unflagged = c := by
  unfold unflagged
  split
  · exact absurd rfl (h _ _ _ _)
  · rfl

theorem Cause.unflagged_eq_argumentType {c : Cause} {function param : String} {τ got : Ty}
    (h : c.unflagged = .argumentType function param τ got) :
    ∃ σ, σ.deref = τ ∧ c = .argumentType function param σ got := by
  by_cases harg : ∀ function param τ got, c ≠ .argumentType function param τ got
  · rw [unflagged_eq_self harg] at h
    exact absurd h (harg _ _ _ _)
  · simp only [ne_eq, not_forall, not_not] at harg
    obtain ⟨function, param, σ, got, rfl⟩ := harg
    cases h
    exact ⟨σ, rfl, rfl⟩

theorem Fault.eq_or_of_unflagged {f f' : Fault} (h : f.unflagged = f'.unflagged) :
    f = f' ∨ ∃ function param τ σ got line, (τ = .reference σ ∨ σ = .reference τ) ∧
      f = ⟨.argumentType function param τ got, line⟩ ∧ f' = ⟨.argumentType function param σ got, line⟩ := by
  obtain ⟨c, line⟩ := f
  obtain ⟨c', line'⟩ := f'
  obtain ⟨hc, hline⟩ : c.unflagged = c'.unflagged ∧ line = line' := by simpa [unflagged] using h
  subst hline
  by_cases harg : ∀ function param τ got, c ≠ .argumentType function param τ got
  · have harg' : ∀ function param τ got, c' ≠ .argumentType function param τ got := by
      intro function param τ got hc'
      rw [hc'] at hc
      obtain ⟨σ, -, hσ⟩ := Cause.unflagged_eq_argumentType hc
      exact harg _ _ _ _ hσ
    rw [Cause.unflagged_eq_self harg, Cause.unflagged_eq_self harg'] at hc
    exact .inl (by rw [hc])
  · simp only [ne_eq, not_forall, not_not] at harg
    obtain ⟨function, param, τ, got, rfl⟩ := harg
    obtain ⟨σ, hσ, rfl⟩ := Cause.unflagged_eq_argumentType hc.symm
    obtain rfl | ⟨hσ, -⟩ | ⟨hτ, -⟩ := Ty.deref_eq_deref_iff.mp hσ
    · exact .inl rfl
    · exact .inr ⟨function, param, τ, σ, got, line, .inr hσ, rfl, rfl⟩
    · exact .inr ⟨function, param, τ, σ, got, line, .inl hτ, rfl, rfl⟩

/-! ## Headers -/

theorem Header.unflagged_unflagged (h : Header) : h.unflagged.unflagged = h.unflagged := by
  unfold unflagged
  rw [List.map_map]
  rfl

theorem Header.groups_unflagged {h h' : Header} (hh : h.unflagged = h'.unflagged) :
    List.Forall₂ (fun g g' => g.unflagged = g'.unflagged) h.groups h'.groups := by
  have hgroups : h.groups.map Group.unflagged = h'.groups.map Group.unflagged := congrArg Header.groups hh
  rwa [← List.forall₂_eq_eq_eq, List.forall₂_map_left_iff, List.forall₂_map_right_iff] at hgroups

theorem Group.unflagged_eq_iff {g g' : Group} :
    g.unflagged = g'.unflagged ↔ g.names = g'.names ∧ g.ty = g'.ty ∧ g.line = g'.line := by
  simp [unflagged]

theorem Group.deref_boundType {g g' : Group} (hg : g.unflagged = g'.unflagged) :
    g.boundType.deref = g'.boundType.deref := by
  have hty : ∀ g : Group, g.boundType.deref = g.ty.deref := by
    intro g
    unfold boundType
    cases g.byRef with
    | true => cases g.ty <;> rfl
    | false => rfl
  rw [hty, hty, (unflagged_eq_iff.mp hg).2.1]

theorem Ty.kind_deref (τ : Ty) : τ.deref.kind = τ.kind := by
  cases τ <;> rfl

/-! ## Entries -/

namespace Entry

theorem noun_unflagged (e : Entry) : e.unflagged.noun = e.noun := by
  unfold noun unflagged
  cases e.meaning with
  | binding ty role => cases role <;> rfl
  | function h => rfl

theorem header?_unflagged (e : Entry) : e.unflagged.header? = e.header?.map Header.unflagged := by
  unfold header? unflagged
  cases e.meaning with
  | binding ty role => cases role <;> rfl
  | function h => rfl

theorem deref_type {e e' : Entry} (he : e.unflagged = e'.unflagged) : e.type.deref = e'.type.deref := by
  have hmeaning : e.meaning.unflagged = e'.meaning.unflagged := congrArg Entry.meaning he
  unfold type
  generalize e.meaning = m, e'.meaning = m' at hmeaning ⊢
  cases m with
  | binding ty role =>
    cases m' with
    | binding ty' role' => cases role <;> cases role' <;> simp_all [Meaning.unflagged]
    | function h' => cases role <;> simp [Meaning.unflagged] at hmeaning
  | function h =>
    cases m' with
    | binding ty' role' => cases role' <;> simp [Meaning.unflagged] at hmeaning
    | function h' =>
      have hh : h.unflagged = h'.unflagged := by simpa [Meaning.unflagged] using hmeaning
      exact congrArg (fun h => h.resultType.deref) hh

end Entry

/-! ## Main result -/

def passing : Simulation unflagging where
  fault f f' := f.unflagged = f'.unflagged
  header h h' := h.unflagged = h'.unflagged
  entry e e' := e.unflagged = e'.unflagged
  journal j j' := j.map Event.unflagged = j'.map Event.unflagged
  size_none := rfl
  line_zero := rfl
  fault_rewrite f := by rw [f.rewrite_eq_self rfl rfl]
  formals {h h'} hh := by
    refine Header.formals_forall₂ (Header.groups_unflagged hh) fun g g' hg => ?_
    have hty := Group.deref_boundType hg
    obtain ⟨hnames, -, -⟩ := Group.unflagged_eq_iff.mp hg
    refine ⟨hnames.symm, fun x => ⟨rfl, ?_, fun function got line => ?_⟩⟩
    · rw [← Ty.kind_deref, ← hty, Ty.kind_deref]
    · simp [Fault.unflagged, Cause.unflagged, unflagging, hty]
  resultType {h h'} hh := by
    have hresult : h'.resultType = h.resultType := (congrArg Header.resultType hh.symm :)
    simp [unflagging, hresult]
  name he := (congrArg Entry.name he.symm :)
  line he := (congrArg Entry.line he.symm :)
  noun {e e'} he := by rw [← e'.noun_unflagged, ← he, e.noun_unflagged]
  deref {e e'} he := by simp [unflagging, Entry.deref_type he]
  header? {e e'} he := by
    have hheader : e.header?.map Header.unflagged = e'.header?.map Header.unflagged := by
      rw [← e.header?_unflagged, he, e'.header?_unflagged]
    generalize e.header? = o, e'.header? = o' at hheader ⊢
    cases o <;> cases o' <;> simp_all
  ofVariable _ _ _ := by simp [unflagging]
  ofHeader h := by
    have hmeaning : Meaning.function h.unflagged = .function h.unflagged.unflagged := by rw [h.unflagged_unflagged]
    exact congrArg (Entry.mk h.name · h.line) hmeaning
  paramEntries h := by
    refine Header.paramEntries_forall₂ (Header.groups_unflagged h.unflagged_unflagged.symm) fun g g' hg => ?_
    obtain ⟨hnames, -, hline⟩ := Group.unflagged_eq_iff.mp hg
    refine ⟨hnames.symm, fun x => ?_⟩
    simp [Entry.ofBinding, Entry.unflagged, Meaning.unflagged, Group.deref_boundType hg, Header.groupLine, hline,
      unflagging, Header.unflagged]
  journal_nil := rfl
  journal_append hi hj := by rw [List.map_append, List.map_append, hi, hj]
  depths _ := ⟨rfl, rfl, rfl, rfl⟩
  registered h := by simp [Event.unflagged, unflagging, h.unflagged_unflagged]
  checkingFunction h := by simp [Event.unflagged, unflagging, h.unflagged_unflagged]
  label _ _ := rfl

theorem Program.run_unflagged (p : Program) (t : Table) :
    ((Stmt.checkAll p).run t).unflagged = ((Stmt.checkAll p.unflagged).run t).unflagged := by
  have hpaired : ∀ {t t' : Table}, t.Paired passing.entry t' ↔ t.unflagged = t'.unflagged := Table.paired_iff
  have h := passing.runs_check (.block p) (hpaired.mpr (Eq.refl t.unflagged))
  have htable := hpaired.mp (h.table fun _ _ ht => ht)
  unfold Outcome.unflagged
  rw [Outcome.mk.injEq]
  exact ⟨h.result.mapError_eq, htable, h.journal⟩

/-- **Passing does not matter.** Take two programs that differ only in which groups of
parameters are passed by reference. Checking them gives the same result, the same table
and the same journal, up to the flags of the headers and the outermost reference of the
types of parameters. A fault is the same, but for that reference in the type that is
expected of an argument. -/
theorem checkAll_unflagged {p p' : Program} (h : p.unflagged = p'.unflagged) (t : Table) :
    ((Stmt.checkAll p).run t).unflagged = ((Stmt.checkAll p').run t).unflagged ∧
    ∀ f, ((Stmt.checkAll p).run t).result = .error f → ∃ f', ((Stmt.checkAll p').run t).result = .error f' ∧
      (f = f' ∨ ∃ function param τ σ got line, (τ = .reference σ ∨ σ = .reference τ) ∧
        f = ⟨.argumentType function param τ got, line⟩ ∧ f' = ⟨.argumentType function param σ got, line⟩) := by
  have hrun : ((Stmt.checkAll p).run t).unflagged = ((Stmt.checkAll p').run t).unflagged := by
    rw [p.run_unflagged, p'.run_unflagged, h]
  refine ⟨hrun, fun f hf => ?_⟩
  have hresult : ((Stmt.checkAll p).run t).result.mapError Fault.unflagged =
      ((Stmt.checkAll p').run t).result.mapError Fault.unflagged := congrArg Outcome.result hrun
  rw [hf] at hresult
  cases hf' : ((Stmt.checkAll p').run t).result with
  | ok u =>
    rw [hf'] at hresult
    cases hresult
  | error f' =>
    rw [hf'] at hresult
    exact ⟨f', rfl, Fault.eq_or_of_unflagged (Except.error.inj hresult)⟩

/-- An array is handed on where an integer is expected, with the parameters of `g` in scope. -/
def handing (byRef : Bool) : Program :=
  [.declare (.make "f" none [.ofNames ["x"] .int byRef] 1),
    .define (.make "g" none [.ofNames ["y"] (.array .byte none) byRef, .ofNames ["z"] (.reference .int) byRef] 2)
      [.proc "f" [.var "z" 3] 3, .proc "f" [.var "y" 4] 4]]

theorem checkAll_unflagged_handing :
    (handing true).unflagged = (handing false).unflagged ∧
    ((Stmt.checkAll (handing true)).run .empty).result =
      .error ⟨.argumentType "f" "x" (.reference .int) (.array .byte none), 4⟩ ∧
    ((Stmt.checkAll (handing false)).run .empty).result =
      .error ⟨.argumentType "f" "x" .int (.array .byte none), 4⟩ ∧
    ((Stmt.checkAll (handing true)).run .empty).table ≠ ((Stmt.checkAll (handing false)).run .empty).table ∧
    ((Stmt.checkAll (handing true)).run .empty).unflagged = ((Stmt.checkAll (handing false)).run .empty).unflagged := by
  have h : (handing true).unflagged = (handing false).unflagged := rfl
  exact ⟨h, by rfl, by rfl, by decide, (checkAll_unflagged h .empty).1⟩

end Dana
