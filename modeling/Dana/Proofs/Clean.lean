import Dana.Proofs.Node
import Dana.Proofs.Origin
import Dana.Proofs.Stop

/-!
# Clean declarations

References are meant for parameters, round the type that is passed. Where all
declarations of a program keep to this, so do the entries of the table, also after a
check that stops half-way (`Task.check_clean`). Then no reference is left in the
types of expressions, and the two sides of an assignment have one and the same
scalar type (`clean_discipline`).
-/

namespace Dana

/-- There is no reference in the type. -/
def Ty.plain : Ty → Bool
  | .scalar _ => true
  | .array elem _ => elem.plain
  | .reference _ => false

/-- Plain, or a reference to a plain type. -/
def Ty.passable : Ty → Bool
  | .reference base => base.plain
  | τ => τ.plain

def Header.clean (h : Header) : Bool :=
  h.resultType.plain && h.groups.all fun g => g.ty.passable

def Entry.clean (e : Entry) : Bool :=
  match e.meaning with
  | .binding ty .param => ty.passable
  | .binding ty _ => ty.plain
  | .function h => h.clean

def Table.Clean (t : Table) : Prop :=
  ∀ s ∈ t.scopes, ∀ e ∈ s.entries, e.clean = true

instance (t : Table) : Decidable t.Clean :=
  inferInstanceAs (Decidable (∀ s ∈ t.scopes, ∀ e ∈ s.entries, e.clean = true))

/-- What the node itself declares is clean. -/
def Node.clean : Node → Bool
  | .definition d => d.header.clean
  | .stmt ⟨.declare h, _⟩ => h.clean
  | .stmt ⟨.vars _ ty, _⟩ => ty.plain
  | _ => true

def Program.Clean (p : Program) : Prop :=
  ∀ n ∈ Stmt.nodesAll p, n.clean = true

instance (p : Program) : Decidable p.Clean :=
  inferInstanceAs (Decidable (∀ n ∈ Stmt.nodesAll p, n.clean = true))

/-! ## Types -/

namespace Ty

variable {τ σ : Ty}

theorem passable_eq (τ : Ty) : τ.passable = τ.deref.plain := by
  cases τ <;> rfl

theorem passable_of_plain (h : τ.plain = true) : τ.passable = true := by
  cases τ with
  | scalar s => rfl
  | array elem size => exact h
  | reference base => cases h

theorem passable_byReference (h : τ.passable = true) : τ.byReference.passable = true := by
  cases τ with
  | scalar s => rfl
  | array elem size => exact h
  | reference base => exact h

theorem plain_of_mem_layers (h : τ.plain = true) (hm : σ ∈ τ.layers) : σ.plain = true := by
  induction τ with
  | scalar s =>
    obtain rfl := List.mem_singleton.mp hm
    exact h
  | array elem size ih =>
    rcases List.mem_cons.mp hm with rfl | hm
    · exact h
    · exact ih h hm
  | reference base => cases h

theorem isReference_of_plain (h : τ.plain = true) : τ.isReference = false := by
  cases τ with
  | scalar s => rfl
  | array elem size => rfl
  | reference base => cases h

/-- The plain types that are no arrays are the scalars. -/
theorem scalar_of_plain (h : τ.plain = true) (ha : τ.isArray = false) : ∃ s, τ = .scalar s := by
  cases τ with
  | scalar s => exact ⟨s, rfl⟩
  | array elem size => cases ha
  | reference base => cases h

end Ty

/-! ## Declarations -/

section
variable {h : Header}

theorem Header.clean_iff :
    h.clean = true ↔ h.resultType.plain = true ∧ ∀ g ∈ h.groups, g.ty.passable = true := by
  simp [clean]

theorem Group.passable_boundType {g : Group} (hg : g.ty.passable = true) : g.boundType.passable = true := by
  unfold boundType
  by_cases hr : g.byRef = true
  · rw [if_pos hr]
    exact Ty.passable_byReference hg
  · rw [if_neg hr]
    exact hg

theorem Header.paramEntries_clean (hc : h.clean = true) : ∀ e ∈ h.paramEntries, e.clean = true := by
  intro e he
  unfold paramEntries parameters at he
  obtain ⟨⟨x, ty, line⟩, hx, rfl⟩ := List.mem_map.mp he
  obtain ⟨g, hg, hx⟩ := List.mem_flatMap.mp hx
  obtain ⟨y, -, hxy⟩ := List.mem_map.mp hx
  cases hxy
  exact Group.passable_boundType ((clean_iff.mp hc).2 g hg)

theorem Stmt.varEntries_clean {names : List String} {ty : Ty} {line : Line} (hty : ty.plain = true) :
    ∀ e ∈ Stmt.varEntries names ty line, e.clean = true := by
  intro e he
  obtain ⟨x, -, rfl⟩ := List.mem_map.mp he
  exact hty

/-- A parameter may be a reference, but no entry is one behind it. -/
theorem Entry.plain_type {e : Entry} (he : e.clean = true) : e.type.deref.plain = true := by
  obtain ⟨name, meaning, line⟩ := e
  rw [← Ty.passable_eq]
  cases meaning with
  | function g => exact Ty.passable_of_plain (Header.clean_iff.mp he).1
  | binding ty role =>
    cases role with
    | param => exact he
    | plain => exact Ty.passable_of_plain he
    | const => exact Ty.passable_of_plain he

end

/-! ## Tables -/

namespace Table

variable {t u : Table}

theorem Clean.openScope (h : t.Clean) : t.openScope.Clean := by
  intro s hs
  rcases List.mem_cons.mp hs with rfl | hs
  · intro e he
    cases he
  · exact h s hs

theorem Clean.closeScope (h : t.Clean) (hu : t.closeScope = .ok u) : u.Clean := by
  obtain ⟨s, hs, -⟩ := closeScope_ok.mp hu
  intro s' hm
  apply h
  rw [hs]
  exact List.mem_cons_of_mem _ hm

theorem Clean.declare {e : Entry} (h : t.Clean) (he : e.clean = true) (hu : t.declare e = .ok u) : u.Clean := by
  obtain ⟨s, outer, hs, -, rfl⟩ := declare_ok.mp hu
  unfold Clean at h ⊢
  rw [hs, List.forall_mem_cons] at h
  rw [List.forall_mem_cons]
  exact ⟨Scope.forall_mem_insert h.1 he, h.2⟩

theorem Clean.declareAll : ∀ {es : List Entry} {t : Table}, t.Clean → (∀ e ∈ es, e.clean = true) →
    t.declareAll es = .ok u → u.Clean
  | [], t, h, _, hu => by cases hu; exact h
  | e :: es, t, h, hes, hu => by
    obtain ⟨v, hv, hu⟩ := declareAll_cons.mp hu
    rw [List.forall_mem_cons] at hes
    exact (h.declare hes.1 hv).declareAll hes.2 hu

theorem Clean.register {g : Header} (h : t.Clean) (hg : g.clean = true)
    (hu : t.declareGlobal (.ofHeader g) = .ok u) : u.Clean := by
  have he : (Entry.ofHeader g).clean = true := hg
  obtain ⟨inner, s, hs, -, rfl⟩ := declareGlobal_ok.mp hu
  unfold Clean at h ⊢
  rw [hs, List.forall_mem_append, List.forall_mem_singleton] at h
  rw [List.forall_mem_append, List.forall_mem_singleton]
  exact ⟨h.1, Scope.forall_mem_insert h.2 he⟩

theorem Clean.knows {g : Header} (h : t.Clean) (hg : g.clean = true) (hk : t.Knows g u) : u.Clean := by
  cases hk with
  | before => exact h
  | now _ hd => exact h.register hg hd

theorem mem_of_find? {x : String} {e : Entry} (h : t.find? x = some e) : ∃ s ∈ t.scopes, e ∈ s.entries := by
  obtain ⟨s, hs, he⟩ := List.exists_of_findSome?_eq_some h
  exact ⟨s, hs, List.mem_of_find?_eq_some he⟩

theorem mem_of_function? {x : String} {g : Header} (h : t.function? x = some g) :
    ∃ s ∈ t.scopes, ∃ e ∈ s.entries, e.header? = some g := by
  obtain ⟨s, hs, hg⟩ := List.exists_of_findSome?_eq_some h
  obtain ⟨e, he, hg⟩ := Option.bind_eq_some_iff.mp hg
  exact ⟨s, hs, e, List.mem_of_find?_eq_some he, hg⟩

theorem Clean.function? {x : String} {g : Header} (h : t.Clean) (hg : t.function? x = some g) : g.clean = true := by
  obtain ⟨s, hs, ⟨name, meaning, line⟩, he, hm⟩ := mem_of_function? hg
  have hclean := h s hs _ he
  cases meaning with
  | binding ty role => cases hm
  | function g' =>
    cases hm
    exact hclean

/-- All routes by which a type gets into an expression lead to plain types. -/
theorem Clean.offers {τ : Ty} (h : t.Clean) (ho : t.env.Offers τ) : τ.plain = true := by
  cases ho with
  | int | byte | bool | string => rfl
  | name hn =>
    obtain ⟨x, ty, -, hty, hτ⟩ := hn
    obtain ⟨e, he, rfl⟩ := Option.map_eq_some_iff.mp hty
    obtain ⟨s, hs, he⟩ := mem_of_find? he
    exact Ty.plain_of_mem_layers (Entry.plain_type (h s hs e he)) hτ
  | result _ hg => exact (Header.clean_iff.mp (h.function? hg)).1

end Table

/-! ## Checks -/

section
variable {t u : Table} {w : Task}

theorem Passes.clean (h : Passes t w u) (hw : ∀ n ∈ w.nodes, n.clean = true) (ht : t.Clean) : u.Clean := by
  induction h with
  | assign | skip | exit | ret | brk | cont | proc | nil | noBranch => exact ht
  | cond _ _ hv ih =>
    obtain ⟨-, hb⟩ := List.forall_mem_cons.mp hw
    exact (ih hb ht.openScope).closeScope hv
  | @loop t u v label body line _ hv ih =>
    obtain ⟨-, hb⟩ := List.forall_mem_cons.mp hw
    have hopen : t.openLoop.Clean := ht
    have hv : v.Clean := (ih hb hopen.openScope).closeScope hv
    exact hv
  | define _ ih =>
    obtain ⟨-, hd⟩ := List.forall_mem_cons.mp hw
    exact ih hd ht
  | declare _ _ hd =>
    obtain ⟨hh, -⟩ := List.forall_mem_cons.mp hw
    exact ht.register hh hd
  | vars _ _ hd =>
    obtain ⟨hty, -⟩ := List.forall_mem_cons.mp hw
    exact ht.declareAll (Stmt.varEntries_clean hty) hd
  | cons _ _ ih ihs | consBranch _ _ ih ihs =>
    obtain ⟨h, hs⟩ := List.forall_mem_append.mp hw
    exact ihs hs (ih h ht)
  | branch _ _ hv ih =>
    obtain ⟨-, h⟩ := List.forall_mem_cons.mp hw
    obtain ⟨-, hb⟩ := List.forall_mem_append.mp h
    exact (ih hb ht.openScope).closeScope hv
  | definition _ hk hp _ hx ih =>
    obtain ⟨hh, hb⟩ := List.forall_mem_cons.mp hw
    have hparams := (ht.knows hh hk).openScope.declareAll (Header.paramEntries_clean hh) hp
    exact (ih hb hparams).closeScope hx

theorem Stops.clean {path : List Opening} {f : Fault} (h : Stops t w path f u)
    (hw : ∀ n ∈ w.nodes, n.clean = true) (ht : t.Clean) : u.Clean := by
  induction h with
  | assign | ret | brk | cont | emptyCond | declared | unnamedHeader | declare | emptyVars | condition | unnamed
  | register => exact ht
  | proc => exact ht.openScope
  | cond _ _ ih =>
    obtain ⟨-, hb⟩ := List.forall_mem_cons.mp hw
    exact ih hb ht.openScope
  | @loop t u label body line path f _ ih =>
    obtain ⟨-, hb⟩ := List.forall_mem_cons.mp hw
    have hopen : t.openLoop.Clean := ht
    exact ih hb hopen.openScope
  | define _ ih =>
    obtain ⟨-, hd⟩ := List.forall_mem_cons.mp hw
    exact ih hd ht
  | @vars t u names ty line es e es' f _ _ hes hd _ =>
    obtain ⟨hty, -⟩ := List.forall_mem_cons.mp hw
    have hvars : ∀ e ∈ Stmt.varEntries names ty line, e.clean = true := Stmt.varEntries_clean hty
    rw [hes] at hvars
    exact ht.declareAll (fun e he => hvars e (List.mem_append_left _ he)) hd
  | head _ ih | headBranch _ ih =>
    obtain ⟨h, -⟩ := List.forall_mem_append.mp hw
    exact ih h ht
  | tail hp _ ih | tailBranch hp _ ih =>
    obtain ⟨h, hs⟩ := List.forall_mem_append.mp hw
    exact ih hs (hp.clean h ht)
  | branch _ _ ih =>
    obtain ⟨-, h⟩ := List.forall_mem_cons.mp hw
    obtain ⟨-, hb⟩ := List.forall_mem_append.mp h
    exact ih hb ht.openScope
  | params _ hk hes hd _ =>
    -- the parameters before the one that is refused are bound already
    obtain ⟨hh, -⟩ := List.forall_mem_cons.mp hw
    have hparams := Header.paramEntries_clean hh
    rw [hes] at hparams
    exact (ht.knows hh hk).openScope.declareAll (fun e he => hparams e (List.mem_append_left _ he)) hd
  | definition _ hk hp _ ih =>
    obtain ⟨hh, hb⟩ := List.forall_mem_cons.mp hw
    exact ih hb ((ht.knows hh hk).openScope.declareAll (Header.paramEntries_clean hh) hp)

theorem Task.check_clean (hw : ∀ n ∈ w.nodes, n.clean = true) (ht : t.Clean) : (w.check.run t).table.Clean := by
  cases hr : (w.check.run t).result with
  | ok _ => exact (passes_of_yields ⟨hr, rfl⟩).clean hw ht
  | error f =>
    obtain ⟨path, hs⟩ := stops_of_faults ⟨hr, rfl⟩
    exact hs.clean hw ht

end

/-! ## Main result -/

/-- **Clean declarations leave no references.** Checking a clean program keeps the table
clean, whether it passes or not, and the table of the library is clean. In a clean
table all types that are inferred are plain, and an assignment that passes has the
same scalar type on both sides. -/
theorem clean_discipline {t : Table} (ht : t.Clean) :
    (∀ p : Program, p.Clean → ((Stmt.checkAll p).run t).table.Clean) ∧ Table.standard.Clean ∧
    (∀ (e : Expr) τ, (e.check.run t).result = .ok τ → τ.plain = true) ∧
    (∀ (p : Place) τ, (p.check.run t).result = .ok τ → τ.plain = true) ∧
    ∀ target value line, ((Stmt.assign target value line).check.run t).result = .ok () →
      ∃ s, (target.check.run t).result = .ok (.scalar s) ∧ (value.check.run t).result = .ok (.scalar s) := by
  refine ⟨fun p hp => Task.check_clean (w := .block p) hp ht, by decide, ?_, ?_, ?_⟩
  · intro e τ he
    exact ht.offers (Expr.infer_offers he)
  · intro p τ hp
    exact ht.offers (Place.infer_offers hp)
  · intro target value line h
    obtain ⟨τ, σ, hτ, hσ, hτa, hσa, hk⟩ := Place.inferAssign_eq_ok.mp h
    obtain ⟨s, rfl⟩ := Ty.scalar_of_plain (ht.offers (Place.infer_offers hτ)) hτa
    obtain ⟨s', rfl⟩ := Ty.scalar_of_plain (ht.offers (Expr.infer_offers hσ)) hσa
    cases hk
    exact ⟨s, hτ, hσ⟩

/-- The check stops in the function, where two parameters are references. -/
def halting : Program :=
  [.define (.make "f" (some .byte) [.ofNames ["a"] .int true, .ofNames ["s"] .string true] 1)
    [.vars ["x"] (.array .int (some 4)) 2, ⟨.brk none, 3⟩]]

def halted : Table :=
  (halting.check.run .standard).table

theorem halted_clean : halted.Clean := by
  decide

-- Stops at the last parameter, when the first two are bound.
def doubled : Program :=
  [.define (.make "g" none [.ofNames ["a", "b"] (.reference .bool) true, .ofNames ["a"] .int false] 5) []]

theorem clean_discipline_halted :
    halted.Clean ∧ doubled.Clean ∧
    ((Stmt.checkAll doubled).run halted).result = .error ⟨.redeclaration "parameter" "a", 5⟩ ∧
    ((Stmt.checkAll doubled).run halted).table.Clean ∧
    ((Stmt.assign (.var "a" 6) (.place (.indexed "x" [.const 0 6] 6)) 6).check.run halted).result = .ok () ∧
    ∃ s, ((Place.var "a" 6).check.run halted).result = .ok (.scalar s) ∧
      ((Expr.place (.indexed "x" [.const 0 6] 6)).check.run halted).result = .ok (.scalar s) := by
  obtain ⟨hprograms, -, -, -, hassign⟩ := clean_discipline halted_clean
  have hdoubled : doubled.Clean := by decide
  exact ⟨halted_clean, hdoubled, rfl, hprograms doubled hdoubled, rfl, hassign _ _ 6 rfl⟩

end Dana
