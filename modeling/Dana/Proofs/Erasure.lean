import Dana.Proofs.Simulation

/-!
# What checking does not look at

Lines, the values of literals, the texts of strings, labels and the sizes of arrays do
not matter to a check: to erase them all and then check is to check and then erase
(`checkAll_erase`). Lines and types do get into faults and into the table, but nothing
is decided by them.
-/

namespace Dana

/-! ## Erasing -/

def Ty.erase : Ty → Ty :=
  Ty.resize fun _ => none

def Group.erase (g : Group) : Group :=
  { g with ty := g.ty.erase, line := 0 }

def Header.erase (h : Header) : Header where
  ident := ⟨h.name, 0⟩
  result := h.result.map Ty.erase
  groups := h.groups.map Group.erase
  line := 0

def erasing : Rewriting where
  line _ := 0
  const _ := 0
  hex _ := 0
  bool _ := false
  text _ := ""
  label _ := none
  size _ := none
  header := Header.erase

def Program.erase (p : Program) : Program :=
  Stmt.rewriteAll erasing p

def Meaning.erase : Meaning → Meaning
  | .binding ty role => .binding ty.erase role
  | .function h => .function h.erase

def Entry.erase (e : Entry) : Entry where
  name := e.name
  meaning := e.meaning.erase
  line := 0

def Table.erase : Table → Table :=
  Table.mapEntries Entry.erase

def Fault.erase (f : Fault) : Fault where
  cause := f.cause.mapTypes Ty.erase
  line := 0

/-- A record of a label has nothing left in it. -/
def Event.erase? : Event → Option Event
  | .labelledLoop _ _ => none
  | .registered h => some (.registered h.erase)
  | .checkingFunction h => some (.checkingFunction h.erase)
  | e => some e

def Outcome.erase {α : Type} (o : Outcome α) : Outcome α where
  result := o.result.mapError Fault.erase
  table := o.table.erase
  journal := o.journal.filterMap Event.erase?

/-! ## Headers -/

theorem Group.boundType_erase (g : Group) : g.erase.boundType = g.boundType.erase := by
  have href : ∀ τ : Ty, τ.erase.byReference = τ.byReference.erase := by
    intro τ
    cases τ <;> rfl
  obtain ⟨names, ty, byRef, line⟩ := g
  cases byRef with
  | true => exact href ty
  | false => rfl

theorem Header.groups_erase (h : Header) : List.Forall₂ (fun g g' => g' = g.erase) h.groups h.erase.groups := by
  unfold erase
  rw [List.forall₂_map_right_iff, List.forall₂_same]
  exact fun _ _ => rfl

theorem Header.resultType_erase (h : Header) : h.erase.resultType = h.resultType.erase := by
  unfold resultType erase
  cases h.result <;> rfl

/-! ## Entries -/

namespace Entry

variable (e : Entry)

theorem noun_erase : e.erase.noun = e.noun := by
  unfold noun erase
  cases e.meaning with
  | binding ty role => cases role <;> rfl
  | function h => rfl

theorem type_erase : e.erase.type = e.type.erase := by
  unfold type erase
  cases e.meaning with
  | binding ty role => rfl
  | function h => exact h.resultType_erase

theorem header?_erase : e.erase.header? = e.header?.map Header.erase := by
  unfold header? erase
  cases e.meaning <;> rfl

end Entry

/-! ## Main result -/

def erasure : Simulation erasing where
  fault f f' := f.erase = f'
  header h h' := h.erase = h'
  entry e e' := e.erase = e'
  journal j j' := j.filterMap Event.erase? = j'
  size_none := rfl
  line_zero := rfl
  fault_rewrite _ := rfl
  formals {h h'} hh := by
    subst hh
    refine Header.formals_forall₂ h.groups_erase fun g g' hg => ?_
    subst hg
    rw [g.boundType_erase]
    exact ⟨rfl, fun x => ⟨rfl, Ty.kind_resize _ _, fun function got line => rfl⟩⟩
  resultType {h h'} hh := by
    subst hh
    exact h.resultType_erase
  name he := by rw [← he]; rfl
  line he := by rw [← he]; rfl
  noun {e e'} he := by
    subst he
    exact e.noun_erase
  deref {e e'} he := by
    subst he
    rw [e.type_erase]
    exact Ty.deref_resize _ _
  header? {e e'} he := by
    subst he
    rw [e.header?_erase]
    cases e.header? with
    | none => exact .none
    | some h => exact .some rfl
  ofVariable _ _ _ := rfl
  ofHeader _ := rfl
  paramEntries h := by
    refine Header.paramEntries_forall₂ h.groups_erase fun g g' hg => ?_
    subst hg
    rw [g.boundType_erase]
    exact ⟨rfl, fun x => rfl⟩
  journal_nil := rfl
  journal_append hi hj := by rw [← hi, ← hj, List.filterMap_append]
  depths _ := ⟨rfl, rfl, rfl, rfl⟩
  registered _ := rfl
  checkingFunction _ := rfl
  label line l := by
    cases l <;> rfl

theorem Table.paired_erase {t t' : Table} : t.Paired erasure.entry t' ↔ t.erase = t' := by
  have h : t.Paired (fun e e' => e.erase = id e') t' ↔ t.erase = t'.mapEntries id := Table.paired_iff
  rwa [mapEntries_id] at h

/-- **Erasing commutes with checking.** Erase in a program and in a table all lines, the
values of literals, the texts of strings, the labels and the sizes of arrays. The check
then gives the result, the table and the journal it gives without, erased. -/
theorem checkAll_erase (p : Program) (t : Table) :
    (Stmt.checkAll p.erase).run t.erase = ((Stmt.checkAll p).run t).erase := by
  have hpaired : t.Paired erasure.entry t.erase := Table.paired_erase.mpr rfl
  have h := erasure.runs_check (.block p) hpaired
  have hid : ∀ x : Except Fault Unit, x.mapError id = x := by
    intro x
    cases x <;> rfl
  have hresult := h.result.mapError_eq (f := Fault.erase) (g := id)
  have htable := Table.paired_erase.mp (h.table fun _ _ ht => ht)
  rw [hid] at hresult
  unfold Outcome.erase
  rw [eq_comm, Outcome.mk.injEq]
  exact ⟨hresult, htable, h.journal⟩

end Dana
