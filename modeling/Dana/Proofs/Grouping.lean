import Dana.Proofs.Simulation

/-!
# Groups of parameters

A header gives its parameters in groups. What is called, bound and written are the
parameters one by one, in the order of the groups, so it does not matter how they are
grouped: a program with a group for each parameter is checked as the program itself
(`checkAll_split`).
-/

namespace Dana

/-! ## One group for each parameter -/

/-- A group without names has no parts. -/
def Group.split (g : Group) : List Group :=
  g.names.map fun x => { g with names := [x] }

def Header.split (h : Header) : Header :=
  { h with groups := h.groups.flatMap Group.split }

def splitting : Rewriting where
  header := Header.split

/-- The program with the groups of all its headers split. -/
def Program.split (p : Program) : Program :=
  Stmt.rewriteAll splitting p

def Meaning.split : Meaning → Meaning
  | .binding ty role => .binding ty role
  | .function h => .function h.split

def Entry.split (e : Entry) : Entry :=
  { e with meaning := e.meaning.split }

/-! ## Headers -/

/-- What is read off the parameters one by one is the same after a split, if it depends on
a group by what the parts have in common. -/
theorem flatMap_split {α : Type} {f : Group → String → α} (hf : ∀ g names, f { g with names } = f g)
    (gs : List Group) :
    (gs.flatMap Group.split).flatMap (fun g => g.names.map (f g)) = gs.flatMap fun g => g.names.map (f g) := by
  have hgroup : ∀ g : Group, g.split.flatMap (fun g => g.names.map (f g)) = g.names.map (f g) := by
    intro g
    unfold Group.split
    rw [List.flatMap_map, List.map_eq_flatMap]
    simp only [List.map_cons, List.map_nil, hf]
  rw [List.flatMap_assoc]
  simp only [hgroup]

namespace Header

variable (h : Header)

theorem formals_split : h.split.formals = h.formals :=
  flatMap_split (f := fun g x => (x, g.boundType)) (fun _ _ => rfl) h.groups

theorem parameters_split : h.split.parameters = h.parameters :=
  flatMap_split (f := fun g x => (x, g.boundType, h.groupLine g)) (fun _ _ => rfl) h.groups

theorem split_split : h.split.split = h.split := by
  have hgroups : (h.groups.flatMap Group.split).flatMap Group.split = h.groups.flatMap Group.split :=
    flatMap_split (f := fun g x => ({ g with names := [x] } : Group)) (fun _ _ => rfl) h.groups
  unfold split
  rw [hgroups]

theorem paramEntries_split : h.split.paramEntries = h.paramEntries := by
  unfold paramEntries
  rw [h.parameters_split]

theorem text_split : h.split.text = h.text := by
  unfold text
  rw [h.formals_split]
  rfl

end Header

/-! ## Entries and records -/

theorem Event.text_registered_split (h : Header) : (registered h.split).text = (registered h).text := by
  have hlevel : (registered h.split).level = (registered h).level := rfl
  have hmessage : (registered h.split).message = (registered h).message :=
    congrArg ("registered function " ++ ·) h.text_split
  unfold text
  rw [hlevel, hmessage]

theorem Event.text_checkingFunction_split (h : Header) :
    (checkingFunction h.split).text = (checkingFunction h).text := by
  have hlevel : (checkingFunction h.split).level = (checkingFunction h).level := rfl
  have hmessage : (checkingFunction h.split).message = (checkingFunction h).message :=
    congrArg ("checking function " ++ ·) h.text_split
  unfold text
  rw [hlevel, hmessage]

namespace Entry

variable (e : Entry)

theorem noun_split : e.split.noun = e.noun := by
  unfold noun split
  cases e.meaning with
  | binding ty role => cases role <;> rfl
  | function h => rfl

theorem type_split : e.split.type = e.type := by
  unfold type split
  cases e.meaning <;> rfl

theorem header?_split : e.split.header? = e.header?.map Header.split := by
  unfold header? split
  cases e.meaning <;> rfl

theorem text_split : e.split.text = e.text := by
  unfold text split
  cases e.meaning with
  | binding ty role => cases role <;> rfl
  | function h => simp only [Meaning.split, h.text_split]

end Entry

/-! ## Main result -/

theorem map_eq_of_rel {α β : Type} {f : α → β} {o o' : Option α} (h : Option.Rel (fun a b => f a = f b) o o') :
    o'.map f = o.map f := by
  cases h with
  | none => rfl
  | some hab => exact congrArg some hab.symm

def regrouping : Simulation splitting where
  fault f f' := f = f'
  header h h' := h.split = h'.split
  entry e e' := e.split = e'.split
  journal j j' := j.map Event.text = j'.map Event.text
  size_none := rfl
  line_zero := rfl
  fault_rewrite f := (f.rewrite_eq_self rfl rfl).symm
  formals {h h'} hh := by
    have hformals : h'.formals = h.formals := by rw [← h'.formals_split, ← hh, h.formals_split]
    rw [hformals, List.forall₂_same]
    exact fun p _ => ⟨rfl, rfl, fun function got line => by simp [splitting]⟩
  resultType {h h'} hh := by
    have hresult : h'.resultType = h.resultType := (congrArg Header.resultType hh.symm :)
    simp [splitting, hresult]
  name he := (congrArg Entry.name he.symm :)
  line he := (congrArg Entry.line he.symm :)
  noun {e e'} he := by rw [← e'.noun_split, ← he, e.noun_split]
  deref {e e'} he := by
    have htype : e'.type = e.type := by rw [← e'.type_split, ← he, e.type_split]
    simp [splitting, htype]
  header? {e e'} he := by
    have hheader : e.header?.map Header.split = e'.header?.map Header.split := by
      rw [← e.header?_split, he, e'.header?_split]
    generalize e.header? = o, e'.header? = o' at hheader ⊢
    cases o <;> cases o' <;> simp_all
  ofVariable _ _ _ := by simp [splitting]
  ofHeader h := by
    have hmeaning : Meaning.function h.split = .function h.split.split := by rw [h.split_split]
    exact congrArg (Entry.mk h.name · h.line) hmeaning
  paramEntries h := by
    have hentries : (splitting.header h).paramEntries = h.paramEntries := h.paramEntries_split
    rw [hentries, List.forall₂_same]
    exact fun _ _ => rfl
  journal_nil := rfl
  journal_append hi hj := by rw [List.map_append, List.map_append, hi, hj]
  depths _ := ⟨rfl, rfl, rfl, rfl⟩
  registered h := congrArg (fun s => [s]) (Event.text_registered_split h).symm
  checkingFunction h := congrArg (fun s => [s]) (Event.text_checkingFunction_split h).symm
  label _ _ := rfl

/-- **Grouping does not matter.** Split the groups of parameters in all headers of a
program into groups of one name each. The check gives the same result and writes the same
records. It leaves a table with the same text, in which each name stands for the same, up
to the groups of headers. -/
theorem checkAll_split (p : Program) (t : Table) :
    ((Stmt.checkAll p.split).run t).result = ((Stmt.checkAll p).run t).result ∧
    ((Stmt.checkAll p.split).run t).journal.map Event.text = ((Stmt.checkAll p).run t).journal.map Event.text ∧
    ((Stmt.checkAll p.split).run t).table.text = ((Stmt.checkAll p).run t).table.text ∧
    ((Stmt.checkAll p.split).run t).table.innermostText = ((Stmt.checkAll p).run t).table.innermostText ∧
    ∀ x,
      (((Stmt.checkAll p.split).run t).table.find? x).map Entry.split =
        (((Stmt.checkAll p).run t).table.find? x).map Entry.split ∧
      (((Stmt.checkAll p.split).run t).table.findInnermost? x).map Entry.split =
        (((Stmt.checkAll p).run t).table.findInnermost? x).map Entry.split ∧
      (((Stmt.checkAll p.split).run t).table.function? x).map Header.split =
        (((Stmt.checkAll p).run t).table.function? x).map Header.split := by
  have hstart : t.Paired regrouping.entry t := Table.paired_iff.mpr rfl
  have h := regrouping.runs_check (.block p) hstart
  have htable := h.table fun _ _ ht => ht
  have htext : ∀ e e', regrouping.entry e e' → e'.text = e.text := by
    intro e e' he
    rw [← e'.text_split, ← he, e.text_split]
  have hresult : ∀ {x y : Except Fault Unit}, Alike Eq (fun _ _ => True) x y → y = x := by
    intro x y hxy
    cases hxy with
    | ok _ => rfl
    | error hf => rw [hf]
  refine ⟨hresult h.result, h.journal.symm, htable.text htext, htable.innermostText htext, fun x => ?_⟩
  have hname : ∀ e e', regrouping.entry e e' → e'.name = e.name := fun _ _ => regrouping.name
  exact ⟨map_eq_of_rel (htable.find? hname x), map_eq_of_rel (htable.findInnermost? hname x),
    map_eq_of_rel (htable.function? hname (fun _ _ => regrouping.header?) x)⟩

-- The name that is taken stands in another group, after one that has none.
example : ((Stmt.checkAll (Program.split [.define (.make "f" none [.ofNames ["a", "b"] .int true,
    .ofNames [] .bool false, .ofNames ["a"] .byte false] 1) []])).run .empty).result =
      .error ⟨.redeclaration "parameter" "a", 1⟩ := rfl

end Dana
