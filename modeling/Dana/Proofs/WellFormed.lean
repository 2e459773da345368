import Dana.Proofs.Reachable

/-!
# The tables of a session are well formed

Whatever a session does, and whether it succeeds or not, each scope of its table has
one entry for a name, and functions stand at level 0 under the names of their headers
(`Table.Reachable.wellFormed`). This is why a function can be looked up as if there were
the global scope only, and why a name stands for what the scope opened last says.
-/

namespace Dana

/-! ## Scopes -/

structure Scope.WellFormed (s : Scope) : Prop where
  distinct : (s.entries.map Entry.name).Nodup
  /-- What is found under a name is the entry of that name. -/
  found : ∀ x e, s.find? x = some e ↔ e ∈ s.entries ∧ e.name = x
  functions : ∀ e ∈ s.entries, ∀ h, e.header? = some h → e.name ≠ "" ∧ e.name = h.name ∧ e.line = h.line
  roles : ∀ e ∈ s.entries, ¬ (e.isParam = true ∧ e.isConst = true)

/-- An entry as declarations make them: of a binding, or of a header that has a name. -/
def Entry.Declared (e : Entry) : Prop :=
  e.header? = none ∨ ∃ h, h.name ≠ "" ∧ e = .ofHeader h

theorem Entry.not_isParam_and_isConst (e : Entry) : ¬ (e.isParam = true ∧ e.isConst = true) := by
  unfold isParam isConst
  cases e.meaning with
  | function h => simp
  | binding ty role => cases role <;> simp

namespace Scope

variable {s : Scope} {e : Entry}

theorem nodup_insert (h : (s.entries.map Entry.name).Nodup) (hn : s.find? e.name = none) :
    ((s.insert e).entries.map Entry.name).Nodup := by
  have hp := (insertEntry_perm e s.entries).map Entry.name
  unfold insert
  rw [hp.nodup_iff, List.map_cons, List.nodup_cons]
  refine ⟨fun hm => ?_, h⟩
  obtain ⟨f, hf, hfe⟩ := List.mem_map.mp hm
  exact find?_eq_none.mp hn f hf hfe

theorem wellFormed_of_declared (hd : (s.entries.map Entry.name).Nodup) (he : ∀ e ∈ s.entries, e.Declared) :
    s.WellFormed where
  distinct := hd
  found x e := find?_key hd
  functions e hm h hh := by
    rcases he e hm with hn | ⟨g, hg, rfl⟩
    · rw [hn] at hh
      cases hh
    · cases hh
      exact ⟨hg, rfl, rfl⟩
  roles e _ := e.not_isParam_and_isConst

end Scope

/-! ## Tables -/

/-- The entry of a name at a level, which may be closed. -/
def Table.findAt? (t : Table) (i : Nat) (x : String) : Option Entry :=
  (t.level? i).bind fun s => s.find? x

structure Table.WellFormed (t : Table) : Prop where
  scopes : ∀ s ∈ t.scopes, s.WellFormed
  functionsGlobal : ∀ i s e, t.level? i = some s → e ∈ s.entries → e.header? ≠ none → i = 0

section
variable {t u : Table}

/-- What holds of the empty scope and is kept by the declarations holds of each scope. -/
theorem Table.Step.forall_scopes {P : Scope → Prop} (hempty : P .empty)
    (hinsert : ∀ s e, e.Declared → s.find? e.name = none → P s → P (s.insert e)) (h : t.Step u)
    (ht : ∀ s ∈ t.scopes, P s) : ∀ s ∈ u.scopes, P s := by
  cases h with
  | openScope => exact List.forall_mem_cons.mpr ⟨hempty, ht⟩
  | closeScope h =>
    obtain ⟨s, hs, -⟩ := closeScope_ok.mp h
    rw [hs] at ht
    exact (List.forall_mem_cons.mp ht).2
  | openLoop => exact ht
  | closeLoop => exact ht
  | bind h =>
    obtain ⟨s, outer, hs, hn, rfl⟩ := declare_ok.mp h
    rw [hs, List.forall_mem_cons] at ht
    exact List.forall_mem_cons.mpr ⟨hinsert s _ (.inl rfl) hn ht.1, ht.2⟩
  | register hname h =>
    obtain ⟨inner, s, hs, hn, rfl⟩ := declareGlobal_ok.mp h
    rw [hs, List.forall_mem_append, List.forall_mem_singleton] at ht
    rw [List.forall_mem_append, List.forall_mem_singleton]
    exact ⟨ht.1, hinsert s _ (.inr ⟨_, hname, rfl⟩) hn ht.2⟩

theorem Table.Reachable.forall_scopes {P : Scope → Prop} (hempty : P .empty)
    (hinsert : ∀ s e, e.Declared → s.find? e.name = none → P s → P (s.insert e)) (h : t.Reachable) :
    ∀ s ∈ t.scopes, P s := by
  refine h.invariant (P := fun t => ∀ s ∈ t.scopes, P s) ?_ fun hs ht => hs.forall_scopes hempty hinsert ht
  exact List.forall_mem_singleton.mpr hempty

theorem Table.level?_zero (t : Table) : t.level? 0 = t.scopes.getLast? := by
  unfold level?
  rw [← List.head?_eq_getElem?, List.head?_reverse]

theorem Table.mem_dropLast_of_level? {i : Nat} {s : Scope} (h : t.level? (i + 1) = some s) :
    s ∈ t.scopes.dropLast := by
  unfold level? at h
  rw [← List.getElem?_tail, List.tail_reverse] at h
  exact List.mem_reverse.mp (List.mem_of_getElem? h)

theorem Table.Reachable.wellFormed (h : t.Reachable) : t.WellFormed where
  scopes := by
    have hdistinct := h.forall_scopes (P := fun s => (s.entries.map Entry.name).Nodup) List.nodup_nil
      fun s e _ hn hs => Scope.nodup_insert hs hn
    have hdeclared := h.forall_scopes (P := fun s => ∀ e ∈ s.entries, e.Declared) (by simp [Scope.empty])
      fun s e he _ hs => Scope.forall_mem_insert hs he
    intro s hs
    exact Scope.wellFormed_of_declared (hdistinct s hs) (hdeclared s hs)
  functionsGlobal i s e hi he hh := by
    cases i with
    | zero => rfl
    | succ i => exact absurd (h.functionsGlobal s (mem_dropLast_of_level? hi) e he) hh

/-! ## Looking up a function -/

theorem Table.function?_eq_global (h : t.FunctionsGlobal) (x : String) :
    t.function? x = (t.findAt? 0 x).bind Entry.header? := by
  unfold findAt?
  rw [level?_zero]
  rcases List.eq_nil_or_concat t.scopes with hs | ⟨inner, g, hs⟩
  · simp [function?, hs]
  · rw [List.concat_eq_append] at hs
    have hinner : (inner.findSome? fun s => s.function? x) = none := by
      refine List.findSome?_eq_none_iff.mpr fun s hm => Scope.function?_of_bindings ?_
      refine h s ?_
      rw [hs, List.dropLast_concat]
      exact hm
    rw [function?, hs, List.findSome?_append, hinner]
    simp [Scope.function?]

/-! ## Looking up a name -/

/-- The level of a scope is the number of those behind it. -/
theorem Table.level?_length {inner outer : List Scope} {s : Scope} (hs : t.scopes = inner ++ s :: outer) :
    t.level? outer.length = some s := by
  unfold level?
  rw [hs]
  simp

theorem Table.level?_of_length_lt {inner outer : List Scope} {s s' : Scope} {j : Nat}
    (hs : t.scopes = inner ++ s :: outer) (hj : t.level? j = some s') (hlt : outer.length < j) : s' ∈ inner := by
  unfold level? at hj
  rw [hs, List.reverse_append, List.reverse_cons, List.append_assoc,
    List.getElem?_append_right (by simpa using Nat.le_of_lt hlt)] at hj
  obtain ⟨k, hk⟩ : ∃ k, j - outer.reverse.length = k + 1 := ⟨j - outer.length - 1, by simp; omega⟩
  rw [hk, List.singleton_append, List.getElem?_cons_succ] at hj
  exact List.mem_reverse.mp (List.mem_of_getElem? hj)

theorem Table.findAt?_eq_some {i : Nat} {x : String} {e : Entry} :
    t.findAt? i x = some e ↔ ∃ s, t.level? i = some s ∧ s.find? x = some e :=
  Option.bind_eq_some_iff

theorem Table.findAt?_of_find? {x : String} {e : Entry} (h : t.find? x = some e) :
    ∃ i, t.findAt? i x = some e ∧ ∀ j, t.findAt? j x ≠ none → j ≤ i := by
  obtain ⟨inner, s, outer, hs, he, hinner⟩ := List.findSome?_eq_some_iff.mp h
  refine ⟨outer.length, findAt?_eq_some.mpr ⟨s, level?_length hs, he⟩, fun j hj => ?_⟩
  obtain ⟨f, hf⟩ := Option.ne_none_iff_exists'.mp hj
  obtain ⟨s', hs', hf⟩ := findAt?_eq_some.mp hf
  refine Nat.le_of_not_lt fun hlt => ?_
  rw [hinner s' (level?_of_length_lt hs hs' hlt)] at hf
  cases hf

theorem Table.find?_eq_some_iff {x : String} {e : Entry} :
    t.find? x = some e ↔ ∃ i, t.findAt? i x = some e ∧ ∀ j, t.findAt? j x ≠ none → j ≤ i := by
  constructor
  · exact findAt?_of_find?
  · rintro ⟨i, hi, hmax⟩
    cases h : t.find? x with
    | none =>
      obtain ⟨s, hs, he⟩ := findAt?_eq_some.mp hi
      have hm : s ∈ t.scopes := List.mem_reverse.mp (List.mem_of_getElem? hs)
      rw [List.findSome?_eq_none_iff.mp h s hm] at he
      cases he
    | some f =>
      obtain ⟨k, hk, hkmax⟩ := findAt?_of_find? h
      have hik : i = k := Nat.le_antisymm (hkmax i (by simp [hi])) (hmax k (by simp [hk]))
      rw [← hik, hi] at hk
      exact hk.symm

/-! ## The scope opened last -/

/-- A session table by table, the latest first. -/
inductive Table.History : List Table → Prop
  | start : History [.empty]
  | step {t u past} : History (t :: past) → t.Step u → History (u :: t :: past)

/-- For how many tables, counted back from the latest, the level has been there. The
scope that is there now has been open for so long. -/
def Table.openFor (i : Nat) (history : List Table) : Nat :=
  (history.takeWhile fun t => i < t.depth).length

theorem Table.openFor_cons {i : Nat} {past : List Table} :
    openFor i (t :: past) = if i < t.depth then openFor i past + 1 else 0 := by
  unfold openFor
  rw [List.takeWhile_cons]
  by_cases h : i < t.depth <;> simp [h]

theorem Table.Step.depth_le (h : t.Step u) : u.depth ≤ t.depth + 1 := by
  cases h with
  | openScope => exact Nat.le_refl _
  | closeScope h => have := (closeScope_depth h).1; omega
  | openLoop | closeLoop => exact Nat.le_succ _
  | bind h => rw [(declare_depth h).1]; exact Nat.le_succ _
  | register _ h => rw [(declareGlobal_depth h).1]; exact Nat.le_succ _

/-- Of two open scopes the inner one has been open for less time. -/
theorem Table.History.openFor_lt {past : List Table} (h : History (t :: past)) {i j : Nat} (hij : i < j)
    (hj : j < t.depth) : openFor j (t :: past) < openFor i (t :: past) := by
  generalize hp : t :: past = history at h
  induction h generalizing t past with
  | start =>
    cases hp
    have : Table.empty.depth = 1 := rfl
    omega
  | @step t u past _ hs ih =>
    cases hp
    have hd := hs.depth_le
    have hi : i < u.depth := by omega
    rw [openFor_cons, if_pos hj, openFor_cons (i := i), if_pos hi]
    by_cases hjt : j < t.depth
    · exact Nat.succ_lt_succ (ih hjt rfl)
    · have hit : i < t.depth := by omega
      rw [openFor_cons, if_neg hjt, openFor_cons, if_pos hit]
      omega

theorem Table.lt_depth_of_findAt? {i : Nat} {x : String} (h : t.findAt? i x ≠ none) : i < t.depth := by
  obtain ⟨e, he⟩ := Option.ne_none_iff_exists'.mp h
  obtain ⟨s, hs, -⟩ := findAt?_eq_some.mp he
  unfold level? at hs
  have hi := (List.getElem?_eq_some_iff.mp hs).1
  rwa [List.length_reverse] at hi

theorem Table.History.openFor_le_iff {past : List Table} (h : History (t :: past)) {i j : Nat}
    (hi : i < t.depth) (hj : j < t.depth) : openFor i (t :: past) ≤ openFor j (t :: past) ↔ j ≤ i := by
  constructor
  · intro hle
    refine Nat.le_of_not_lt fun hlt => ?_
    have := h.openFor_lt hlt hj
    omega
  · intro hji
    by_cases heq : j = i
    · subst heq
      exact Nat.le_refl _
    · exact Nat.le_of_lt (h.openFor_lt (by omega) hi)

theorem Table.Reachable.afterAll (h : t.Reachable) (ops : List Operation) :
    (ops.foldl (fun t op => (op.action.run t).table) t).Reachable := by
  induction ops generalizing t with
  | nil => exact h
  | cons op ops ih => exact ih (.after op h)

theorem Table.Reachable.history (h : t.Reachable) : ∃ past, History (t :: past) := by
  induction h with
  | empty => exact ⟨[], .start⟩
  | @after t op _ ih =>
    have hw := op.walks t
    generalize (op.action.run t).table = u at hw ⊢
    induction hw with
    | refl => exact ih
    | tail _ hs ih =>
      obtain ⟨past, hpast⟩ := ih
      exact ⟨_, .step hpast hs⟩

end

/-! ## Main result -/

/-- **Tables of a session are well formed.** However a session has come to its table, the
scopes are well formed and functions stand at level 0. So a function is looked up there,
and a name stands for what is under it in the scope that has it and was opened last. -/
theorem session_wellFormed {t : Table} (h : t.Reachable) :
    t.WellFormed ∧
    (∀ x, t.function? x = (t.findAt? 0 x).bind Entry.header?) ∧
    (∃ past, Table.History (t :: past)) ∧
    ∀ past, Table.History (t :: past) → ∀ x e, t.find? x = some e ↔
      ∃ i, t.findAt? i x = some e ∧
        ∀ j, t.findAt? j x ≠ none → Table.openFor i (t :: past) ≤ Table.openFor j (t :: past) := by
  refine ⟨h.wellFormed, Table.function?_eq_global h.functionsGlobal, h.history, fun past hpast x e => ?_⟩
  rw [Table.find?_eq_some_iff]
  refine exists_congr fun i => and_congr_right fun hi => forall_congr' fun j => imp_congr_right fun hj => ?_
  have hlt : i < t.depth := Table.lt_depth_of_findAt? (x := x) (by simp [hi])
  exact (hpast.openFor_le_iff hlt (Table.lt_depth_of_findAt? hj)).symm

/-- The global scope is closed, then there is none to close; another one takes its place. -/
def reopening : List Operation :=
  [.closeScope, .closeScope, .openScope, .bind .const "x" .int 1, .openScope, .bind .param "x" .byte 2,
    .register (.make "f" none [] 3)]

def reopened : Table :=
  reopening.foldl (fun t op => (op.action.run t).table) .empty

theorem session_wellFormed_reopened :
    reopened.Reachable ∧ reopened.WellFormed ∧
    reopened.findAt? 0 "x" = some (.ofBinding .const "x" .int 1) ∧
    reopened.find? "x" = some (.ofBinding .param "x" .byte 2) ∧
    reopened.function? "f" = (reopened.findAt? 0 "f").bind Entry.header? ∧
    ∃ past, Table.History (reopened :: past) ∧
      ∃ i, reopened.findAt? i "x" = some (.ofBinding .param "x" .byte 2) ∧
        ∀ j, reopened.findAt? j "x" ≠ none →
          Table.openFor i (reopened :: past) ≤ Table.openFor j (reopened :: past) := by
  have hr : reopened.Reachable := Table.Reachable.empty.afterAll reopening
  have hx : reopened.find? "x" = some (.ofBinding .param "x" .byte 2) := by decide
  obtain ⟨hwf, hfunctions, ⟨past, hpast⟩, hnames⟩ := session_wellFormed hr
  exact ⟨hr, hwf, by decide, hx, hfunctions "f", past, hpast, (hnames past hpast "x" _).mp hx⟩

end Dana
