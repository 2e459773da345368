import Dana.Check.Expr

/-!
# Declarations and look-ups

A scope takes an entry only under a name that it does not have, so whatever was
found before is found again. A binding goes to the first scope of the stack and
hides what stands behind it; a function goes to the last and hides nothing.
-/

namespace Dana

theorem bind_eq_ok {ε α β : Type} {x : Except ε α} {k : α → Except ε β} {b : β} :
    x >>= k = .ok b ↔ ∃ a, x = .ok a ∧ k a = .ok b := by
  cases x <;> simp [bind, Except.bind]

/-- Where keys differ, the one to be found under a key is the one that has it. -/
theorem find?_key {α : Type} {key : α → String} {x : String} {a : α} :
    ∀ {l : List α}, (l.map key).Nodup → (l.find? (fun b => key b = x) = some a ↔ a ∈ l ∧ key a = x)
  | [], _ => by simp
  | b :: l, h => by
    rw [List.map_cons, List.nodup_cons] at h
    rw [List.find?_cons]
    by_cases hb : key b = x
    · simp only [hb, decide_true, Option.some.injEq, List.mem_cons]
      constructor
      · rintro rfl; exact ⟨.inl rfl, hb⟩
      · rintro ⟨rfl | ha, hx⟩
        · rfl
        · exact absurd (List.mem_map.mpr ⟨a, ha, hx.trans hb.symm⟩) h.1
    · simp only [hb, decide_false, find?_key h.2, List.mem_cons]
      constructor
      · rintro ⟨ha, hx⟩; exact ⟨.inr ha, hx⟩
      · rintro ⟨rfl | ha, hx⟩
        · exact absurd hx hb
        · exact ⟨ha, hx⟩

/-! ## Scopes -/

namespace Scope

@[simp] theorem find?_empty (x : String) : empty.find? x = none := rfl

theorem find?_eq_none {s : Scope} {x : String} : s.find? x = none ↔ ∀ f ∈ s.entries, f.name ≠ x := by
  simp [find?, List.find?_eq_none]

theorem insertEntry_perm (e : Entry) : ∀ es : List Entry, (insertEntry e es).Perm (e :: es)
  | [] => .refl _
  | f :: fs => by
    simp only [insertEntry]
    split
    · exact .refl _
    · exact ((insertEntry_perm e fs).cons f).trans (.swap ..)

theorem find?_insertEntry {e : Entry} {x : String} :
    ∀ {es : List Entry}, (∀ f ∈ es, f.name ≠ e.name) →
      (insertEntry e es).find? (fun f => f.name = x) =
        if e.name = x then some e else es.find? (fun f => f.name = x)
  | [], _ => by
    by_cases hx : e.name = x <;> simp [insertEntry, hx]
  | f :: fs, h => by
    have hf : f.name ≠ e.name := h f (by simp)
    simp only [insertEntry]
    split
    · by_cases hx : e.name = x <;> simp [hx]
    · rw [List.find?_cons, List.find?_cons, find?_insertEntry fun g hg => h g (by simp [hg])]
      by_cases hx : e.name = x
      · simp [hx, show f.name ≠ x from hx ▸ hf]
      · simp [hx]

theorem find?_insert {s : Scope} {e : Entry} (h : s.find? e.name = none) (x : String) :
    (s.insert e).find? x = if e.name = x then some e else s.find? x :=
  find?_insertEntry (find?_eq_none.mp h)

theorem forall_mem_insert {P : Entry → Prop} {s : Scope} {e : Entry} (hs : ∀ f ∈ s.entries, P f) (he : P e) :
    ∀ f ∈ (s.insert e).entries, P f := by
  intro f hf
  rcases List.mem_cons.mp ((insertEntry_perm e s.entries).mem_iff.mp hf) with rfl | hf
  · exact he
  · exact hs f hf

theorem declare_ok {s s' : Scope} {e : Entry} :
    s.declare e = .ok s' ↔ s.find? e.name = none ∧ s' = s.insert e := by
  unfold declare
  cases h : s.find? e.name with
  | none => simp [eq_comm]
  | some f => simp

theorem declare_error {s : Scope} {e : Entry} {f : Fault} :
    s.declare e = .error f ↔ s.find? e.name ≠ none ∧ f = ⟨.redeclaration e.noun e.name, e.line⟩ := by
  unfold declare
  cases h : s.find? e.name with
  | none => simp
  | some f => simp [eq_comm]

theorem function?_of_bindings {s : Scope} {x : String} (h : ∀ e ∈ s.entries, e.header? = none) :
    s.function? x = none := by
  unfold function?
  cases he : s.find? x with
  | none => rfl
  | some e => exact h e (List.mem_of_find?_eq_some he)

theorem function?_insert_binding {s : Scope} {e : Entry} (he : e.header? = none)
    (h : s.find? e.name = none) (x : String) : (s.insert e).function? x = s.function? x := by
  unfold function?
  rw [find?_insert h]
  by_cases hx : e.name = x
  · subst hx; simp [he, h]
  · simp [hx]

theorem function?_insert_header {s : Scope} {h : Header} (hs : s.find? h.name = none) (x : String) :
    (s.insert (.ofHeader h)).function? x = if h.name = x then some h else s.function? x := by
  unfold function?
  rw [find?_insert (e := .ofHeader h) hs]
  by_cases hx : h.name = x <;> simp [hx, Entry.ofHeader, Entry.header?]

/-- `s'` is `s` with the entries `es` more: their names are new, and nothing
else comes, goes or changes. -/
structure Gains (s : Scope) (es : List Entry) (s' : Scope) : Prop where
  fresh : ∀ e ∈ es, s.find? e.name = none
  distinct : (es.map Entry.name).Nodup
  entries : s'.entries.Perm (es ++ s.entries)
  lookup : ∀ x, s'.find? x = (s.find? x).or (es.find? fun e => e.name = x)

namespace Gains

theorem refl (s : Scope) : s.Gains [] s where
  fresh := by simp
  distinct := by simp
  entries := .refl _
  lookup x := by simp

theorem single {s : Scope} {e : Entry} (h : s.find? e.name = none) : s.Gains [e] (s.insert e) where
  fresh := by simpa using h
  distinct := by simp
  entries := insertEntry_perm e s.entries
  lookup x := by
    rw [find?_insert h]
    by_cases hx : e.name = x
    · subst hx
      simp [h]
    · simp [hx]

theorem trans {s u v : Scope} {es fs : List Entry} (h : s.Gains es u) (h' : u.Gains fs v) :
    s.Gains (es ++ fs) v := by
  -- a name that `u` does not have is neither in `s` nor among `es`
  have hout : ∀ f ∈ fs, s.find? f.name = none ∧ ∀ e ∈ es, e.name ≠ f.name := by
    intro f hf
    have hnone : (s.find? f.name).or (es.find? fun e => e.name = f.name) = none := by
      rw [← h.lookup]
      exact h'.fresh f hf
    simpa using hnone
  refine ⟨?_, ?_, ?_, ?_⟩
  · intro e he
    rcases List.mem_append.mp he with he | he
    · exact h.fresh e he
    · exact (hout e he).1
  · rw [List.map_append, List.nodup_append]
    refine ⟨h.distinct, h'.distinct, ?_⟩
    intro a ha b hb
    obtain ⟨e, he, rfl⟩ := List.mem_map.mp ha
    obtain ⟨f, hf, rfl⟩ := List.mem_map.mp hb
    exact (hout f hf).2 e he
  · have hfs : (fs ++ u.entries).Perm (fs ++ (es ++ s.entries)) := h.entries.append_left fs
    rw [List.append_assoc]
    exact (h'.entries.trans hfs).trans (List.perm_append_comm_assoc fs es s.entries)
  · intro x
    rw [h'.lookup, h.lookup, List.find?_append, Option.or_assoc]

theorem declare {s u v : Scope} {es : List Entry} {e : Entry} (h : s.Gains es u)
    (hd : u.declare e = .ok v) : s.Gains (es ++ [e]) v := by
  obtain ⟨hu, rfl⟩ := declare_ok.mp hd
  exact h.trans (single hu)

/-- The order in which entries come does not matter, as their names differ. -/
theorem reorder {s s' : Scope} {es fs : List Entry} (h : s.Gains es s') (hp : es.Perm fs) :
    s.Gains fs s' where
  fresh e he := h.fresh e (hp.mem_iff.mpr he)
  distinct := (hp.map _).nodup_iff.mp h.distinct
  entries := h.entries.trans (hp.append_right _)
  lookup x := by
    rw [h.lookup]
    congr 1
    apply Option.ext
    intro e
    rw [find?_key h.distinct, find?_key ((hp.map _).nodup_iff.mp h.distinct), hp.mem_iff]

theorem taken {s s' : Scope} {es : List Entry} {x : String} (h : s.Gains es s') (hx : s'.find? x ≠ none) :
    s.find? x ≠ none ∨ ∃ e ∈ es, e.name = x := by
  by_cases hs : s.find? x = none
  · rw [h.lookup, hs, Option.none_or] at hx
    obtain ⟨e, he⟩ := Option.ne_none_iff_exists'.mp hx
    exact .inr ⟨e, List.mem_of_find?_eq_some he, by simpa using List.find?_some he⟩
  · exact .inl hs

end Gains

end Scope

/-! ## Tables -/

namespace Table

/-- The scope at a level. The global scope is at level 0. -/
def level? (t : Table) (i : Nat) : Option Scope :=
  t.scopes.reverse[i]?

/-- The entry of a name in the global scope. -/
def findGlobal? (t : Table) (x : String) : Option Entry :=
  t.scopes.getLast?.bind fun s => s.find? x

variable {t t' : Table} {e : Entry} {f : Fault}

theorem closeScope_ok : t.closeScope = .ok t' ↔ ∃ s, t.scopes = s :: t'.scopes ∧ t'.loopDepth = t.loopDepth := by
  unfold closeScope
  cases h : t.scopes with
  | nil => simp
  | cons s outer =>
    cases t'
    simp [eq_comm]

theorem declare_cons {s : Scope} {outer : List Scope} (hs : t.scopes = s :: outer) :
    t.declare e = (s.declare e).map fun s' => { t with scopes := s' :: outer } := by
  simp only [declare, hs]
  cases s.declare e <;> rfl

theorem declare_ok : t.declare e = .ok t' ↔ ∃ s outer, t.scopes = s :: outer ∧ s.find? e.name = none ∧
    t' = { t with scopes := s.insert e :: outer } := by
  cases hs : t.scopes with
  | nil => simp [declare, hs]
  | cons s outer =>
    rw [declare_cons hs]
    constructor
    · intro h
      cases hd : s.declare e with
      | error f => simp [hd, Except.map] at h
      | ok s' =>
        obtain ⟨hn, rfl⟩ := Scope.declare_ok.mp hd
        simp only [hd, Except.map, Except.ok.injEq] at h
        exact ⟨s, outer, rfl, hn, h.symm⟩
    · rintro ⟨s', outer', h, hn, rfl⟩
      cases h
      rw [Scope.declare_ok.mpr ⟨hn, rfl⟩]
      rfl

theorem declare_error (ht : 0 < t.depth) (h : t.declare e = .error f) :
    t.findInnermost? e.name ≠ none ∧ f = ⟨.redeclaration e.noun e.name, e.line⟩ := by
  cases hs : t.scopes with
  | nil => simp [depth, hs] at ht
  | cons s outer =>
    rw [declare_cons hs] at h
    cases hd : s.declare e with
    | error f' =>
      simp only [hd, Except.map, Except.error.injEq] at h
      subst h
      simpa [findInnermost?, hs] using Scope.declare_error.mp hd
    | ok s' => simp [hd, Except.map] at h

theorem declareLast_cons {s : Scope} {ss : List Scope} (h : ss ≠ []) :
    declareLast e (s :: ss) = (declareLast e ss).map (s :: ·) := by
  cases ss with
  | nil => exact absurd rfl h
  | cons s' ss => rfl

theorem declareLast_concat (e : Entry) (g : Scope) : ∀ inner : List Scope,
    declareLast e (inner ++ [g]) = (g.declare e).map fun g' => inner ++ [g']
  | [] => by
    simp only [List.nil_append, declareLast]
    cases g.declare e <;> rfl
  | [s] => by
    simp only [List.cons_append, List.nil_append, declareLast]
    cases g.declare e <;> rfl
  | s :: s' :: inner => by
    have ih := declareLast_concat e g (s' :: inner)
    simp only [List.cons_append] at ih ⊢
    rw [declareLast, ih]
    · cases g.declare e <;> rfl
    · simp

theorem declareGlobal_concat {inner : List Scope} {g : Scope} (hs : t.scopes = inner ++ [g]) :
    t.declareGlobal e = (g.declare e).map fun g' => { t with scopes := inner ++ [g'] } := by
  unfold declareGlobal
  rw [hs, declareLast_concat]
  cases g.declare e <;> rfl

theorem declareGlobal_ok : t.declareGlobal e = .ok t' ↔ ∃ inner g, t.scopes = inner ++ [g] ∧
    g.find? e.name = none ∧ t' = { t with scopes := inner ++ [g.insert e] } := by
  rcases List.eq_nil_or_concat t.scopes with hs | ⟨inner, g, hs⟩
  · simp [declareGlobal, hs, declareLast, bind, Except.bind]
  · rw [List.concat_eq_append] at hs
    rw [declareGlobal_concat hs, hs]
    constructor
    · intro h
      cases hd : g.declare e with
      | error f => simp [hd, Except.map] at h
      | ok g' =>
        obtain ⟨hg, rfl⟩ := Scope.declare_ok.mp hd
        simp only [hd, Except.map, Except.ok.injEq] at h
        exact ⟨inner, g, rfl, hg, h.symm⟩
    · rintro ⟨inner', g', h, hg, rfl⟩
      obtain ⟨rfl, hg'⟩ := List.append_inj' h rfl
      cases hg'
      rw [Scope.declare_ok.mpr ⟨hg, rfl⟩]
      rfl

theorem declareGlobal_error (ht : 0 < t.depth) (h : t.declareGlobal e = .error f) :
    t.findGlobal? e.name ≠ none ∧ f = ⟨.redeclaration e.noun e.name, e.line⟩ := by
  rcases List.eq_nil_or_concat t.scopes with hs | ⟨inner, g, hs⟩
  · simp [depth, hs] at ht
  · rw [List.concat_eq_append] at hs
    rw [declareGlobal_concat hs] at h
    cases hd : g.declare e with
    | error f' =>
      simp only [hd, Except.map, Except.error.injEq] at h
      subst h
      simpa [findGlobal?, hs] using Scope.declare_error.mp hd
    | ok g' => simp [hd, Except.map] at h

/-! ## What is found afterwards -/

@[simp] theorem find?_openScope (x : String) : t.openScope.find? x = t.find? x := by
  simp [find?, openScope, List.findSome?_cons]

@[simp] theorem function?_openScope (x : String) : t.openScope.function? x = t.function? x := by
  simp [function?, openScope, Scope.function?, List.findSome?_cons]

@[simp] theorem env_openScope : t.openScope.env = t.env := by
  simp [env, funext_iff]

theorem find?_declare (h : t.declare e = .ok t') (x : String) :
    t'.find? x = if e.name = x then some e else t.find? x := by
  obtain ⟨s, outer, hs, hn, rfl⟩ := declare_ok.mp h
  simp only [find?, hs, List.findSome?_cons, Scope.find?_insert hn]
  by_cases hx : e.name = x <;> simp [hx]

theorem find?_declareGlobal (h : t.declareGlobal e = .ok t') (x : String) :
    t'.find? x = (t.find? x).or (if e.name = x then some e else none) := by
  obtain ⟨inner, g, hs, hn, rfl⟩ := declareGlobal_ok.mp h
  simp only [find?, hs, List.findSome?_append, List.findSome?_cons, List.findSome?_nil,
    Scope.find?_insert hn]
  by_cases hx : e.name = x
  · subst hx; simp [hn]
  · simp [hx]

theorem function?_declare (he : e.header? = none) (h : t.declare e = .ok t') (x : String) :
    t'.function? x = t.function? x := by
  obtain ⟨s, outer, hs, hn, rfl⟩ := declare_ok.mp h
  simp [function?, hs, List.findSome?_cons, Scope.function?_insert_binding he hn]

theorem function?_declareGlobal {h : Header} (hd : t.declareGlobal (.ofHeader h) = .ok t') (x : String) :
    t'.function? x = (t.function? x).or (if h.name = x then some h else none) := by
  obtain ⟨inner, g, hs, hn, rfl⟩ := declareGlobal_ok.mp hd
  simp only [function?, hs, List.findSome?_append, List.findSome?_cons, List.findSome?_nil,
    Scope.function?_insert_header hn]
  by_cases hx : h.name = x
  · subst hx
    have : g.find? h.name = none := hn
    simp [Scope.function?, this]
  · simp [hx]

/-! ## What the innermost and the global scope hold afterwards -/

@[simp] theorem findInnermost?_openScope (x : String) : t.openScope.findInnermost? x = none := rfl

theorem findGlobal?_openScope (ht : 0 < t.depth) (x : String) : t.openScope.findGlobal? x = t.findGlobal? x := by
  cases hs : t.scopes with
  | nil => simp [depth, hs] at ht
  | cons s outer => simp [findGlobal?, openScope, hs]

/-- With a single scope open, it is both. -/
theorem findGlobal?_of_sole (ht : t.depth = 1) (x : String) : t.findGlobal? x = t.findInnermost? x := by
  obtain ⟨s, hs⟩ := List.length_eq_one_iff.mp ht
  simp [findGlobal?, findInnermost?, hs]

theorem findInnermost?_declare (h : t.declare e = .ok t') (x : String) :
    t'.findInnermost? x = if e.name = x then some e else t.findInnermost? x := by
  obtain ⟨s, outer, hs, hn, rfl⟩ := declare_ok.mp h
  simp [findInnermost?, hs, Scope.find?_insert hn]

theorem findGlobal?_declare (h : t.declare e = .ok t') (ht : 1 < t.depth) (x : String) :
    t'.findGlobal? x = t.findGlobal? x := by
  obtain ⟨s, outer, hs, -, rfl⟩ := declare_ok.mp h
  cases outer with
  | nil => simp [depth, hs] at ht
  | cons s' outer => simp [findGlobal?, hs]

theorem findGlobal?_declareGlobal (h : t.declareGlobal e = .ok t') (x : String) :
    t'.findGlobal? x = if e.name = x then some e else t.findGlobal? x := by
  obtain ⟨inner, g, hs, hn, rfl⟩ := declareGlobal_ok.mp h
  simp [findGlobal?, hs, Scope.find?_insert hn]

theorem findInnermost?_declareGlobal (h : t.declareGlobal e = .ok t') (ht : 1 < t.depth) (x : String) :
    t'.findInnermost? x = t.findInnermost? x := by
  obtain ⟨inner, g, hs, -, rfl⟩ := declareGlobal_ok.mp h
  cases inner with
  | nil => simp [depth, hs] at ht
  | cons s inner => simp [findInnermost?, hs]

end Table

end Dana
