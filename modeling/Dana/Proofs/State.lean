import Dana.Proofs.Stop

/-!
# The table a check leaves

A check that passes adds the variables it declares at its own level and the
functions it meets at any depth, and nothing else. One that stops leaves the
scopes of the constructs that are open, on top of a table that has grown in the
same way. Both are shown through `Grows`, which follows the stack of scopes one
declaration at a time.
-/

namespace Dana

/-! ## Growing stacks -/

/-- The second stack comes from the first by declaring bindings in its first
scope and functions in its last. The lists are in order of declaration. -/
inductive Grows (ss : List Scope) : List Entry → List Header → List Scope → Prop
  | refl : Grows ss [] [] ss
  | bind {vs hs s outer e} : Grows ss vs hs (s :: outer) → e.header? = none → s.find? e.name = none →
      Grows ss (vs ++ [e]) hs (s.insert e :: outer)
  | register {vs hs inner g h} : Grows ss vs hs (inner ++ [g]) → g.find? h.name = none →
      Grows ss vs (hs ++ [h]) (inner ++ [g.insert (.ofHeader h)])

namespace Grows

variable {ss us : List Scope} {vs : List Entry} {hs : List Header}

theorem trans {ws : List Scope} {vs' : List Entry} {hs' : List Header} (h : Grows ss vs hs us)
    (h' : Grows us vs' hs' ws) : Grows ss (vs ++ vs') (hs ++ hs') ws := by
  induction h' with
  | refl => simpa using h
  | bind _ he hn ih => rw [← List.append_assoc]; exact ih.bind he hn
  | register _ hn ih => rw [← List.append_assoc]; exact ih.register hn

theorem length (h : Grows ss vs hs us) : us.length = ss.length := by
  induction h with
  | refl => rfl
  | bind _ _ _ ih => simpa using ih
  | register _ _ ih => simpa using ih

theorem bindings (h : Grows ss vs hs us) : ∀ e ∈ vs, e.header? = none := by
  induction h with
  | refl => simp
  | bind _ he _ ih =>
    intro e hm
    rcases List.mem_append.mp hm with hm | hm
    · exact ih e hm
    · rw [List.mem_singleton.mp hm]; exact he
  | register _ _ ih => exact ih

theorem function? (h : Grows ss vs hs us) (x : String) :
    us.findSome? (fun s => s.function? x) =
      (ss.findSome? fun s => s.function? x).or (hs.find? fun g => g.name = x) := by
  induction h with
  | refl => simp
  | bind _ he hn ih =>
    rw [← ih]
    simp only [List.findSome?_cons, Scope.function?_insert_binding he hn]
  | @register vs hs inner g h _ hn ih =>
    rw [List.find?_append, ← Option.or_assoc, ← ih]
    simp only [List.findSome?_append, List.findSome?_cons, List.findSome?_nil, Scope.function?_insert_header hn]
    by_cases hx : h.name = x
    · subst hx
      simp [Scope.function?, hn]
    · simp [hx]

/-- With one scope, all of it goes there. -/
theorem sole {s : Scope} (h : Grows [s] vs hs us) :
    ∃ s', us = [s'] ∧ s.Gains (vs ++ hs.map Entry.ofHeader) s' := by
  induction h with
  | refl => exact ⟨s, rfl, .refl s⟩
  | @bind vs hs s₁ outer e _ _ hn ih =>
    obtain ⟨_, heq, hg⟩ := ih
    cases heq
    refine ⟨_, rfl, (hg.declare (Scope.declare_ok.mpr ⟨hn, rfl⟩)).reorder ?_⟩
    rw [List.append_assoc, List.append_assoc]
    exact List.perm_append_comm.append_left vs
  | @register vs hs inner g h _ hn ih =>
    obtain ⟨s', heq, hg⟩ := ih
    obtain ⟨rfl, hs'⟩ := List.append_inj' (heq.trans (List.nil_append [s']).symm) rfl
    cases hs'
    refine ⟨_, rfl, ?_⟩
    rw [List.map_append, ← List.append_assoc]
    exact hg.declare (Scope.declare_ok.mpr ⟨hn, rfl⟩)

/-- With more, the first one takes the bindings and the rest the functions. -/
theorem tail {s : Scope} (h : Grows (s :: ss) vs hs us) (hne : ss ≠ []) :
    ∃ s' us', us = s' :: us' ∧ s.Gains vs s' ∧ Grows ss [] hs us' := by
  induction h with
  | refl => exact ⟨s, ss, rfl, .refl s, .refl⟩
  | bind _ _ hn ih =>
    obtain ⟨s', us', heq, hg, h⟩ := ih
    cases heq
    exact ⟨_, _, rfl, hg.declare (Scope.declare_ok.mpr ⟨hn, rfl⟩), h⟩
  | @register vs hs inner g _ _ hn ih =>
    obtain ⟨s', us', heq, hg, h⟩ := ih
    cases inner with
    | nil =>
      cases heq
      exact absurd (List.length_eq_zero_iff.mp h.length.symm) hne
    | cons s₁ inner =>
      cases heq
      exact ⟨_, _, rfl, hg, h.register hn⟩

theorem last {mid : List Scope} {g : Scope} (h : Grows (mid ++ [g]) [] hs us) :
    ∃ g', us = mid ++ [g'] ∧ g.Gains (hs.map Entry.ofHeader) g' := by
  generalize hv : ([] : List Entry) = vs at h
  induction h with
  | refl => exact ⟨g, rfl, .refl g⟩
  | bind => simp at hv
  | register _ hn ih =>
    obtain ⟨g', heq, hg⟩ := ih hv
    obtain ⟨rfl, hg'⟩ := List.append_inj' heq rfl
    cases hg'
    refine ⟨_, rfl, ?_⟩
    rw [List.map_append]
    exact hg.declare (Scope.declare_ok.mpr ⟨hn, rfl⟩)

end Grows

/-! ## Growing tables -/

namespace Table

def GainsAt (t : Table) (i : Nat) (es : List Entry) (u : Table) : Prop :=
  ∃ s s', t.level? i = some s ∧ u.level? i = some s' ∧ s.Gains es s'

/-- The levels of `t` are the lowest of `u`. The innermost of them has gained the
bindings `vs`, the global one the functions `hs`, and those between nothing. -/
structure Grown (t : Table) (vs : List Entry) (hs : List Header) (u : Table) : Prop where
  between : ∀ i, 0 < i → i + 1 < t.depth → u.level? i = t.level? i
  ends : 1 < t.depth → t.GainsAt (t.depth - 1) vs u ∧ t.GainsAt 0 (hs.map Entry.ofHeader) u
  sole : t.depth = 1 → t.GainsAt 0 (vs ++ hs.map Entry.ofHeader) u

variable {t u : Table} {vs : List Entry} {hs : List Header}

theorem GainsAt.trans {v : Table} {i : Nat} {es fs : List Entry} (h : t.GainsAt i es u) (h' : u.GainsAt i fs v) :
    t.GainsAt i (es ++ fs) v := by
  obtain ⟨s, s₁, hs, hs₁, hg⟩ := h
  obtain ⟨s₂, s', hs₂, hs', hg'⟩ := h'
  cases hs₁.symm.trans hs₂
  exact ⟨s, s', hs, hs', hg.trans hg'⟩

theorem level?_append {extra lower : List Scope} (hu : u.scopes = extra ++ lower) {i : Nat}
    (hi : i < lower.length) : u.level? i = lower.reverse[i]? := by
  rw [level?, hu, List.reverse_append, List.getElem?_append_left (by simpa using hi)]

theorem grown_of_grows {extra lower : List Scope} (h : Grows t.scopes vs hs lower)
    (hu : u.scopes = extra ++ lower) : t.Grown vs hs u := by
  have hlen := h.length
  have hlev : ∀ i, i < t.depth → u.level? i = lower.reverse[i]? := fun i hi =>
    level?_append hu (hlen ▸ hi)
  cases hs₁ : t.scopes with
  | nil => exact ⟨by simp [depth, hs₁], by simp [depth, hs₁], by simp [depth, hs₁]⟩
  | cons s outer =>
    rcases List.eq_nil_or_concat outer with rfl | ⟨mid, g, rfl⟩
    · rw [hs₁] at h
      obtain ⟨s', rfl, hg⟩ := h.sole
      refine ⟨by simp [depth, hs₁], by simp [depth, hs₁], fun hd => ⟨s, s', ?_, ?_, hg⟩⟩
      · simp [level?, hs₁]
      · rw [hlev 0 (by omega)]; rfl
    · rw [List.concat_eq_append] at hs₁
      rw [hs₁] at h
      obtain ⟨s', us, rfl, hg, h⟩ := h.tail (by simp)
      obtain ⟨g', rfl, hg'⟩ := h.last
      have hd : t.depth = mid.length + 2 := by simp [depth, hs₁]
      refine ⟨fun i h₀ h₁ => ?_, fun _ => ⟨⟨s, s', ?_, ?_, hg⟩, ⟨g, g', ?_, ?_, hg'⟩⟩, fun h => by omega⟩
      · rw [hlev i (by omega)]
        obtain ⟨j, rfl⟩ : ∃ j, i = j + 1 := ⟨i - 1, by omega⟩
        have hj : j < mid.reverse.length := by simp; omega
        simp [level?, hs₁, List.getElem?_append_left hj]
      · simp [level?, hs₁, hd]
      · rw [hlev _ (by omega)]; simp [hd]
      · simp [level?, hs₁]
      · rw [hlev 0 (by omega)]; simp

theorem Grown.found (h : t.Grown vs hs u) {i : Nat} {s : Scope} (hi : t.level? i = some s) :
    ∃ s', u.level? i = some s' ∧ ∀ x e, s.find? x = some e → s'.find? x = some e := by
  have hlt : i < t.depth := by
    have := (List.getElem?_eq_some_iff.mp hi).1
    simpa [depth] using this
  have hgains : ∀ {es}, t.GainsAt i es u →
      ∃ s', u.level? i = some s' ∧ ∀ x e, s.find? x = some e → s'.find? x = some e := by
    rintro es ⟨s₁, s', hs₁, hs', hg⟩
    cases hi.symm.trans hs₁
    exact ⟨s', hs', fun x e he => by rw [hg.lookup, he, Option.some_or]⟩
  by_cases h0 : i = 0
  · subst h0
    by_cases h1 : t.depth = 1
    · exact hgains (h.sole h1)
    · exact hgains (h.ends (by omega)).2
  · by_cases hd : i + 1 = t.depth
    · have hi' : i = t.depth - 1 := by omega
      exact hgains (hi' ▸ (h.ends (by omega)).1)
    · exact ⟨s, (h.between i (by omega) (by omega)).trans hi, fun _ _ he => he⟩

end Table

/-! ## What a program declares -/

mutual

/-- The headers of all definitions and declarations, as they stand in the text. -/
def Stmt.headers : Stmt → List Header
  | ⟨.cond branches, _⟩ => Branch.headersAll branches
  | ⟨.loop _ body, _⟩ => Stmt.headersAll body
  | ⟨.define d, _⟩ => d.headers
  | ⟨.declare h, _⟩ => [h]
  | _ => []
termination_by structural s => s

def Stmt.headersAll : List Stmt → List Header
  | [] => []
  | s :: ss => s.headers ++ Stmt.headersAll ss
termination_by structural ss => ss

def Branch.headers : Branch → List Header
  | ⟨_, body, _⟩ => Stmt.headersAll body
termination_by structural b => b

def Branch.headersAll : List Branch → List Header
  | [] => []
  | b :: bs => b.headers ++ Branch.headersAll bs
termination_by structural bs => bs

def Definition.headers : Definition → List Header
  | ⟨header, body, _⟩ => header :: Stmt.headersAll body
termination_by structural d => d

end

def Stmt.entries : Stmt → List Entry
  | ⟨.vars names ty, line⟩ => Stmt.varEntries names ty line
  | _ => []

namespace Task

def headers : Task → List Header
  | .stmt s => s.headers
  | .block ss => Stmt.headersAll ss
  | .branch b => b.headers
  | .branches bs => Branch.headersAll bs
  | .definition d => d.headers

def entries : Task → List Entry
  | .stmt s => s.entries
  | .block ss => ss.flatMap Stmt.entries
  | _ => []

end Task

/-- Of the headers whose name is not known, the first of each name. -/
def firstHeaders (known : String → Bool) : List Header → List Header
  | [] => []
  | h :: hs =>
    if known h.name then firstHeaders known hs
    else h :: firstHeaders (fun x => h.name = x || known x) hs

theorem find?_firstHeaders {x : String} : ∀ {hs : List Header} {known : String → Bool},
    (firstHeaders known hs).find? (fun h => h.name = x) =
      if known x then none else hs.find? (fun h => h.name = x)
  | [], known => by simp [firstHeaders]
  | h :: hs, known => by
    unfold firstHeaders
    split
    · rename_i hk
      rw [find?_firstHeaders, List.find?_cons]
      by_cases hx : h.name = x
      · simp [← hx, hk]
      · simp [hx]
    · rename_i hk
      rw [List.find?_cons, List.find?_cons, find?_firstHeaders]
      by_cases hx : h.name = x
      · simp [← hx, hk]
      · simp [hx]

theorem nodup_firstHeaders : ∀ (known : String → Bool) (hs : List Header),
    ((firstHeaders known hs).map Header.name).Nodup
  | known, [] => by simp [firstHeaders]
  | known, h :: hs => by
    unfold firstHeaders
    split
    · exact nodup_firstHeaders known hs
    · rw [List.map_cons, List.nodup_cons]
      refine ⟨?_, nodup_firstHeaders _ hs⟩
      intro hm
      obtain ⟨g, hg, hn⟩ := List.mem_map.mp hm
      have := (find?_key (nodup_firstHeaders _ hs)).mpr ⟨hg, hn⟩
      simp [find?_firstHeaders] at this

theorem mem_firstHeaders {hs : List Header} {known : String → Bool} {h : Header} :
    h ∈ firstHeaders known hs ↔ known h.name = false ∧ hs.find? (fun g => g.name = h.name) = some h := by
  have hf := find?_key (x := h.name) (a := h) (nodup_firstHeaders known hs)
  rw [find?_firstHeaders] at hf
  cases hk : known h.name <;> simpa [hk, eq_comm] using hf.symm

theorem firstHeaders_append {hs' : List Header} : ∀ {hs : List Header} {known : String → Bool},
    firstHeaders known (hs ++ hs') =
      firstHeaders known hs ++ firstHeaders (fun x => known x || hs.any fun h => h.name = x) hs'
  | [], known => by simp [firstHeaders]
  | h :: hs, known => by
    simp only [List.cons_append, firstHeaders]
    split
    · rename_i hk
      rw [firstHeaders_append]
      congr 2
      funext x
      by_cases hx : h.name = x
      · simp [← hx, hk]
      · simp [hx]
    · rw [firstHeaders_append, List.cons_append]
      congr 3
      funext x
      cases known x <;> simp

/-! ## After a check that passes -/

namespace Table

def newHeaders (t : Table) (hs : List Header) : List Header :=
  firstHeaders (fun x => (t.function? x).isSome) hs

variable {t u : Table} {vs : List Entry} {hs : List Header}

/-- A name is known afterwards if it was before or heads one of the new functions. -/
theorem newHeaders_append {hs' : List Header}
    (hf : ∀ x, u.function? x = (t.function? x).or ((t.newHeaders hs).find? fun g => g.name = x)) :
    t.newHeaders (hs ++ hs') = t.newHeaders hs ++ u.newHeaders hs' := by
  unfold newHeaders
  rw [firstHeaders_append]
  congr 2
  funext x
  rw [hf, newHeaders, find?_firstHeaders]
  cases t.function? x with
  | some g => simp
  | none =>
    rw [Bool.eq_iff_iff]
    simp

@[simp] theorem newHeaders_openScope : t.openScope.newHeaders hs = t.newHeaders hs := by
  simp [newHeaders]

@[simp] theorem newHeaders_openLoop : t.openLoop.newHeaders hs = t.newHeaders hs := rfl

theorem declare_grows {e : Entry} (he : e.header? = none) (h : t.declare e = .ok u) :
    Grows t.scopes [e] [] u.scopes := by
  obtain ⟨s, outer, hs, hn, rfl⟩ := declare_ok.mp h
  rw [hs]
  exact Grows.bind .refl he hn

theorem declareAll_grows : ∀ {es : List Entry} {t : Table}, (∀ e ∈ es, e.header? = none) →
    t.declareAll es = .ok u → Grows t.scopes es [] u.scopes
  | [], t, _, h => by cases h; exact .refl
  | e :: es, t, hes, h => by
    obtain ⟨v, hv, h⟩ := declareAll_cons.mp h
    exact (declare_grows (hes e (by simp)) hv).trans (declareAll_grows (fun f hf => hes f (by simp [hf])) h)

theorem declareGlobal_grows {h : Header} (hd : t.declareGlobal (.ofHeader h) = .ok u) :
    Grows t.scopes [] [h] u.scopes := by
  obtain ⟨inner, g, hs, hn, rfl⟩ := declareGlobal_ok.mp hd
  rw [hs]
  exact Grows.register .refl hn

theorem Knows.grows {h : Header} (hk : t.Knows h u) : Grows t.scopes [] (t.newHeaders [h]) u.scopes := by
  cases hk with
  | before hg => simpa [newHeaders, firstHeaders, hg] using Grows.refl
  | now hg hd => simpa [newHeaders, firstHeaders, hg] using declareGlobal_grows hd

end Table

theorem varEntries_binding {names : List String} {ty : Ty} {line : Line} :
    ∀ e ∈ Stmt.varEntries names ty line, e.header? = none := by
  intro e he
  obtain ⟨x, -, rfl⟩ := List.mem_map.mp he
  rfl

theorem paramEntries_binding {h : Header} : ∀ e ∈ h.paramEntries, e.header? = none := by
  intro e he
  obtain ⟨p, -, rfl⟩ := List.mem_map.mp he
  rfl

section
variable {t u v : Table}

/-- What is declared in a scope of its own is gone with it, functions apart. -/
theorem Grows.close {vs : List Entry} {hs : List Header} (ht : 0 < t.depth)
    (h : Grows t.openScope.scopes vs hs u.scopes) (hv : u.closeScope = .ok v) :
    Grows t.scopes [] hs v.scopes := by
  obtain ⟨s, hs, -⟩ := Table.closeScope_ok.mp hv
  obtain ⟨s', us, heq, -, h⟩ := h.tail (List.ne_nil_of_length_pos ht)
  rw [hs] at heq
  cases heq
  exact h

theorem Passes.grows {w : Task} (h : Passes t w u) (ht : 0 < t.depth) :
    Grows t.scopes w.entries (t.newHeaders w.headers) u.scopes := by
  induction h with
  | assign | skip | exit | ret | brk | cont | proc | nil | noBranch => exact .refl
  | cond _ _ hv ih | branch _ _ hv ih =>
    have := (ih (Nat.succ_pos _)).close ht hv
    rw [Table.newHeaders_openScope] at this
    exact this
  | @loop t u v label body line _ hv ih =>
    have := (ih (Nat.succ_pos _)).close (t := t.openLoop) ht hv
    rw [Table.newHeaders_openScope, Table.newHeaders_openLoop] at this
    exact this
  | define _ ih => exact ih ht
  | declare hg hn hd => exact (Table.Knows.now hg hd).grows
  | vars _ _ hd => exact Table.declareAll_grows varEntries_binding hd
  | cons h _ ih ihs | consBranch h _ ih ihs =>
    have ih := ih ht
    have := ih.trans (ihs (h.depth.1 ▸ ht))
    rw [← Table.newHeaders_append ih.function?] at this
    exact this
  | @definition t u v w x header body line _ hk hp _ hx ih =>
    have hu : 0 < u.depth := hk.depth.1 ▸ ht
    -- parameters bring no function, so the body meets the same new ones as outside
    have hgp : Grows u.openScope.scopes header.paramEntries (u.openScope.newHeaders []) v.scopes :=
      Table.declareAll_grows paramEntries_binding hp
    have hbody := (hgp.trans (ih (Table.openScope_declareAll_pos hp))).close hu hx
    rw [← Table.newHeaders_append hgp.function?, Table.newHeaders_openScope] at hbody
    have := hk.grows.trans hbody
    rw [← Table.newHeaders_append hk.grows.function?] at this
    exact this

end

/-! ## After a check that stops -/

/-- The number of scopes an open construct keeps open. -/
def Opening.scopes : Opening → Nat
  | .condition => 1
  | .branch => 2
  | .loop => 1
  | .call => 1
  | .definition => 1

def openScopes : List Opening → Nat
  | [] => 0
  | o :: path => o.scopes + openScopes path

/-- The scope that a conditional opens round its branches. -/
def Task.outerScopes : Task → Nat
  | .branch _ | .branches _ => 1
  | _ => 0

/-- Bound as a variable, neither a parameter nor a constant. -/
def Entry.IsVariable (e : Entry) : Prop :=
  ∃ ty, e.meaning = .binding ty .plain

section
variable {t u : Table} {f : Fault}

theorem varEntries_variable {names : List String} {ty : Ty} {line : Line} :
    ∀ e ∈ Stmt.varEntries names ty line, e.IsVariable := by
  intro e he
  obtain ⟨x, -, rfl⟩ := List.mem_map.mp he
  exact ⟨ty, rfl⟩

theorem Stmt.entries_variable {s : Stmt} : ∀ e ∈ s.entries, e.IsVariable := by
  intro e he
  unfold Stmt.entries at he
  split at he
  · exact varEntries_variable e he
  · cases he

theorem Stops.depth {w : Task} {path : List Opening} (h : Stops t w path f u) :
    u.depth + w.outerScopes = t.depth + openScopes path ∧
      u.loopDepth = t.loopDepth + path.count .loop := by
  induction h with
  | assign | ret | brk | cont | emptyCond | declared | unnamedHeader | declare | emptyVars | unnamed | register =>
    exact ⟨rfl, rfl⟩
  | condition => exact ⟨rfl, rfl⟩
  | proc => exact ⟨rfl, rfl⟩
  | cond _ _ ih =>
    simp only [Task.outerScopes, Table.openScope_depth, Table.openScope_loopDepth] at ih ⊢
    omega
  | loop _ ih =>
    simp only [Task.outerScopes, Table.openScope_depth, Table.openLoop_depth, Table.openScope_loopDepth,
      Table.openLoop_loopDepth, openScopes, Opening.scopes, List.count_cons_self] at ih ⊢
    omega
  | define _ ih | head _ ih => exact ih
  | vars _ _ _ hd _ => exact Table.declareAll_depth hd
  | tail h _ ih | tailBranch h _ ih => exact ⟨ih.1.trans (by rw [h.depth.1]), ih.2.trans (by rw [h.depth.2])⟩
  | branch _ _ ih =>
    simp only [Task.outerScopes, Table.openScope_depth, Table.openScope_loopDepth, openScopes, Opening.scopes] at ih ⊢
    exact ⟨by omega, by simpa using ih.2⟩
  | headBranch _ ih => exact ih
  | params _ hk _ hd _ =>
    have hd := Table.declareAll_depth hd
    rw [Table.openScope_depth, Table.openScope_loopDepth, hk.depth.1, hk.depth.2] at hd
    exact hd
  | definition _ hk hp _ ih =>
    have hd := Table.declareAll_depth hp
    rw [Table.openScope_depth, Table.openScope_loopDepth, hk.depth.1, hk.depth.2] at hd
    simp only [Task.outerScopes, openScopes, Opening.scopes] at ih ⊢
    exact ⟨by omega, by simpa [hd.2] using ih.2⟩

/-- The second stack is the first one, grown by variables and functions, under
scopes that hold no function. -/
def Leaves (ss us : List Scope) : Prop :=
  ∃ extra lower vs hs, us = extra ++ lower ∧ (∀ s ∈ extra, ∀ x, s.function? x = none) ∧
    (∀ e ∈ vs, e.IsVariable) ∧ Grows ss vs hs lower

namespace Leaves

variable {ss ms us : List Scope} {vs : List Entry} {hs : List Header}

theorem refl (ss : List Scope) : Leaves ss ss :=
  ⟨[], ss, [], [], rfl, by simp, by simp, .refl⟩

theorem of_grows (hg : Grows ss vs hs us) (hv : ∀ e ∈ vs, e.IsVariable) : Leaves ss us :=
  ⟨[], us, vs, hs, rfl, by simp, hv, hg⟩

theorem after (hg : Grows ss vs hs ms) (hv : ∀ e ∈ vs, e.IsVariable) (h : Leaves ms us) : Leaves ss us := by
  obtain ⟨extra, lower, vs', hs', hu, hf, hv', hg'⟩ := h
  refine ⟨extra, lower, vs ++ vs', hs ++ hs', hu, hf, ?_, hg.trans hg'⟩
  intro e he
  rcases List.mem_append.mp he with he | he
  · exact hv e he
  · exact hv' e he

/-- Of a scope opened on the way, nothing but its functions reaches the stack. -/
theorem inner (hne : ss ≠ []) (hg : Grows (.empty :: ss) vs hs ms) (h : Leaves ms us) : Leaves ss us := by
  obtain ⟨extra, lower, vs', hs', rfl, hf, -, hg'⟩ := h
  have hall := hg.trans hg'
  obtain ⟨s, outer, rfl, hs, ho⟩ := hall.tail hne
  refine ⟨extra ++ [s], outer, [], _, by simp, ?_, by simp, ho⟩
  intro s' hm x
  rcases List.mem_append.mp hm with hm | hm
  · exact hf s' hm x
  · rw [List.mem_singleton.mp hm, Scope.function?, hs.lookup, Scope.find?_empty, Option.none_or]
    cases he : (vs ++ vs').find? fun e => e.name = x with
    | none => rfl
    | some e => exact hall.bindings e (List.mem_of_find?_eq_some he)

theorem function? (h : Leaves ss us) {x : String} {g : Header}
    (hx : ss.findSome? (fun s => s.function? x) = some g) : us.findSome? (fun s => s.function? x) = some g := by
  obtain ⟨extra, lower, vs, hs, rfl, hf, -, hg⟩ := h
  have hextra : extra.findSome? (fun s => s.function? x) = none := by
    simpa using fun s hs => hf s hs x
  rw [List.findSome?_append, hextra, Option.none_or, hg.function?, hx, Option.some_or]

end Leaves

theorem Stops.leaves {w : Task} {path : List Opening} (h : Stops t w path f u) (ht : 0 < t.depth) :
    Leaves t.scopes u.scopes := by
  induction h with
  | assign | ret | brk | cont | emptyCond | declared | unnamedHeader | declare | emptyVars | unnamed | register =>
    exact .refl _
  | condition => exact .refl _
  | proc => exact .inner (List.ne_nil_of_length_pos ht) .refl (.refl _)
  | cond _ _ ih | loop _ ih | branch _ _ ih =>
    exact .inner (List.ne_nil_of_length_pos ht) .refl (ih (Nat.succ_pos _))
  | define _ ih | head _ ih | headBranch _ ih => exact ih ht
  | vars _ _ hes hd _ =>
    have hmem : ∀ {e}, e ∈ _ → e ∈ Stmt.varEntries _ _ _ := fun he => hes ▸ List.mem_append_left _ he
    exact .of_grows (Table.declareAll_grows (fun e he => varEntries_binding e (hmem he)) hd)
      fun e he => varEntries_variable e (hmem he)
  | tail h _ ih => exact .after (h.grows ht) Stmt.entries_variable (ih (h.depth.1 ▸ ht))
  | tailBranch h _ ih => exact .after (h.grows ht) (by simp [Task.entries]) (ih (h.depth.1 ▸ ht))
  | params _ hk hes hd _ =>
    have hu := hk.depth.1 ▸ ht
    have hmem : ∀ {e}, e ∈ _ → e ∈ Header.paramEntries _ := fun he => hes ▸ List.mem_append_left _ he
    have hg := Table.declareAll_grows (fun e he => paramEntries_binding e (hmem he)) hd
    exact .after hk.grows (by simp) (.inner (List.ne_nil_of_length_pos hu) hg (.refl _))
  | definition _ hk hp _ ih =>
    have hu := hk.depth.1 ▸ ht
    have hg := Table.declareAll_grows paramEntries_binding hp
    have hb := ih (Table.openScope_declareAll_pos hp)
    exact .after hk.grows (by simp) (.inner (List.ne_nil_of_length_pos hu) hg hb)

end

/-! ## Main results -/

section
variable {t : Table} {p : List Stmt} {f : Fault}

/-- **The table after a check that passes.** As many scopes and loops are open as
before. The innermost scope has gained the variables declared in the list itself,
the global one the first function of each name that was not one, and there is no
other change. -/
theorem checkAll_ok_table (ht : 0 < t.depth) (h : ((Stmt.checkAll p).run t).result = .ok ()) :
    ((Stmt.checkAll p).run t).table.depth = t.depth ∧
    ((Stmt.checkAll p).run t).table.loopDepth = t.loopDepth ∧
    ∃ hs, t.Grown (p.flatMap Stmt.entries) hs ((Stmt.checkAll p).run t).table ∧
      ∀ h, h ∈ hs ↔ t.function? h.name = none ∧
        (Stmt.headersAll p).find? (fun g => g.name = h.name) = some h := by
  have hp : Passes t (.block p) ((Stmt.checkAll p).run t).table := passes_of_yields ⟨h, rfl⟩
  refine ⟨hp.depth.1, hp.depth.2, t.newHeaders (Stmt.headersAll p), ?_, fun h => ?_⟩
  · exact Table.grown_of_grows (hp.grows ht) (List.nil_append _).symm
  · rw [Table.newHeaders, mem_firstHeaders]
    simp

/-- Functions in a loop, in a branch and in each other, one name twice. -/
def nested : Program :=
  [.vars ["x", "y"] .int 1,
   .loop none
    [.define (.make "f" none [.ofNames ["a"] .int true] 3)
      [.vars ["x"] .byte 4, .declare (.make "g" (some .int) [] 5)]] 2,
   .cond [⟨none, [.define (.make "f" (some .byte) [] 7) [], .vars ["z"] .bool 8], 6⟩] 6]

theorem checkAll_ok_table_nested :
    0 < Table.standard.openScope.depth ∧
    ((Stmt.checkAll nested).run Table.standard.openScope).result = .ok () ∧
    ((Stmt.checkAll nested).run Table.standard.openScope).table.depth = Table.standard.openScope.depth ∧
    ((Stmt.checkAll nested).run Table.standard.openScope).table.loopDepth = Table.standard.openScope.loopDepth ∧
    ∃ hs, Table.standard.openScope.Grown (nested.flatMap Stmt.entries) hs
        ((Stmt.checkAll nested).run Table.standard.openScope).table ∧
      ∀ h, h ∈ hs ↔ Table.standard.openScope.function? h.name = none ∧
        (Stmt.headersAll nested).find? (fun g => g.name = h.name) = some h :=
  ⟨by decide, rfl, checkAll_ok_table (by decide) rfl⟩

/-- **The table after a check that stops.** There is one list of constructs that
are open at the fault, and they account for the scopes and loops that stay open.
Below those stands the table from before, with nothing lost: its innermost scope
has gained variables, its global one functions, and what was a function still is
the same one. -/
theorem checkAll_error_table (ht : 0 < t.depth) (h : ((Stmt.checkAll p).run t).result = .error f) :
    ∃ path, (∀ path', Stops t (.block p) path' f ((Stmt.checkAll p).run t).table ↔ path' = path) ∧
      ((Stmt.checkAll p).run t).table.depth = t.depth + openScopes path ∧
      ((Stmt.checkAll p).run t).table.loopDepth = t.loopDepth + path.count .loop ∧
      (∃ vs hs, (∀ e ∈ vs, e.IsVariable) ∧ t.Grown vs hs ((Stmt.checkAll p).run t).table) ∧
      (∀ i s, t.level? i = some s → ∃ s', ((Stmt.checkAll p).run t).table.level? i = some s' ∧
        ∀ x e, s.find? x = some e → s'.find? x = some e) ∧
      ∀ x g, t.function? x = some g → ((Stmt.checkAll p).run t).table.function? x = some g := by
  obtain ⟨path, hp⟩ := stops_of_faults (w := .block p) ⟨h, rfl⟩
  have hl := hp.leaves ht
  obtain ⟨extra, lower, vs, hs, hu, -, hv, hg⟩ := hl
  have hgrown : t.Grown vs hs _ := Table.grown_of_grows hg hu
  exact ⟨path, fun path' => ⟨hp.path_unique, fun e => e ▸ hp⟩, hp.depth.1, hp.depth.2, ⟨vs, hs, hv, hgrown⟩,
    fun i s hi => hgrown.found hi, fun x g hx => (hp.leaves ht).function? hx⟩

/-- The fault stands in a branch, in a function, in a loop. -/
def stuck : Program :=
  [.vars ["x"] .int 1,
   .loop none
    [.define (.make "f" none [.ofNames ["a"] .int true] 3)
      [.cond [⟨none, [.assign (.var "b" 5) (.const 0 5) 5], 4⟩] 4]] 2]

theorem checkAll_error_table_stuck :
    0 < Table.standard.openScope.depth ∧
    ((Stmt.checkAll stuck).run Table.standard.openScope).result = .error ⟨.undeclaredVariable "b", 5⟩ ∧
    ∃ path, (∀ path', Stops Table.standard.openScope (.block stuck) path' ⟨.undeclaredVariable "b", 5⟩
        ((Stmt.checkAll stuck).run Table.standard.openScope).table ↔ path' = path) ∧
      ((Stmt.checkAll stuck).run Table.standard.openScope).table.depth =
        Table.standard.openScope.depth + openScopes path ∧
      ((Stmt.checkAll stuck).run Table.standard.openScope).table.loopDepth =
        Table.standard.openScope.loopDepth + path.count .loop := by
  refine ⟨by decide, rfl, ?_⟩
  obtain ⟨path, hp, hd, hl, -⟩ := checkAll_error_table (t := Table.standard.openScope) (p := stuck) (by decide) rfl
  exact ⟨path, hp, hd, hl⟩

end

end Dana
