import Dana.Proofs.State
import Dana.Proofs.Typing

/-!
# Programs by rule

The rules for statements. A context changes by the text alone: the variables of a
statement are added to the frame it stands in, a body has a frame of its own that
ends with it, and a function is known from its header on, wherever that stands.
The checker keeps one table instead. `Table.Matches` says that the two agree, and
each change of the table has a change of the context that keeps it.
-/

namespace Dana

/-! ## Contexts -/

def Frame.bind (fr : Frame) (x : String) (ty : Ty) : Frame :=
  fun y => if x = y then some ty else fr y

/-- The variables that a statement declares in the scope it stands in. -/
def Stmt.declared : Stmt → List (String × Ty)
  | ⟨.vars names ty, _⟩ => names.map fun x => (x, ty)
  | _ => []

namespace Context

/-- A variable of the name may be declared. At the global level functions count
as well, for they share its names. -/
def Free (Γ : Context) (x : String) : Prop :=
  match Γ.inner with
  | [] => Γ.global x = none ∧ Γ.functions x = none
  | fr :: _ => fr x = none

def block (Γ : Context) : Context :=
  { Γ with inner := (fun _ => none) :: Γ.inner }

def bind (Γ : Context) (x : String) (ty : Ty) : Context :=
  match Γ.inner with
  | [] => { Γ with global := Γ.global.bind x ty }
  | fr :: outer => { Γ with inner := fr.bind x ty :: outer }

def bindAll (Γ : Context) (vars : List (String × Ty)) : Context :=
  vars.foldl (fun Γ v => Γ.bind v.1 v.2) Γ

/-- The functions of the headers as well. A name stays with its first function. -/
def know (Γ : Context) (hs : List Header) : Context :=
  { Γ with functions := fun x => (Γ.functions x).or (hs.find? fun h => h.name = x) }

def after (Γ : Context) (s : Stmt) : Context :=
  (Γ.bindAll s.declared).know s.headers

/-- The context of a whole program: the library and nothing else. -/
def standard : Context where
  inner := []
  global := fun _ => none
  functions x := (Builtin.find? x).map Builtin.header
  inLoop := false

end Context

/-! ## Rules -/

inductive Accepts : Context → Task → Prop
  | assign {Γ target value line τ σ} : Place.HasType Γ target τ → Expr.HasType Γ value σ →
      τ.isArray = false → σ.isArray = false → τ.kind = σ.kind → Accepts Γ (.stmt ⟨.assign target value, line⟩)
  | skip {Γ line} : Accepts Γ (.stmt ⟨.skip, line⟩)
  | exit {Γ line} : Accepts Γ (.stmt ⟨.exit, line⟩)
  | ret {Γ line} {value : Option Expr} : (∀ e ∈ value, ∃ τ, e.HasType Γ τ) → Accepts Γ (.stmt ⟨.ret value, line⟩)
  | brk {Γ label line} : Γ.inLoop = true → Accepts Γ (.stmt ⟨.brk label, line⟩)
  | cont {Γ label line} : Γ.inLoop = true → Accepts Γ (.stmt ⟨.cont label, line⟩)
  | cond {Γ bs line} : bs ≠ [] → Accepts Γ (.branches bs) → Accepts Γ (.stmt ⟨.cond bs, line⟩)
  | loop {Γ label body line} : Accepts { Γ.block with inLoop := true } (.block body) →
      Accepts Γ (.stmt ⟨.loop label body, line⟩)
  | proc {Γ call line τ} : Expr.HasType Γ call τ → Accepts Γ (.stmt ⟨.proc call, line⟩)
  | define {Γ d line} : Accepts Γ (.definition d) → Accepts Γ (.stmt ⟨.define d, line⟩)
  | declare {Γ h line} : h.name ≠ "" → Γ.functions h.name = none → Γ.global h.name = none →
      Accepts Γ (.stmt ⟨.declare h, line⟩)
  | vars {Γ names ty line} : names ≠ [] → ty.isReference = false → names.Nodup → (∀ x ∈ names, Γ.Free x) →
      Accepts Γ (.stmt ⟨.vars names ty, line⟩)
  | nil {Γ} : Accepts Γ (.block [])
  | cons {Γ s ss} : Accepts Γ (.stmt s) → Accepts (Γ.after s) (.block ss) → Accepts Γ (.block (s :: ss))
  | branch {Γ body line} {condition : Option Expr} :
      (∀ e ∈ condition, ∃ τ, e.HasType Γ τ ∧ τ.kind = .scalar .bool) → Accepts Γ.block (.block body) →
      Accepts Γ (.branch ⟨condition, body, line⟩)
  | noBranch {Γ} : Accepts Γ (.branches [])
  -- what a branch declares ends with it, functions apart
  | consBranch {Γ b bs} : Accepts Γ (.branch b) → Accepts (Γ.know b.headers) (.branches bs) →
      Accepts Γ (.branches (b :: bs))
  -- a function that is known already keeps the header it has, also in this body
  | definition {Γ header body line} : header.name ≠ "" →
      (Γ.functions header.name = none → Γ.global header.name = none) →
      (header.formals.map Prod.fst).Nodup →
      Accepts ((Γ.know [header]).block.bindAll header.formals) (.block body) →
      Accepts Γ (.definition ⟨header, body, line⟩)

/-! ## Tables and contexts -/

namespace Table

/-- Names mean in the table what they mean in the context, and the global scope
has room for the same functions. -/
structure Sees (t : Table) (Γ : Context) : Prop where
  depth : 0 < t.depth
  types : ∀ x, t.env.type? x = Γ.type? x
  functions : ∀ x, t.function? x = Γ.functions x
  global : ∀ x, t.findGlobal? x = none ↔ Γ.global x = none ∧ Γ.functions x = none
  inLoop : t.inLoop = Γ.inLoop

/-- The innermost scope is that of the context as well. -/
structure Matches (t : Table) (Γ : Context) : Prop extends t.Sees Γ where
  sole : t.depth = 1 ↔ Γ.inner = []
  innermost : ∀ x, t.findInnermost? x = none ↔ Γ.Free x

end Table

namespace Context

variable {Γ : Context} {x y : String} {ty : Ty} {hs hs' : List Header}

@[simp] theorem type?_block : Γ.block.type? x = Γ.type? x := by
  simp [type?, block]

theorem type?_bind : (Γ.bind x ty).type? y = if x = y then some ty else Γ.type? y := by
  unfold bind type?
  cases h : Γ.inner with
  | nil => by_cases hx : x = y <;> simp [Frame.bind, hx]
  | cons fr outer => by_cases hx : x = y <;> simp [Frame.bind, hx, List.findSome?_cons]

theorem type?_know : (Γ.know hs).type? x =
    (Γ.type? x).or ((hs.find? fun h => h.name = x).map Header.resultType) := by
  simp only [type?, know, Option.or_assoc]
  cases Γ.functions x <;> simp

@[simp] theorem functions_bind : (Γ.bind x ty).functions = Γ.functions := by
  unfold bind
  split <;> rfl

@[simp] theorem inLoop_bind : (Γ.bind x ty).inLoop = Γ.inLoop := by
  unfold bind
  split <;> rfl

theorem inner_bind_eq_nil : (Γ.bind x ty).inner = [] ↔ Γ.inner = [] := by
  unfold bind
  split <;> simp_all

theorem free_bind : (Γ.bind x ty).Free y ↔ x ≠ y ∧ Γ.Free y := by
  unfold bind Free
  cases h : Γ.inner with
  | nil => by_cases hx : x = y <;> simp [Frame.bind, hx]
  | cons fr outer => by_cases hx : x = y <;> simp [Frame.bind, hx]

theorem free_of_sole (h : Γ.inner = []) : Γ.Free x ↔ Γ.global x = none ∧ Γ.functions x = none := by
  simp [Free, h]

theorem global_bind (h : Γ.inner ≠ []) : (Γ.bind x ty).global = Γ.global := by
  unfold bind
  split
  · exact absurd ‹_› h
  · rfl

@[simp] theorem know_nil : Γ.know [] = Γ := by simp [know]

theorem know_know : (Γ.know hs).know hs' = Γ.know (hs ++ hs') := by
  simp [know, List.find?_append, Option.or_assoc]

theorem know_bind : (Γ.know hs).bind x ty = (Γ.bind x ty).know hs := by
  unfold bind know
  cases Γ.inner <;> rfl

@[simp] theorem bindAll_nil : Γ.bindAll [] = Γ := rfl

theorem bindAll_concat {vars : List (String × Ty)} : Γ.bindAll (vars ++ [(x, ty)]) = (Γ.bindAll vars).bind x ty := by
  simp [bindAll]

theorem functions_bindAll {vars : List (String × Ty)} : (Γ.bindAll vars).functions = Γ.functions := by
  induction vars generalizing Γ with
  | nil => rfl
  | cons v vars ih => exact ih.trans functions_bind

end Context

/-! ## Changes of the table, changes of the context -/

namespace Table

variable {t u : Table} {Γ : Context}

theorem Sees.openScope (h : t.Sees Γ) : t.openScope.Sees Γ where
  depth := Nat.succ_pos _
  types := by simpa using h.types
  functions := by simpa using h.functions
  global x := by rw [findGlobal?_openScope h.depth]; exact h.global x
  inLoop := h.inLoop

theorem Sees.block (h : t.Sees Γ) : t.openScope.Matches Γ.block where
  depth := Nat.succ_pos _
  types := by simpa using h.types
  functions x := by rw [function?_openScope]; exact h.functions x
  global x := by rw [findGlobal?_openScope h.depth]; exact h.global x
  inLoop := h.inLoop
  sole := by
    have := h.depth
    simp only [openScope_depth, Context.block, reduceCtorEq, iff_false]
    omega
  innermost x := by simp [Context.Free, Context.block]

theorem Matches.openLoop (h : t.Matches Γ) : t.openLoop.Matches { Γ with inLoop := true } where
  depth := h.depth
  types := h.types
  functions := h.functions
  global := h.global
  inLoop := by simp [Table.inLoop, Table.openLoop]
  sole := h.sole
  innermost := h.innermost

theorem Matches.declare {e : Entry} (h : t.Matches Γ) (he : e.header? = none) (hd : t.declare e = .ok u) :
    u.Matches (Γ.bind e.name e.type) where
  depth := (declare_depth hd).1 ▸ h.depth
  types x := by
    have ht : (t.find? x).map Entry.type = Γ.type? x := h.types x
    simp only [env, find?_declare hd, Context.type?_bind, ← ht]
    by_cases hx : e.name = x <;> simp [hx]
  functions x := by rw [function?_declare he hd, Context.functions_bind]; exact h.functions x
  global x := by
    by_cases h1 : t.depth = 1
    · -- the one scope is the innermost as well
      have hin : (Γ.bind e.name e.type).inner = [] := Context.inner_bind_eq_nil.mpr (h.sole.mp h1)
      rw [findGlobal?_of_sole ((declare_depth hd).1.trans h1), ← Context.free_of_sole hin,
        findInnermost?_declare hd, Context.free_bind, ← h.innermost]
      by_cases hx : e.name = x <;> simp [hx]
    · have hpos := h.depth
      rw [findGlobal?_declare hd (by omega), Context.global_bind fun hin => h1 (h.sole.mpr hin),
        Context.functions_bind]
      exact h.global x
  inLoop := by
    rw [Context.inLoop_bind, ← h.inLoop, Table.inLoop, Table.inLoop, (declare_depth hd).2]
  sole := by rw [(declare_depth hd).1, Context.inner_bind_eq_nil]; exact h.sole
  innermost x := by
    rw [findInnermost?_declare hd, Context.free_bind, ← h.innermost]
    by_cases hx : e.name = x <;> simp [hx]

theorem Sees.register {g : Header} (h : t.Sees Γ) (hd : t.declareGlobal (.ofHeader g) = .ok u) :
    u.Sees (Γ.know [g]) where
  depth := (declareGlobal_depth hd).1 ▸ h.depth
  types x := by
    have ht : (t.find? x).map Entry.type = Γ.type? x := h.types x
    simp only [env, find?_declareGlobal hd, Context.type?_know, ← ht]
    cases t.find? x with
    | some e => simp
    | none => by_cases hx : g.name = x <;> simp [Entry.ofHeader, Entry.type, hx]
  functions x := by
    rw [function?_declareGlobal hd, h.functions]
    by_cases hx : g.name = x <;> simp [Context.know, hx]
  global x := by
    have hg := h.global x
    rw [findGlobal?_declareGlobal hd]
    by_cases hx : g.name = x <;> simp [Entry.ofHeader, Context.know, hx, hg]
  inLoop := by
    have := (declareGlobal_depth hd).2
    simpa [Table.inLoop, this, Context.know] using h.inLoop

theorem Matches.register {g : Header} (h : t.Matches Γ) (hd : t.declareGlobal (.ofHeader g) = .ok u) :
    u.Matches (Γ.know [g]) where
  toSees := h.toSees.register hd
  sole := by rw [(declareGlobal_depth hd).1]; exact h.sole
  innermost x := by
    by_cases h1 : t.depth = 1
    · have hin : (Γ.know [g]).inner = [] := h.sole.mp h1
      rw [← findGlobal?_of_sole ((declareGlobal_depth hd).1.trans h1), Context.free_of_sole hin]
      exact (h.toSees.register hd).global x
    · have hpos := h.depth
      rw [findInnermost?_declareGlobal hd (by omega), h.innermost]
      have hin : Γ.inner ≠ [] := fun hin => h1 (h.sole.mpr hin)
      obtain ⟨fr, outer, hin⟩ := List.exists_cons_of_ne_nil hin
      simp [Context.Free, Context.know, hin]

/-- The headers that the table has already make no difference to the context. -/
theorem know_newHeaders {hs : List Header} (h : ∀ x, t.function? x = Γ.functions x) :
    Γ.know (t.newHeaders hs) = Γ.know hs := by
  unfold Context.know newHeaders
  congr 1
  funext x
  rw [find?_firstHeaders, h]
  cases Γ.functions x <;> simp

theorem Sees.grows {hs : List Header} {us : List Scope} (h : t.Sees Γ) (hg : Grows t.scopes [] hs us) :
    Sees ⟨us, t.loopDepth⟩ (Γ.know hs) := by
  generalize hv : ([] : List Entry) = vs at hg
  induction hg with
  | refl => simpa using h
  | bind => simp at hv
  | register hg hn ih =>
    rw [← Context.know_know]
    exact (ih hv).register (declareGlobal_ok.mpr ⟨_, _, rfl, hn, rfl⟩)

theorem Matches.grows {hs : List Header} {us : List Scope} {vs : List Entry} (h : t.Matches Γ)
    (hg : Grows t.scopes vs hs us) :
    Matches ⟨us, t.loopDepth⟩ ((Γ.bindAll (vs.map fun e => (e.name, e.type))).know hs) := by
  induction hg with
  | refl => simpa using h
  | bind _ he hn ih =>
    rw [List.map_append, List.map_singleton, Context.bindAll_concat, ← Context.know_bind]
    exact ih.declare he (declare_ok.mpr ⟨_, _, rfl, hn, rfl⟩)
  | register hg hn ih =>
    rw [← Context.know_know]
    exact ih.register (declareGlobal_ok.mpr ⟨_, _, rfl, hn, rfl⟩)

end Table

end Dana
