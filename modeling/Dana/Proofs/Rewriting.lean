import Dana.Proofs.Parallel
import Dana.Proofs.Typing

/-!
# Rewriting the data of a program

A rewriting changes lines, literals, labels, types and headers of a program, and leaves
its form and its names. A simulation says how entries, headers, faults and records of
the two programs are related. Where there is one, the two are checked alike
(`Simulation.runs_check`).
-/

namespace Dana

structure Rewriting where
  line : Line → Line := id
  const : Int32 → Int32 := id
  hex : Int32 → Int32 := id
  bool : Bool → Bool := id
  /-- The text of string literals. -/
  text : String → String := id
  label : Option String → Option String := id
  /-- The sizes of arrays. -/
  size : Option UInt32 → Option UInt32 := id
  header : Header → Header := id

/-- The type with other sizes. -/
def Ty.resize (f : Option UInt32 → Option UInt32) : Ty → Ty
  | .scalar s => .scalar s
  | .array elem size => .array (elem.resize f) (f size)
  | .reference base => .reference (base.resize f)

/-! ## Programs -/

section
variable (φ : Rewriting)

mutual

def Expr.rewrite : Expr → Expr
  | ⟨form, line⟩ => ⟨form.rewrite, φ.line line⟩
termination_by structural e => e

def ExprForm.rewrite : ExprForm → ExprForm
  | .const value => .const (φ.const value)
  | .hex value => .hex (φ.hex value)
  | .bool value => .bool (φ.bool value)
  | .place p => .place p.rewrite
  | .call c => .call c.rewrite
  | .not operand => .not (Expr.rewrite? operand)
  | .arith op left right => .arith op (Expr.rewrite? left) (Expr.rewrite? right)
  | .rel op left right => .rel op (Expr.rewrite? left) (Expr.rewrite? right)
  | .logic op left right => .logic op (Expr.rewrite? left) (Expr.rewrite? right)
termination_by structural form => form

def Place.rewrite : Place → Place
  | ⟨ident, indices, isString, line⟩ =>
    ⟨⟨if isString then φ.text ident.name else ident.name, φ.line ident.line⟩, Expr.rewriteAll indices, isString,
      φ.line line⟩
termination_by structural p => p

def Call.rewrite : Call → Call
  | ⟨callee, args, line⟩ => ⟨⟨callee.name, φ.line callee.line⟩, Expr.rewriteAll args, φ.line line⟩
termination_by structural c => c

def Expr.rewrite? : Option Expr → Option Expr
  | none => none
  | some e => some e.rewrite
termination_by structural o => o

def Expr.rewriteAll : List Expr → List Expr
  | [] => []
  | e :: es => e.rewrite :: Expr.rewriteAll es
termination_by structural es => es

end

mutual

def Stmt.rewrite : Stmt → Stmt
  | ⟨form, line⟩ => ⟨form.rewrite, φ.line line⟩
termination_by structural s => s

def StmtForm.rewrite : StmtForm → StmtForm
  | .assign target value => .assign (target.rewrite φ) (value.rewrite φ)
  | .skip => .skip
  | .exit => .exit
  | .ret value => .ret (Expr.rewrite? φ value)
  | .brk label => .brk (φ.label label)
  | .cont label => .cont (φ.label label)
  | .cond branches => .cond (Branch.rewriteAll branches)
  | .loop label body => .loop (φ.label label) (Stmt.rewriteAll body)
  | .proc call => .proc (call.rewrite φ)
  | .define d => .define d.rewrite
  | .declare h => .declare (φ.header h)
  | .vars names ty => .vars names (ty.resize φ.size)
termination_by structural form => form

def Branch.rewrite : Branch → Branch
  | ⟨condition, body, line⟩ => ⟨Expr.rewrite? φ condition, Stmt.rewriteAll body, φ.line line⟩
termination_by structural b => b

def Definition.rewrite : Definition → Definition
  | ⟨header, body, line⟩ => ⟨φ.header header, Stmt.rewriteAll body, φ.line line⟩
termination_by structural d => d

def Stmt.rewriteAll : List Stmt → List Stmt
  | [] => []
  | s :: ss => s.rewrite :: Stmt.rewriteAll ss
termination_by structural ss => ss

def Branch.rewriteAll : List Branch → List Branch
  | [] => []
  | b :: bs => b.rewrite :: Branch.rewriteAll bs
termination_by structural bs => bs

end

def Task.rewrite : Task → Task
  | .stmt s => .stmt (s.rewrite φ)
  | .block ss => .block (Stmt.rewriteAll φ ss)
  | .branch b => .branch (b.rewrite φ)
  | .branches bs => .branches (Branch.rewriteAll φ bs)
  | .definition d => .definition (d.rewrite φ)

end

/-- The cause with other types in it. -/
def Cause.mapTypes (f : Ty → Ty) : Cause → Cause
  | .argumentType function param expected got => .argumentType function param (f expected) (f got)
  | .typeMismatch context expected got => .typeMismatch context (f expected) (f got)
  | .conditionType got => .conditionType (f got)
  | .indexType name got => .indexType name (f got)
  | c => c

def Fault.rewrite (φ : Rewriting) (f : Fault) : Fault :=
  ⟨f.cause.mapTypes (Ty.resize φ.size), φ.line f.line⟩

/-! ## Types -/

theorem Cause.mapTypes_id (c : Cause) : c.mapTypes id = c := by
  cases c <;> rfl

namespace Ty

variable (f : Option UInt32 → Option UInt32) (τ σ : Ty)

@[simp] theorem resize_id : τ.resize id = τ := by
  induction τ with
  | scalar s => rfl
  | array elem size ih => rw [resize, ih, id]
  | reference base ih => rw [resize, ih]

@[simp] theorem kind_resize : (τ.resize f).kind = τ.kind := by
  induction τ with
  | scalar s => rfl
  | array elem size => rfl
  | reference base ih => exact ih

@[simp] theorem agrees_resize : (τ.resize f).agrees (σ.resize f) = τ.agrees σ := by
  simp [agrees]

@[simp] theorem deref_resize : (τ.resize f).deref = τ.deref.resize f := by
  cases τ <;> rfl

@[simp] theorem isReference_resize : (τ.resize f).isReference = τ.isReference := by
  cases τ <;> rfl

@[simp] theorem isArray_resize : (τ.resize f).isArray = τ.isArray := by
  unfold isArray
  rw [deref_resize]
  cases τ.deref <;> rfl

end Ty

theorem Fault.rewrite_eq_self {φ : Rewriting} (hsize : φ.size = id) (hline : φ.line = id) (f : Fault) :
    f.rewrite φ = f := by
  have hresize : Ty.resize id = id := funext Ty.resize_id
  unfold rewrite
  rw [hsize, hline, hresize, f.cause.mapTypes_id]
  rfl

/-! ## Tables entry by entry -/

/-- The scopes have related entries in the same places. -/
def Scope.Paired (E : Entry → Entry → Prop) (s s' : Scope) : Prop :=
  List.Forall₂ E s.entries s'.entries

structure Table.Paired (E : Entry → Entry → Prop) (t t' : Table) : Prop where
  scopes : List.Forall₂ (Scope.Paired E) t.scopes t'.scopes
  loopDepth : t.loopDepth = t'.loopDepth

def Scope.mapEntries (f : Entry → Entry) (s : Scope) : Scope :=
  ⟨s.entries.map f⟩

def Table.mapEntries (f : Entry → Entry) (t : Table) : Table where
  scopes := t.scopes.map (Scope.mapEntries f)
  loopDepth := t.loopDepth

theorem Table.mapEntries_id (t : Table) : t.mapEntries id = t := by
  have hscope : Scope.mapEntries id = id := by
    funext s
    rw [Scope.mapEntries, List.map_id]
    rfl
  rw [mapEntries, hscope, List.map_id]

theorem Scope.paired_iff {f g : Entry → Entry} {s s' : Scope} :
    s.Paired (fun e e' => f e = g e') s' ↔ s.mapEntries f = s'.mapEntries g := by
  unfold Paired mapEntries
  rw [Scope.mk.injEq, ← List.forall₂_eq_eq_eq, List.forall₂_map_left_iff, List.forall₂_map_right_iff]

theorem Table.paired_iff {f g : Entry → Entry} {t t' : Table} :
    t.Paired (fun e e' => f e = g e') t' ↔ t.mapEntries f = t'.mapEntries g := by
  have hpaired : Scope.Paired (fun e e' => f e = g e') = fun s s' => s.mapEntries f = s'.mapEntries g := by
    funext s s'
    exact propext Scope.paired_iff
  unfold mapEntries
  rw [Table.mk.injEq, ← List.forall₂_eq_eq_eq, List.forall₂_map_left_iff, List.forall₂_map_right_iff, ← hpaired]
  constructor
  · intro h
    exact ⟨h.scopes, h.loopDepth⟩
  · intro h
    exact ⟨h.1, h.2⟩

section
variable {E : Entry → Entry → Prop} {t t' : Table}

theorem Table.Paired.depth (h : t.Paired E t') : t.depth = t'.depth :=
  h.scopes.length_eq

theorem Table.Paired.openScope (h : t.Paired E t') : t.openScope.Paired E t'.openScope :=
  ⟨.cons .nil h.scopes, h.loopDepth⟩

theorem Table.Paired.openLoop (h : t.Paired E t') : t.openLoop.Paired E t'.openLoop :=
  ⟨h.scopes, congrArg (· + 1) h.loopDepth⟩

theorem Table.Paired.closeLoop (h : t.Paired E t') : t.closeLoop.Paired E t'.closeLoop :=
  ⟨h.scopes, congrArg (· - 1) h.loopDepth⟩

section
variable (htext : ∀ e e', E e e' → e'.text = e.text)
include htext

theorem Scope.Paired.text {s s' : Scope} (h : s.Paired E s') : s'.text = s.text := by
  have hlines : s.entries.map (fun e => e.text ++ "\n") = s'.entries.map fun e => e.text ++ "\n" := by
    rw [← List.forall₂_eq_eq_eq, List.forall₂_map_left_iff, List.forall₂_map_right_iff]
    exact h.imp fun e e' he => by rw [htext e e' he]
  unfold Scope.text
  rw [hlines]

theorem Table.Paired.innermostText (h : t.Paired E t') : t'.innermostText = t.innermostText := by
  have hs := h.scopes
  unfold Table.innermostText
  generalize t.scopes = ss, t'.scopes = ss' at hs ⊢
  cases hs with
  | nil => rfl
  | cons hs _ => simp only [hs.text htext]

theorem Table.Paired.text (h : t.Paired E t') : t'.text = t.text := by
  have hlevels : ∀ {ss ss' : List Scope}, List.Forall₂ (Scope.Paired E) ss ss' → ∀ level,
      levelsText level ss' = levelsText level ss := by
    intro ss ss' hs
    induction hs with
    | nil => exact fun _ => rfl
    | cons hs _ ih =>
      intro level
      rw [levelsText, levelsText, hs.text htext, ih]
  unfold Table.text
  rw [hlevels (List.forall₂_reverse_iff.mpr h.scopes)]

end

variable (hname : ∀ e e', E e e' → e'.name = e.name)
include hname

theorem Scope.Paired.find? {s s' : Scope} (h : s.Paired E s') (x : String) :
    Option.Rel E (s.find? x) (s'.find? x) := by
  unfold Scope.Paired at h
  unfold Scope.find?
  generalize s.entries = es, s'.entries = es' at h ⊢
  induction h with
  | nil => exact .none
  | @cons e e' es es' he _ ih =>
    rw [List.find?_cons, List.find?_cons, hname e e' he]
    by_cases hx : e.name = x
    · simpa [hx] using he
    · simpa [hx] using ih

theorem Scope.insertEntry_paired {e e' : Entry} (he : E e e') {es es' : List Entry} (h : List.Forall₂ E es es') :
    List.Forall₂ E (insertEntry e es) (insertEntry e' es') := by
  induction h with
  | nil => exact .cons he .nil
  | @cons f f' fs fs' hf hfs ih =>
    unfold insertEntry
    rw [hname e e' he, hname f f' hf]
    by_cases hlt : e.name < f.name
    · rw [if_pos hlt, if_pos hlt]
      exact .cons he (.cons hf hfs)
    · rw [if_neg hlt, if_neg hlt]
      exact .cons hf ih

theorem Table.Paired.find? (h : t.Paired E t') (x : String) : Option.Rel E (t.find? x) (t'.find? x) := by
  have hs := h.scopes
  unfold Table.find?
  generalize t.scopes = ss, t'.scopes = ss' at hs ⊢
  induction hs with
  | nil => exact .none
  | @cons s s' ss ss' hs _ ih =>
    have hfind := hs.find? hname x
    rw [List.findSome?_cons, List.findSome?_cons]
    generalize s.find? x = o, s'.find? x = o' at hfind ⊢
    cases hfind with
    | none => exact ih
    | some he => exact .some he

theorem Table.Paired.findInnermost? (h : t.Paired E t') (x : String) :
    Option.Rel E (t.findInnermost? x) (t'.findInnermost? x) := by
  have hs := h.scopes
  unfold Table.findInnermost?
  generalize t.scopes = ss, t'.scopes = ss' at hs ⊢
  cases hs with
  | nil => exact .none
  | cons hs _ => exact hs.find? hname x

theorem Table.Paired.function? {H : Header → Header → Prop}
    (hheader : ∀ e e', E e e' → Option.Rel H e.header? e'.header?) (h : t.Paired E t') (x : String) :
    Option.Rel H (t.function? x) (t'.function? x) := by
  have hs := h.scopes
  unfold Table.function?
  generalize t.scopes = ss, t'.scopes = ss' at hs ⊢
  induction hs with
  | nil => exact .none
  | @cons s s' ss ss' hs _ ih =>
    have hfunction : Option.Rel H (s.function? x) (s'.function? x) := by
      have hfind := hs.find? hname x
      unfold Scope.function?
      generalize s.find? x = o, s'.find? x = o' at hfind ⊢
      cases hfind with
      | none => exact .none
      | some he => exact hheader _ _ he
    rw [List.findSome?_cons, List.findSome?_cons]
    generalize s.function? x = o, s'.function? x = o' at hfunction ⊢
    cases hfunction with
    | none => exact ih
    | some hg => exact .some hg

variable {F : Fault → Fault → Prop} {e e' : Entry} (he : E e e')
  (hf : F ⟨.redeclaration e.noun e.name, e.line⟩ ⟨.redeclaration e'.noun e'.name, e'.line⟩)
include he hf

theorem Scope.Paired.declare {s s' : Scope} (h : s.Paired E s') :
    Alike F (Scope.Paired E) (s.declare e) (s'.declare e') := by
  have hfind := h.find? hname e.name
  unfold Scope.declare
  rw [hname e e' he] at hf ⊢
  generalize s.find? e.name = o, s'.find? e.name = o' at hfind ⊢
  cases hfind with
  | none => exact .ok (insertEntry_paired hname he h)
  | some _ => exact .error hf

variable (hnone : F Table.noScope Table.noScope)
include hnone

theorem Table.Paired.declare (h : t.Paired E t') : Alike F (Table.Paired E) (t.declare e) (t'.declare e') := by
  obtain ⟨ss, depth⟩ := t
  obtain ⟨ss', depth'⟩ := t'
  obtain ⟨hs, hd⟩ := h
  cases hs with
  | nil => exact .error hnone
  | cons hs hrest =>
    refine .bind (hs.declare hname he hf) fun u u' hu => .ok ?_
    exact ⟨.cons hu hrest, hd⟩

theorem Table.declareLast_paired : ∀ {ss ss' : List Scope}, List.Forall₂ (Scope.Paired E) ss ss' →
    Alike F (List.Forall₂ (Scope.Paired E)) (declareLast e ss) (declareLast e' ss')
  | _, _, .nil => .error hnone
  | _, _, .cons hs .nil => .bind (hs.declare hname he hf) fun _ _ hu => .ok (.cons hu .nil)
  | _, _, .cons hs (.cons hs' hrest) =>
    .bind (declareLast_paired (.cons hs' hrest)) fun _ _ hu => .ok (.cons hs hu)

theorem Table.Paired.declareGlobal (h : t.Paired E t') :
    Alike F (Table.Paired E) (t.declareGlobal e) (t'.declareGlobal e') := by
  refine .bind (declareLast_paired hname he hf hnone h.scopes) fun ss ss' hs => .ok ?_
  exact ⟨hs, h.loopDepth⟩

end

/-! ## Headers group by group -/

section
variable {G : Group → Group → Prop} {h h' : Header}

theorem Header.formals_forall₂ {P : String × Ty → String × Ty → Prop} (hgroups : List.Forall₂ G h.groups h'.groups)
    (hG : ∀ g g', G g g' → g'.names = g.names ∧ ∀ x, P (x, g.boundType) (x, g'.boundType)) :
    List.Forall₂ P h.formals h'.formals := by
  unfold formals
  refine List.rel_flatMap hgroups fun g g' hg => ?_
  obtain ⟨hnames, hP⟩ := hG g g' hg
  rw [hnames, List.forall₂_map_left_iff, List.forall₂_map_right_iff, List.forall₂_same]
  exact fun x _ => hP x

theorem Header.paramEntries_forall₂ {E : Entry → Entry → Prop} (hgroups : List.Forall₂ G h.groups h'.groups)
    (hG : ∀ g g', G g g' → g'.names = g.names ∧ ∀ x,
      E (.ofBinding .param x g.boundType (h.groupLine g)) (.ofBinding .param x g'.boundType (h'.groupLine g'))) :
    List.Forall₂ E h.paramEntries h'.paramEntries := by
  unfold paramEntries parameters
  rw [List.forall₂_map_left_iff, List.forall₂_map_right_iff]
  refine List.rel_flatMap hgroups fun g g' hg => ?_
  obtain ⟨hnames, hE⟩ := hG g g' hg
  rw [hnames, List.forall₂_map_left_iff, List.forall₂_map_right_iff, List.forall₂_same]
  exact fun x _ => hE x

end

/-! ## Simulations -/

/-- What is written on entering a loop. -/
def labelRecord (line : Line) : Option String → List Event
  | none => []
  | some label => [.labelledLoop label line]

/-- What does not fit the one parameter does not fit the other. -/
structure Rewriting.Param (φ : Rewriting) (F : Fault → Fault → Prop) (p p' : String × Ty) : Prop where
  name : p'.1 = p.1
  kind : p'.2.kind = p.2.kind
  fault : ∀ function got line, F ⟨.argumentType function p.1 p.2 got, line⟩
    ⟨.argumentType function p.1 p'.2 (got.resize φ.size), φ.line line⟩

/-- How what is declared, reported and written for a program is related to what is for
its rewriting. -/
structure Simulation (φ : Rewriting) where
  fault : Fault → Fault → Prop
  header : Header → Header → Prop
  entry : Entry → Entry → Prop
  journal : List Event → List Event → Prop
  size_none : φ.size none = none
  line_zero : φ.line 0 = 0
  fault_rewrite : ∀ f : Fault, fault f (f.rewrite φ)
  formals : ∀ {h h'}, header h h' → List.Forall₂ (φ.Param fault) h.formals h'.formals
  resultType : ∀ {h h'}, header h h' → h'.resultType = h.resultType.resize φ.size
  name : ∀ {e e'}, entry e e' → e'.name = e.name
  line : ∀ {e e'}, entry e e' → e'.line = φ.line e.line
  noun : ∀ {e e'}, entry e e' → e'.noun = e.noun
  deref : ∀ {e e'}, entry e e' → e'.type.deref = e.type.deref.resize φ.size
  header? : ∀ {e e'}, entry e e' → Option.Rel header e.header? e'.header?
  ofVariable : ∀ x ty line,
    entry (.ofBinding .plain x ty line) (.ofBinding .plain x (ty.resize φ.size) (φ.line line))
  ofHeader : ∀ h, entry (.ofHeader h) (.ofHeader (φ.header h))
  paramEntries : ∀ h : Header, List.Forall₂ entry h.paramEntries (φ.header h).paramEntries
  journal_nil : journal [] []
  journal_append : ∀ {i i' j j'}, journal i i' → journal j j' → journal (i ++ j) (i' ++ j')
  depths : ∀ n, journal [.scopeOpened n] [.scopeOpened n] ∧ journal [.scopeClosed n] [.scopeClosed n] ∧
    journal [.loopOpened n] [.loopOpened n] ∧ journal [.loopClosed n] [.loopClosed n]
  registered : ∀ h, journal [.registered h] [.registered (φ.header h)]
  checkingFunction : ∀ h, journal [.checkingFunction h] [.checkingFunction (φ.header h)]
  label : ∀ line l, journal (labelRecord line l) (labelRecord (φ.line line) (φ.label l))

namespace Simulation

variable {φ : Rewriting} (S : Simulation φ)

def likeness : Likeness where
  fault := S.fault
  stuck := Table.Paired S.entry
  journal := S.journal
  journal_nil := S.journal_nil
  journal_append := S.journal_append

/-- The types that are inferred for a program and its rewriting. -/
def types (φ : Rewriting) (τ τ' : Ty) : Prop :=
  τ' = τ.resize φ.size

structure Envs (env env' : Env) : Prop where
  type? : ∀ x, Option.Rel (fun τ τ' => τ'.deref = τ.deref.resize φ.size) (env.type? x) (env'.type? x)
  function? : ∀ x, Option.Rel S.header (env.function? x) (env'.function? x)

end Simulation

end Dana
