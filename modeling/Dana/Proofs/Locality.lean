import Dana.Proofs.Node
import Dana.Proofs.Parallel
import Dana.Proofs.Stop
import Dana.Proofs.Typing

/-!
# Other names do not matter

A check looks up and declares the names that stand in the program, and no others.
So two tables that agree on those are told apart by nothing it does, and what they
have under other names stays as it is (`checkAll_local`).

Both are read off the columns of a table: what its scopes have, one after the
other, for one name.
-/

namespace Dana

/-! ## Columns -/

namespace Table

/-- What each scope has for a name, the innermost first. -/
def column (t : Table) (x : String) : List (Option Entry) :=
  t.scopes.map fun s => s.find? x

variable {t u : Table} {e : Entry}

theorem length_column (t : Table) (x : String) : (t.column x).length = t.depth := by
  simp [column, depth]

theorem find?_eq_column (t : Table) (x : String) : t.find? x = (t.column x).findSome? id := by
  unfold find? column
  rw [List.findSome?_map]
  rfl

theorem function?_eq_column (t : Table) (x : String) :
    t.function? x = (t.column x).findSome? fun o => o.bind Entry.header? := by
  unfold function? column
  rw [List.findSome?_map]
  rfl

@[simp] theorem column_openScope (x : String) : t.openScope.column x = none :: t.column x := rfl

@[simp] theorem column_openLoop (x : String) : t.openLoop.column x = t.column x := rfl

@[simp] theorem column_closeLoop (x : String) : t.closeLoop.column x = t.column x := rfl

theorem column_closeScope (h : t.closeScope = .ok u) (x : String) : u.column x = (t.column x).tail := by
  obtain ⟨s, hs, -⟩ := closeScope_ok.mp h
  simp [column, hs]

theorem column_declare (h : t.declare e = .ok u) (x : String) :
    u.column x = if e.name = x then some e :: (t.column x).tail else t.column x := by
  obtain ⟨s, outer, hs, hn, rfl⟩ := declare_ok.mp h
  by_cases hx : e.name = x <;> simp [column, hs, Scope.find?_insert hn, hx]

theorem column_declareGlobal (h : t.declareGlobal e = .ok u) (x : String) :
    u.column x = if e.name = x then (t.column x).dropLast ++ [some e] else t.column x := by
  obtain ⟨inner, g, hs, hn, rfl⟩ := declareGlobal_ok.mp h
  by_cases hx : e.name = x <;> simp [column, hs, Scope.find?_insert hn, hx]

end Table

/-- What comes of declaring an entry in a scope that has this for its name, if there
is a scope. -/
def Entry.admission (e : Entry) : Option (Option Entry) → Except Fault Unit
  | none => .error Table.noScope
  | some none => .ok ()
  | some (some _) => .error ⟨.redeclaration e.noun e.name, e.line⟩

namespace Table

theorem closeScope_result {t t' : Table} (h : t.depth = t'.depth) :
    t.closeScope.map (fun _ => ()) = t'.closeScope.map (fun _ => ()) := by
  rcases t with ⟨_ | ⟨s, ss⟩, k⟩ <;> rcases t' with ⟨_ | ⟨s', ss'⟩, k'⟩
  · rfl
  · cases h
  · cases h
  · rfl

theorem declare_admission (t : Table) (e : Entry) :
    (t.declare e).map (fun _ => ()) = e.admission (t.column e.name).head? := by
  cases hs : t.scopes with
  | nil => simp [declare, column, hs, Except.map, Entry.admission]
  | cons s outer =>
    rw [declare_cons hs]
    unfold Scope.declare column
    cases hf : s.find? e.name <;> simp [hs, hf, Except.map, Entry.admission]

theorem declareGlobal_admission (t : Table) (e : Entry) :
    (t.declareGlobal e).map (fun _ => ()) = e.admission (t.column e.name).getLast? := by
  rcases List.eq_nil_or_concat t.scopes with hs | ⟨inner, g, hs⟩
  · simp [declareGlobal, declareLast, column, hs, Except.map, bind, Except.bind, Entry.admission]
  · rw [List.concat_eq_append] at hs
    rw [declareGlobal_concat hs]
    unfold Scope.declare column
    cases hf : g.find? e.name <;> simp [hs, hf, Except.map, Entry.admission]

end Table

/-! ## Tables that agree on names -/

/-- As many scopes and loops are open in both, and for the names in `N` each scope
has the same entry in both. -/
structure Table.AgreesOn (N : String → Prop) (t t' : Table) : Prop where
  depth : t.depth = t'.depth
  loopDepth : t.loopDepth = t'.loopDepth
  column : ∀ x, N x → t.column x = t'.column x

/-- All names that stand in the nodes are in `N`. -/
def NamesWithin (N : String → Prop) (ns : List Node) : Prop :=
  ∀ n ∈ ns, ∀ x ∈ n.names, N x

section
variable {N : String → Prop}

theorem namesWithin_cons {n : Node} {ns : List Node} :
    NamesWithin N (n :: ns) ↔ (∀ x ∈ n.names, N x) ∧ NamesWithin N ns :=
  List.forall_mem_cons

theorem namesWithin_append {ns ms : List Node} :
    NamesWithin N (ns ++ ms) ↔ NamesWithin N ns ∧ NamesWithin N ms :=
  List.forall_mem_append

theorem namesWithin_nodes? {o : Option Expr} :
    NamesWithin N (Expr.nodes? o) ↔ ∀ e ∈ o, NamesWithin N e.nodes := by
  cases o <;> simp [Expr.nodes?, NamesWithin]

theorem namesWithin_nodesAll {es : List Expr} :
    NamesWithin N (Expr.nodesAll es) ↔ ∀ e ∈ es, NamesWithin N e.nodes := by
  induction es with
  | nil => simp [Expr.nodesAll, NamesWithin]
  | cons e es ih => simp [Expr.nodesAll, namesWithin_append, ih]

theorem Place.namesWithin_nodes {p : Place} :
    NamesWithin N p.nodes ↔ (p.isString = false → N p.ident.name) ∧ ∀ e ∈ p.indices, NamesWithin N e.nodes := by
  obtain ⟨ident, indices, isString, line⟩ := p
  rw [nodes, namesWithin_cons, namesWithin_nodesAll]
  cases isString <;> simp [Node.names]

theorem Call.namesWithin_nodes {c : Call} :
    NamesWithin N c.nodes ↔ N c.callee.name ∧ ∀ e ∈ c.args, NamesWithin N e.nodes := by
  obtain ⟨callee, args, line⟩ := c
  rw [nodes, namesWithin_cons, namesWithin_nodesAll]
  simp [Node.names]

namespace Table.AgreesOn

variable {t t' : Table} {e : Entry}

theorem find? (h : t.AgreesOn N t') {x : String} (hx : N x) : t.find? x = t'.find? x := by
  rw [find?_eq_column, find?_eq_column, h.column x hx]

theorem function? (h : t.AgreesOn N t') {x : String} (hx : N x) : t.function? x = t'.function? x := by
  rw [function?_eq_column, function?_eq_column, h.column x hx]

theorem openScope (h : t.AgreesOn N t') : t.openScope.AgreesOn N t'.openScope where
  depth := congrArg (· + 1) h.depth
  loopDepth := h.loopDepth
  column x hx := by rw [column_openScope, column_openScope, h.column x hx]

theorem openLoop (h : t.AgreesOn N t') : t.openLoop.AgreesOn N t'.openLoop :=
  ⟨h.depth, congrArg (· + 1) h.loopDepth, h.column⟩

theorem closeLoop (h : t.AgreesOn N t') : t.closeLoop.AgreesOn N t'.closeLoop :=
  ⟨h.depth, congrArg (· - 1) h.loopDepth, h.column⟩

theorem closeScope (h : t.AgreesOn N t') : Alike Eq (AgreesOn N) t.closeScope t'.closeScope := by
  refine .of_map_eq ?_ fun u u' hu hu' => ?_
  · exact closeScope_result h.depth
  · have hd := h.depth
    rw [(closeScope_depth hu).1, (closeScope_depth hu').1] at hd
    refine ⟨by omega, ?_, fun x hx => ?_⟩
    · rw [(closeScope_depth hu).2, (closeScope_depth hu').2, h.loopDepth]
    · rw [column_closeScope hu, column_closeScope hu', h.column x hx]

theorem declare (h : t.AgreesOn N t') (he : N e.name) : Alike Eq (AgreesOn N) (t.declare e) (t'.declare e) := by
  refine .of_map_eq ?_ fun u u' hu hu' => ⟨?_, ?_, fun x hx => ?_⟩
  · rw [declare_admission, declare_admission, h.column _ he]
  · rw [(declare_depth hu).1, (declare_depth hu').1, h.depth]
  · rw [(declare_depth hu).2, (declare_depth hu').2, h.loopDepth]
  · rw [column_declare hu, column_declare hu', h.column x hx]

theorem declareGlobal (h : t.AgreesOn N t') (he : N e.name) :
    Alike Eq (AgreesOn N) (t.declareGlobal e) (t'.declareGlobal e) := by
  refine .of_map_eq ?_ fun u u' hu hu' => ⟨?_, ?_, fun x hx => ?_⟩
  · rw [declareGlobal_admission, declareGlobal_admission, h.column _ he]
  · rw [(declareGlobal_depth hu).1, (declareGlobal_depth hu').1, h.depth]
  · rw [(declareGlobal_depth hu).2, (declareGlobal_depth hu').2, h.loopDepth]
  · rw [column_declareGlobal hu, column_declareGlobal hu', h.column x hx]

end Table.AgreesOn

/-! ## Expressions -/

/-- What the two give for a name in `N` is the same. -/
def Env.AgreesOn (N : String → Prop) (env env' : Env) : Prop :=
  ∀ x, N x → env.type? x = env'.type? x ∧ env.function? x = env'.function? x

theorem Table.AgreesOn.env {t t' : Table} (h : t.AgreesOn N t') : t.env.AgreesOn N t'.env := by
  intro x hx
  exact ⟨congrArg (Option.map Entry.type) (h.find? hx), h.function? hx⟩

section
variable {env env' : Env} (henv : env.AgreesOn N env')

theorem Place.inferIndexed_congr {name : String} {line : Line} : ∀ {es : List Expr} {τ : Ty},
    (∀ e ∈ es, e.infer env = e.infer env') →
      Place.inferIndexed env name line τ es = Place.inferIndexed env' name line τ es
  | [], τ, _ => by rw [inferIndexed, inferIndexed]
  | e :: es, .array elem size, h => by
    have hes : ∀ e' ∈ es, e'.infer env = e'.infer env' := fun e' he' => h e' (List.mem_cons_of_mem _ he')
    rw [inferIndexed, inferIndexed, h e List.mem_cons_self, inferIndexed_congr hes]
  | e :: es, .scalar s, _ | e :: es, .reference base, _ => by
    simp only [inferIndexed]

theorem Call.inferArgs_congr {function : String} {line : Line} :
    ∀ {formals : List (String × Ty)} {es : List Expr}, (∀ e ∈ es, e.infer env = e.infer env') →
      Call.inferArgs env function line formals es = Call.inferArgs env' function line formals es
  | [], es, _ => by simp only [inferArgs]
  | (x, formal) :: formals, [], _ => by simp only [inferArgs]
  | (x, formal) :: formals, e :: es, h => by
    have hes : ∀ e' ∈ es, e'.infer env = e'.infer env' := fun e' he' => h e' (List.mem_cons_of_mem _ he')
    rw [inferArgs, inferArgs, h e List.mem_cons_self, inferArgs_congr hes]

include henv

theorem Place.infer_congr_of {p : Place} (hp : p.isString = false → N p.ident.name)
    (h : ∀ e ∈ p.indices, e.infer env = e.infer env') : p.infer env = p.infer env' := by
  rw [infer_eq, infer_eq]
  cases hs : p.isString with
  | true => rfl
  | false => rw [(henv _ (hp hs)).1]; simp only [inferIndexed_congr h]

theorem Call.infer_congr_of {c : Call} (hc : N c.callee.name) (h : ∀ e ∈ c.args, e.infer env = e.infer env') :
    c.infer env = c.infer env' := by
  rw [infer_eq, infer_eq, (henv _ hc).2]
  simp only [inferArgs_congr h]

theorem Expr.infer_congr {e : Expr} (he : NamesWithin N e.nodes) : e.infer env = e.infer env' := by
  induction e with
  | const value line | hex value line | bool value line => simp only [infer]
  | place p line ih =>
    rw [nodes, namesWithin_cons, ExprForm.nodes, Place.namesWithin_nodes] at he
    obtain ⟨-, hp, hes⟩ := he
    rw [infer, infer]
    exact Place.infer_congr_of henv hp fun e hm => ih e hm (hes e hm)
  | call c line ih =>
    rw [nodes, namesWithin_cons, ExprForm.nodes, Call.namesWithin_nodes] at he
    obtain ⟨-, hc, hes⟩ := he
    rw [infer, infer]
    exact Call.infer_congr_of henv hc fun e hm => ih e hm (hes e hm)
  | not operand line ih =>
    rw [nodes, namesWithin_cons, ExprForm.nodes, namesWithin_nodes?] at he
    cases operand with
    | none => simp only [infer]
    | some e => rw [infer, infer, ih e rfl (he.2 e rfl)]
  | arith op left right line ihl ihr =>
    rw [nodes, namesWithin_cons, ExprForm.nodes, namesWithin_append, namesWithin_nodes?, namesWithin_nodes?] at he
    obtain ⟨-, hl, hr⟩ := he
    cases left with
    | none =>
      cases right with
      | none => simp only [infer]
      | some r => rw [infer, infer, ihr r rfl (hr r rfl)]
    | some l =>
      cases right with
      | none => rw [infer, infer, ihl l rfl (hl l rfl)]
      | some r => rw [infer, infer, ihl l rfl (hl l rfl), ihr r rfl (hr r rfl)]
  | rel op left right line ihl ihr | logic op left right line ihl ihr =>
    rw [nodes, namesWithin_cons, ExprForm.nodes, namesWithin_append, namesWithin_nodes?, namesWithin_nodes?] at he
    obtain ⟨-, hl, hr⟩ := he
    cases left with
    | none => simp only [infer]
    | some l =>
      cases right with
      | none => simp only [infer]
      | some r => rw [infer, infer, ihl l rfl (hl l rfl), ihr r rfl (hr r rfl)]

theorem Place.infer_congr {p : Place} (hp : NamesWithin N p.nodes) : p.infer env = p.infer env' := by
  rw [Place.namesWithin_nodes] at hp
  exact Place.infer_congr_of henv hp.1 fun e he => Expr.infer_congr henv (hp.2 e he)

end

/-! ## Actions -/

namespace Check

variable {α β : Type}

/-- Tables are compared on the names in `N`, and all else is to be equal. -/
def agreeing (N : String → Prop) : Likeness where
  fault := Eq
  stuck := Table.AgreesOn N
  journal := Eq
  journal_nil := rfl
  journal_append hi hj := by rw [hi, hj]

/-- From tables that agree on `N` the action does the same: it has the same result,
writes the same records and leaves tables that agree on `N`. -/
abbrev Local (N : String → Prop) (m : Check α) : Prop :=
  m.Parallel (agreeing N) (Table.AgreesOn N) m Eq (Table.AgreesOn N)

theorem local_pure {a : α} : (pure a : Check α).Local N := parallel_pure rfl

theorem local_fail {cause : Cause} {line : Line} : (fail cause line : Check α).Local N :=
  parallel_fail rfl fun _ _ h => h

theorem local_note {e : Event} : (note e).Local N := (parallel_note rfl).mono fun _ _ _ => rfl

theorem local_ask {g : Table → Except Fault α} (hg : ∀ t t', t.AgreesOn N t' → g t = g t') : (ask g).Local N := by
  refine parallel_ask (fun t t' h => ?_) fun _ _ h => h
  rw [hg t t' h]
  exact .refl _

theorem local_bind {m : Check α} {k : α → Check β} (hm : m.Local N) (hk : ∀ a, (k a).Local N) :
    (m >>= k).Local N := by
  refine parallel_bind hm fun a b hab => ?_
  rw [← hab]
  exact hk a

theorem local_change {g : Table → Except Fault Table} {r : Table → List Event}
    (hg : ∀ t t', t.AgreesOn N t' → Alike Eq (Table.AgreesOn N) (g t) (g t'))
    (hr : ∀ u u', u.AgreesOn N u' → r u = r u') : (change g r).Local N :=
  (parallel_change hg (fun _ _ h => h) hr).mono fun _ _ _ => rfl

theorem local_forM {m : α → Check Unit} {as : List α} (h : ∀ a ∈ as, (m a).Local N) : (as.forM m).Local N := by
  have hm : ∀ a b, a = b ∧ a ∈ as →
      (m a).Parallel (agreeing N) (Table.AgreesOn N) (m b) (fun _ _ => True) (Table.AgreesOn N) := by
    intro a b hab
    obtain ⟨rfl, ha⟩ := hab
    exact (h a ha).mono fun _ _ _ => trivial
  exact (parallel_forM hm (List.forall₂_same.mpr fun a ha => ⟨rfl, ha⟩)).mono fun _ _ _ => rfl

theorem local_openScope : openScope.Local N :=
  local_change (fun _ _ h => .ok h.openScope) fun _ _ h => by rw [h.depth]

theorem local_closeScope : closeScope.Local N :=
  local_change (fun _ _ h => h.closeScope) fun _ _ h => by rw [h.depth]

theorem local_openLoop : openLoop.Local N :=
  local_change (fun _ _ h => .ok h.openLoop) fun _ _ h => by rw [h.loopDepth]

theorem local_closeLoop : closeLoop.Local N :=
  local_change (fun _ _ h => .ok h.closeLoop) fun _ _ h => by rw [h.loopDepth]

theorem local_bindName {role : Role} {x : String} {ty : Ty} {line : Line} (hx : N x) :
    (bindName role x ty line).Local N :=
  local_change (fun _ _ h => h.declare hx) fun _ _ _ => rfl

theorem local_register {h : Header} (hn : N h.name) : (register h).Local N := by
  unfold register
  split
  · exact local_fail
  · exact local_change (fun _ _ ht => ht.declareGlobal hn) fun _ _ _ => rfl

end Check

/-! ## Statements -/

open Check

theorem Header.mem_names {h : Header} {x : String} :
    x ∈ h.names ↔ x = h.name ∨ ∃ g ∈ h.groups, x ∈ g.names := by
  simp [names]

theorem local_function? {h : Header} (hn : N h.name) :
    (ask fun t => .ok (t.function? h.name) : Check (Option Header)).Local N := by
  apply local_ask
  intro t t' ht
  rw [ht.function? hn]

theorem Header.local_declare {h : Header} {line : Line} (hn : N h.name) : (h.declare line).Local N := by
  refine local_bind (local_function? hn) fun g => ?_
  cases g with
  | none => exact local_register hn
  | some g => exact local_fail

theorem Header.local_ensureRegistered {h : Header} (hn : N h.name) : h.ensureRegistered.Local N := by
  refine local_bind (local_function? hn) fun g => ?_
  cases g with
  | none => exact local_register hn
  | some g => exact local_pure

theorem Header.local_bindParameters {h : Header} (hn : ∀ x ∈ h.names, N x) : h.bindParameters.Local N := by
  apply local_forM
  intro ⟨x, ty, line⟩ hx
  obtain ⟨g, hg, hx⟩ := List.mem_flatMap.mp hx
  obtain ⟨y, hy, hxy⟩ := List.mem_map.mp hx
  cases hxy
  exact local_bindName (hn x (mem_names.mpr (.inr ⟨g, hg, hy⟩)))

theorem local_requireLoop {keyword : String} {line : Line} : (requireLoop keyword line).Local N := by
  apply local_ask
  intro t t' ht
  rw [Table.inLoop, Table.inLoop, ht.loopDepth]

theorem Expr.local_check {e : Expr} (he : NamesWithin N e.nodes) : e.check.Local N :=
  local_ask fun _ _ ht => Expr.infer_congr ht.env he

theorem Branch.local_checkCondition {condition : Option Expr} (hc : NamesWithin N (Expr.nodes? condition)) :
    (Branch.checkCondition condition).Local N := by
  cases condition with
  | none => exact local_pure
  | some e =>
    apply local_ask
    intro t t' ht
    rw [Expr.inferCondition, Expr.inferCondition, Expr.infer_congr ht.env hc]

theorem Place.inferAssign_congr {env env' : Env} (henv : env.AgreesOn N env') {target : Place} {value : Expr}
    {line : Line} (ht : NamesWithin N target.nodes) (hv : NamesWithin N value.nodes) :
    target.inferAssign env value line = target.inferAssign env' value line := by
  rw [inferAssign, inferAssign, Place.infer_congr henv ht, Expr.infer_congr henv hv]

theorem Task.local_check {w : Task} (hw : NamesWithin N w.nodes) : w.check.Local N := by
  induction w with
  | assign target value line =>
    obtain ⟨-, h⟩ := namesWithin_cons.mp hw
    obtain ⟨ht, hv⟩ := namesWithin_append.mp h
    exact local_ask fun _ _ h => Place.inferAssign_congr h.env ht hv
  | skip line | exit line | nil | noBranch => exact local_pure
  | ret value line =>
    obtain ⟨-, h⟩ := namesWithin_cons.mp hw
    cases value with
    | none => exact local_pure
    | some e => exact local_bind (Expr.local_check h) fun _ => local_pure
  | brk label line | cont label line => exact local_requireLoop
  | cond bs line ih =>
    obtain ⟨-, h⟩ := namesWithin_cons.mp hw
    simp only [check, Stmt.check]
    split
    · exact local_fail
    · exact local_bind local_openScope fun _ => local_bind (ih h) fun _ => local_closeScope
  | loop label body line ih =>
    obtain ⟨-, h⟩ := namesWithin_cons.mp hw
    have hlabel : (noteLabel line label).Local N := by
      cases label with
      | none => exact local_pure
      | some l => exact local_note
    exact local_bind hlabel fun _ => local_bind local_openLoop fun _ => local_bind local_openScope fun _ =>
      local_bind (ih h) fun _ => local_bind local_closeScope fun _ => local_closeLoop
  | proc call line =>
    obtain ⟨-, h⟩ := namesWithin_cons.mp hw
    exact local_bind local_openScope fun _ => local_bind (Expr.local_check h) fun _ => local_closeScope
  | define d line ih =>
    obtain ⟨-, h⟩ := namesWithin_cons.mp hw
    exact ih h
  | declare h line =>
    obtain ⟨hn, -⟩ := namesWithin_cons.mp hw
    exact Header.local_declare (hn _ List.mem_cons_self)
  | vars names ty line =>
    obtain ⟨hn, -⟩ := namesWithin_cons.mp hw
    simp only [check, Stmt.check]
    split
    · exact local_fail
    · exact local_forM fun x hx => local_bindName (hn x hx)
  | cons s ss ih ihs | consBranch s ss ih ihs =>
    obtain ⟨h, hs⟩ := namesWithin_append.mp hw
    exact local_bind (ih h) fun _ => ihs hs
  | branch condition body line ih =>
    obtain ⟨-, h⟩ := namesWithin_cons.mp hw
    obtain ⟨hc, hb⟩ := namesWithin_append.mp h
    exact local_bind (Branch.local_checkCondition hc) fun _ => local_bind local_openScope fun _ =>
      local_bind (ih hb) fun _ => local_closeScope
  | definition header body line ih =>
    obtain ⟨hn, hb⟩ := namesWithin_cons.mp hw
    simp only [check, Definition.check]
    split
    · exact local_fail
    · exact local_bind (Header.local_ensureRegistered (hn _ List.mem_cons_self)) fun _ =>
        local_bind local_note fun _ => local_bind local_openScope fun _ =>
        local_bind (Header.local_bindParameters hn) fun _ => local_bind (ih hb) fun _ => local_closeScope

end

/-! ## Names that stand nowhere -/

section
variable {t u : Table} {x : String}

theorem Table.column_declareAll {es : List Entry} (h : t.declareAll es = .ok u) (hx : ∀ e ∈ es, e.name ≠ x) :
    u.column x = t.column x := by
  induction es generalizing t with
  | nil => cases h; rfl
  | cons e es ih =>
    obtain ⟨v, hv, h⟩ := declareAll_cons.mp h
    obtain ⟨he, hes⟩ := List.forall_mem_cons.mp hx
    rw [ih h hes, column_declare hv, if_neg he]

theorem Table.Knows.column {h : Header} (hk : t.Knows h u) (hx : h.name ≠ x) : u.column x = t.column x := by
  cases hk with
  | before => rfl
  | now _ hd =>
    rw [column_declareGlobal hd]
    exact if_neg hx

theorem Stmt.varEntries_name {names : List String} {ty : Ty} {line : Line} (hx : ∀ y ∈ names, y ≠ x) :
    ∀ e ∈ Stmt.varEntries names ty line, e.name ≠ x := by
  intro e he
  obtain ⟨y, hy, rfl⟩ := List.mem_map.mp he
  exact hx y hy

theorem Header.paramEntries_name {h : Header} (hx : ∀ y ∈ h.names, y ≠ x) : ∀ e ∈ h.paramEntries, e.name ≠ x := by
  intro e he
  obtain ⟨⟨y, ty, line⟩, hy, rfl⟩ := List.mem_map.mp he
  obtain ⟨g, hg, hy⟩ := List.mem_flatMap.mp hy
  obtain ⟨z, hz, hyz⟩ := List.mem_map.mp hy
  cases hyz
  exact hx y (mem_names.mpr (.inr ⟨g, hg, hz⟩))

theorem Passes.column {w : Task} (h : Passes t w u) (hw : NamesWithin (· ≠ x) w.nodes) :
    u.column x = t.column x := by
  induction h with
  | assign | skip | exit | ret | brk | cont | proc | nil | noBranch => rfl
  | cond _ _ hv ih =>
    obtain ⟨-, hb⟩ := namesWithin_cons.mp hw
    rw [Table.column_closeScope hv, ih hb]
    rfl
  | loop _ hv ih =>
    obtain ⟨-, hb⟩ := namesWithin_cons.mp hw
    rw [Table.column_closeLoop, Table.column_closeScope hv, ih hb]
    rfl
  | define _ ih =>
    obtain ⟨-, hd⟩ := namesWithin_cons.mp hw
    exact ih hd
  | declare hg _ hd =>
    obtain ⟨hn, -⟩ := namesWithin_cons.mp hw
    exact (Table.Knows.now hg hd).column (hn _ List.mem_cons_self)
  | vars _ _ hd =>
    obtain ⟨hn, -⟩ := namesWithin_cons.mp hw
    exact Table.column_declareAll hd (Stmt.varEntries_name hn)
  | cons _ _ ih ihs | consBranch _ _ ih ihs =>
    obtain ⟨h, hs⟩ := namesWithin_append.mp hw
    rw [ihs hs, ih h]
  | branch _ _ hv ih =>
    obtain ⟨-, h⟩ := namesWithin_cons.mp hw
    obtain ⟨-, hb⟩ := namesWithin_append.mp h
    rw [Table.column_closeScope hv, ih hb]
    rfl
  | definition _ hk hp _ hx ih =>
    obtain ⟨hn, hb⟩ := namesWithin_cons.mp hw
    rw [Table.column_closeScope hx, ih hb, Table.column_declareAll hp (Header.paramEntries_name hn),
      Table.column_openScope, hk.column (hn _ List.mem_cons_self)]
    rfl

/-- A scope that has nothing for the name counts to those on top. -/
theorem column_push {c c' : List (Option Entry)} (h : ∃ k, c' = List.replicate k none ++ none :: c) :
    ∃ k, c' = List.replicate k none ++ c := by
  obtain ⟨k, rfl⟩ := h
  refine ⟨k + 1, ?_⟩
  rw [List.replicate_succ', List.append_assoc, List.singleton_append]

/-- The scopes that are left open have nothing under a name that stands nowhere. -/
theorem Stops.column {w : Task} {path : List Opening} {f : Fault} (h : Stops t w path f u)
    (hw : NamesWithin (· ≠ x) w.nodes) : ∃ k, u.column x = List.replicate k none ++ t.column x := by
  induction h with
  | assign | ret | brk | cont | emptyCond | declared | unnamedHeader | declare | emptyVars | condition | unnamed
  | register => exact ⟨0, rfl⟩
  | proc => exact ⟨1, rfl⟩
  | cond _ _ ih | loop _ ih =>
    obtain ⟨-, hb⟩ := namesWithin_cons.mp hw
    exact column_push (ih hb)
  | branch _ _ ih =>
    obtain ⟨-, h⟩ := namesWithin_cons.mp hw
    obtain ⟨-, hb⟩ := namesWithin_append.mp h
    exact column_push (ih hb)
  | define _ ih =>
    obtain ⟨-, hd⟩ := namesWithin_cons.mp hw
    exact ih hd
  | @vars t u names ty line es e es' f _ _ hes hd _ =>
    obtain ⟨hn, -⟩ := namesWithin_cons.mp hw
    have hvars : ∀ e ∈ Stmt.varEntries names ty line, e.name ≠ x := Stmt.varEntries_name hn
    rw [hes] at hvars
    exact ⟨0, Table.column_declareAll hd fun e he => hvars e (List.mem_append_left _ he)⟩
  | head _ ih | headBranch _ ih =>
    obtain ⟨h, -⟩ := namesWithin_append.mp hw
    exact ih h
  | tail hp _ ih | tailBranch hp _ ih =>
    obtain ⟨h, hs⟩ := namesWithin_append.mp hw
    rw [← hp.column h]
    exact ih hs
  | params _ hk hes hd _ =>
    obtain ⟨hn, -⟩ := namesWithin_cons.mp hw
    have hparams := Header.paramEntries_name hn
    rw [hes] at hparams
    rw [← hk.column (hn _ List.mem_cons_self)]
    exact ⟨1, Table.column_declareAll hd fun e he => hparams e (List.mem_append_left _ he)⟩
  | definition _ hk hp _ ih =>
    obtain ⟨hn, hb⟩ := namesWithin_cons.mp hw
    rw [← hk.column (hn _ List.mem_cons_self)]
    refine column_push ?_
    rw [← Table.column_openScope, ← Table.column_declareAll hp (Header.paramEntries_name hn)]
    exact ih hb

/-- The entries under a name that stands nowhere are those from before. -/
theorem Task.check_column {w : Task} (hw : NamesWithin (· ≠ x) w.nodes) :
    (w.check.run t).table.column x =
      List.replicate ((w.check.run t).table.depth - t.depth) none ++ t.column x := by
  have h : ∃ k, (w.check.run t).table.column x = List.replicate k none ++ t.column x := by
    cases hr : (w.check.run t).result with
    | ok _ => exact ⟨0, (passes_of_yields ⟨hr, rfl⟩).column hw⟩
    | error f =>
      obtain ⟨path, hs⟩ := stops_of_faults ⟨hr, rfl⟩
      exact hs.column hw
  obtain ⟨k, hk⟩ := h
  have hlen := congrArg List.length hk
  rw [List.length_append, List.length_replicate, Table.length_column, Table.length_column] at hlen
  rw [hk, hlen, Nat.add_sub_cancel]

end

/-! ## Main result -/

theorem namesWithin_names {p : Program} {N : String → Prop} :
    NamesWithin N (Stmt.nodesAll p) ↔ ∀ x ∈ p.names, N x := by
  simp only [NamesWithin, Program.names, List.mem_flatMap]
  constructor
  · intro h x hx
    obtain ⟨n, hn, hx⟩ := hx
    exact h n hn x hx
  · intro h n hn x hx
    exact h x ⟨n, hn, hx⟩

/-- All that the library has are its functions. -/
theorem Table.column_standard {x : String} (hx : ∀ b ∈ Builtin.all, b.name ≠ x) :
    Table.standard.column x = Table.empty.column x := by
  have hentries : ∀ s ∈ Table.standard.scopes, ∀ e ∈ s.entries, ∃ b ∈ Builtin.all, b.name = e.name := by decide
  have hnone : ∀ s ∈ Table.standard.scopes, s.find? x = none := by
    intro s hs
    rw [Scope.find?_eq_none]
    intro e he hex
    obtain ⟨b, hb, hbe⟩ := hentries s hs e he
    exact hx b hb (hbe.trans hex)
  calc
    Table.standard.column x = Table.standard.scopes.map fun _ => none := List.map_congr_left hnone
    _ = Table.empty.column x := rfl

/-- **Other names do not matter.** Take two tables with as many scopes and loops open,
whose scopes agree on the names of the program. Checking it gives the same result with
both, and tables that agree on them again; what a table has under other names is what
it had before. So a program that does without the names of the library may be checked
without the library. -/
theorem checkAll_local {t t' : Table} {p : Program} (h : t.AgreesOn (· ∈ p.names) t') :
    ((Stmt.checkAll p).run t).result = ((Stmt.checkAll p).run t').result ∧
    ((Stmt.checkAll p).run t).journal = ((Stmt.checkAll p).run t').journal ∧
    ((Stmt.checkAll p).run t).table.AgreesOn (· ∈ p.names) ((Stmt.checkAll p).run t').table ∧
    (∀ (s : Table) x, x ∉ p.names → ((Stmt.checkAll p).run s).table.column x =
      List.replicate (((Stmt.checkAll p).run s).table.depth - s.depth) none ++ s.column x) ∧
    ∀ q : Program, (∀ b ∈ Builtin.all, b.name ∉ q.names) → check q = (q.check.run .empty).result := by
  have hlocal : ∀ q : Program, (Stmt.checkAll q).Local (· ∈ q.names) := by
    intro q
    exact Task.local_check (w := .block q) (namesWithin_names.mpr fun x hx => hx)
  have hp := hlocal p h
  refine ⟨hp.result.eq, hp.journal, hp.table fun _ _ ht => ht, fun s x hx => ?_, fun q hq => ?_⟩
  · apply Task.check_column (w := .block p)
    exact namesWithin_names.mpr fun y hy hyx => hx (hyx ▸ hy)
  · have hagree : Table.standard.AgreesOn (· ∈ q.names) .empty := by
      refine ⟨by decide, by decide, fun x hx => Table.column_standard fun b hb hbx => ?_⟩
      exact hq b hb (hbx ▸ hx)
    rw [check, q.check_result, q.check_result]
    exact (hlocal q hagree).result.eq

-- A loop that ends in a fault, with its scope still open.
def lone : Program :=
  [.loop none [.vars ["x"] .int 2, .proc "writeInteger" [.var "x" 3] 3,
    .assign (.var "y" 4) (.const 0 4) 4] 1]

/-- The standard table with a variable more. -/
def crowded : Table :=
  ((Stmt.checkAll [.vars ["z"] .int 9]).run .standard).table

theorem checkAll_local_lone :
    crowded.column "z" ≠ Table.standard.column "z" ∧
    ((Stmt.checkAll lone).run .standard).result = .error ⟨.undeclaredVariable "y", 4⟩ ∧
    ((Stmt.checkAll lone).run crowded).result = ((Stmt.checkAll lone).run .standard).result ∧
    ((Stmt.checkAll lone).run crowded).table.column "z" = none :: crowded.column "z" := by
  have hagree : crowded.AgreesOn (· ∈ lone.names) .standard := ⟨by decide, by decide, by decide⟩
  obtain ⟨hresult, -, -, hothers, -⟩ := checkAll_local hagree
  exact ⟨by decide, by rfl, hresult, hothers crowded "z" (by decide)⟩

end Dana
