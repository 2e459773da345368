import Dana.Format.Program
import Dana.Report
import Mathlib.Data.List.Forall2

/-!
# Spellings

The JSON values that a node may be written as, told from the node and without the
reader. A record has a spelling for each of its fields and two ways to put them
together, by name or in order; a tagged value has one for its payload.
-/

namespace Dana

/-- The values that something may be written as. -/
abbrev Spelling := Json → Prop

/-! ## Plain and tagged values -/

namespace Spelling

variable {α : Type}

def text (s : String) : Spelling :=
  fun j => j = .str s

def flag (b : Bool) : Spelling :=
  fun j => j = .bool b

-- An integer has a single spelling, without fraction and exponent.
def word (n : UInt32) : Spelling :=
  fun j => j = .int n.toNat

def signedWord (n : Int32) : Spelling :=
  fun j => j = .int n.toInt

def nullable (sp : α → Spelling) : Option α → Spelling
  | none => fun j => j = .null
  | some a => sp a

def items (each : List Json → Prop) : Spelling :=
  fun j => ∃ js, j = .arr js ∧ each js

def list (sp : α → Spelling) (as : List α) : Spelling :=
  items (List.Forall₂ sp as)

/-- Each symbol that is read as the operator spells it. -/
def operator (read : String → Option α) (op : α) : Spelling :=
  fun j => ∃ symbol, j = .str symbol ∧ read symbol = some op

/-- A tag with a payload is the only member of an object. -/
def tagged (tag : String) (payload : Spelling) : Spelling :=
  fun j => ∃ k, j = .obj [(tag, k)] ∧ payload k

/-- A tag without a payload stands alone or has `null` for one. -/
def named (tag : String) : Spelling :=
  fun j => j = .str tag ∨ j = .obj [(tag, .null)]

end Spelling

/-! ## Records -/

/-- A field of a record: how the value it has may be written, and whether with that
value it may be missing from an object and left off the end of an array. -/
structure FieldSpelling where
  name : String
  value : Spelling
  mayMiss : Prop
  mayEnd : Prop

namespace FieldSpelling

def required (name : String) (value : Spelling) : FieldSpelling :=
  ⟨name, value, False, False⟩

def defaulted (name : String) (value : Spelling) (isDefault : Prop) : FieldSpelling :=
  ⟨name, value, isDefault, isDefault⟩

/-- A field that without a value may be missing, but only from an object. -/
def optional (name : String) (value : Spelling) (isNone : Prop) : FieldSpelling :=
  ⟨name, value, isNone, False⟩

def onLine (n : Line) : FieldSpelling :=
  defaulted "line" (Spelling.word n) (n = 0)

section

variable (name : String) (value : Spelling) (p : Prop)

@[simp] theorem required_name : (required name value).name = name := rfl

@[simp] theorem defaulted_name : (defaulted name value p).name = name := rfl

@[simp] theorem optional_name : (optional name value p).name = name := rfl

@[simp] theorem onLine_name (n : Line) : (onLine n).name = "line" := rfl

end

/-- The field is one of the members, or is missing and may be. -/
def Among (f : FieldSpelling) (members : List (String × Json)) : Prop :=
  (∃ j, (f.name, j) ∈ members ∧ f.value j) ∨ (∀ j, (f.name, j) ∉ members) ∧ f.mayMiss

/-- The items are the fields in order, and those after the last item may be left off. -/
def InOrder : List FieldSpelling → List Json → Prop
  | [], js => js = []
  | f :: fs, [] => f.mayEnd ∧ InOrder fs []
  | f :: fs, j :: js => f.value j ∧ InOrder fs js

end FieldSpelling

/-- The fields by name, in any order and with other members, or the fields in order.
By name no field is given twice. -/
def Spelling.record (fs : List FieldSpelling) : Spelling
  | .obj members => ∀ f ∈ fs, (members.map Prod.fst).count f.name ≤ 1 ∧ f.Among members
  | .arr js => FieldSpelling.InOrder fs js
  | _ => False

/-! ## Types, operators and headers -/

open Spelling FieldSpelling

def ArithOp.SpelledBy : ArithOp → Spelling :=
  operator ArithOp.ofSymbol?

def RelOp.SpelledBy : RelOp → Spelling :=
  operator RelOp.ofSymbol?

def LogicOp.SpelledBy : LogicOp → Spelling :=
  operator LogicOp.ofSymbol?

def Ty.SpelledBy : Ty → Spelling
  | .scalar s => tagged "scalar" (named s.text)
  | .array elem size => tagged "array" (record
      [required "elem" elem.SpelledBy, defaulted "size" (nullable word size) (size = none)])
  | .reference base => tagged "reference" base.SpelledBy

def Ident.SpelledBy (x : Ident) : Spelling :=
  record [required "name" (text x.name), onLine x.line]

def Group.SpelledBy (g : Group) : Spelling :=
  record [required "names" (list text g.names), required "ty" g.ty.SpelledBy,
    defaulted "by_ref" (flag g.byRef) (g.byRef = false), onLine g.line]

def Header.SpelledBy (h : Header) : Spelling :=
  record [required "name" h.ident.SpelledBy,
    defaulted "ret_type" (nullable Ty.SpelledBy h.result) (h.result = none),
    defaulted "params" (list Group.SpelledBy h.groups) (h.groups = []), onLine h.line]

/-! ## Expressions -/

def Spelling.binary (op left right : Spelling) (noLeft noRight : Prop) : Spelling :=
  record [required "op" op, optional "left" left noLeft, optional "right" right noRight]

mutual

def Expr.SpelledBy : Expr → Spelling
  | ⟨form, n⟩ => record [required "kind" form.SpelledBy, onLine n]
termination_by structural e => e

def ExprForm.SpelledBy : ExprForm → Spelling
  | .const value => tagged "const" (signedWord value)
  | .hex value => tagged "hex" (signedWord value)
  | .bool value => tagged "bool" (flag value)
  | .place p => tagged "l_value" p.SpelledBy
  | .call c => tagged "call" c.SpelledBy
  | .not operand => tagged "not"
      (record [optional "operand" (Expr.SpelledBy? operand) (operand = none)])
  | .arith op left right => tagged "arithmetic" (binary op.SpelledBy
      (Expr.SpelledBy? left) (Expr.SpelledBy? right) (left = none) (right = none))
  | .rel op left right => tagged "relational" (binary op.SpelledBy
      (Expr.SpelledBy? left) (Expr.SpelledBy? right) (left = none) (right = none))
  | .logic op left right => tagged "logical" (binary op.SpelledBy
      (Expr.SpelledBy? left) (Expr.SpelledBy? right) (left = none) (right = none))
termination_by structural form => form

def Place.SpelledBy : Place → Spelling
  | ⟨ident, indices, isString, n⟩ => record [required "ident" ident.SpelledBy,
      defaulted "indices" (items (Expr.EachSpelledBy indices)) (indices = []),
      defaulted "is_string" (flag isString) (isString = false), onLine n]
termination_by structural p => p

def Call.SpelledBy : Call → Spelling
  | ⟨callee, args, n⟩ => record [required "callee" callee.SpelledBy,
      defaulted "args" (items (Expr.EachSpelledBy args)) (args = []), onLine n]
termination_by structural c => c

def Expr.SpelledBy? : Option Expr → Spelling
  | none => fun j => j = .null
  | some e => e.SpelledBy
termination_by structural o => o

def Expr.EachSpelledBy : List Expr → List Json → Prop
  | [] => fun js => js = []
  | e :: es => fun js => ∃ j rest, js = j :: rest ∧ e.SpelledBy j ∧ Expr.EachSpelledBy es rest
termination_by structural es => es

end

/-! ## Statements -/

mutual

def Stmt.SpelledBy : Stmt → Spelling
  | ⟨form, n⟩ => record [required "kind" form.SpelledBy, onLine n]
termination_by structural s => s

def StmtForm.SpelledBy : StmtForm → Spelling
  | .assign target value => tagged "assign"
      (record [required "target" target.SpelledBy, required "value" value.SpelledBy])
  | .skip => named "skip"
  | .exit => named "exit"
  | .ret value => tagged "return" (nullable Expr.SpelledBy value)
  | .brk label => tagged "break" (nullable text label)
  | .cont label => tagged "continue" (nullable text label)
  | .cond branches => tagged "if" (items (Branch.EachSpelledBy branches))
  | .loop label body => tagged "loop"
      (record [defaulted "label" (nullable text label) (label = none),
        required "body" (items (Stmt.EachSpelledBy body))])
  | .proc call => tagged "proc_call" call.SpelledBy
  | .define d => tagged "func_def" d.SpelledBy
  | .declare h => tagged "func_decl" h.SpelledBy
  | .vars names ty => tagged "var_decl"
      (record [required "names" (list text names), required "ty" ty.SpelledBy])
termination_by structural form => form

def Branch.SpelledBy : Branch → Spelling
  | ⟨condition, body, n⟩ =>
    record [defaulted "condition" (nullable Expr.SpelledBy condition) (condition = none),
      defaulted "body" (items (Stmt.EachSpelledBy body)) (body = []), onLine n]
termination_by structural b => b

def Definition.SpelledBy : Definition → Spelling
  | ⟨header, body, n⟩ => record [required "header" header.SpelledBy,
      defaulted "body" (items (Stmt.EachSpelledBy body)) (body = []), onLine n]
termination_by structural d => d

def Stmt.EachSpelledBy : List Stmt → List Json → Prop
  | [] => fun js => js = []
  | s :: ss => fun js => ∃ j rest, js = j :: rest ∧ s.SpelledBy j ∧ Stmt.EachSpelledBy ss rest
termination_by structural ss => ss

def Branch.EachSpelledBy : List Branch → List Json → Prop
  | [] => fun js => js = []
  | b :: bs => fun js => ∃ j rest, js = j :: rest ∧ b.SpelledBy j ∧ Branch.EachSpelledBy bs rest
termination_by structural bs => bs

end

/-- A program is written as the array of its statements. -/
def Program.SpelledBy (p : Program) : Spelling :=
  items (Stmt.EachSpelledBy p)

/-! ## Reports -/

def Finding.SpelledBy (f : Finding) : Spelling :=
  record [required "code" (text f.code), required "kind" (text f.kind),
    required "message" (text f.message), optional "line" (nullable word f.line) (f.line = none)]

def Report.SpelledBy (r : Report) : Spelling :=
  record [required "success" (flag r.success),
    optional "source_file" (nullable Spelling.text r.sourceFile) (r.sourceFile = none),
    required "diagnostics" (list Finding.SpelledBy r.findings)]

/-! ## Lists and options of nodes

The relations on lists and options recurse with the nodes; they are the general ones. -/

theorem Expr.spelledBy?_eq (o : Option Expr) : Expr.SpelledBy? o = nullable Expr.SpelledBy o := by
  cases o <;> rfl

theorem Spelling.each_eq {α : Type} {sp : α → Spelling} {each : List α → List Json → Prop}
    (nil : each [] = fun js => js = [])
    (cons : ∀ a as, each (a :: as) = fun js => ∃ j rest, js = j :: rest ∧ sp a j ∧ each as rest)
    (as : List α) : each as = List.Forall₂ sp as := by
  funext js
  induction as generalizing js with
  | nil => simp [nil]
  | cons a as ih =>
    rw [cons, List.forall₂_cons_left_iff, eq_iff_iff]
    constructor
    · rintro ⟨j, rest, rfl, ha, hrest⟩
      exact ⟨j, rest, ha, ih rest ▸ hrest, rfl⟩
    · rintro ⟨j, rest, ha, hrest, rfl⟩
      exact ⟨j, rest, rfl, ha, (ih rest).symm ▸ hrest⟩

theorem Expr.eachSpelledBy_eq : ∀ es, Expr.EachSpelledBy es = List.Forall₂ Expr.SpelledBy es :=
  Spelling.each_eq rfl fun _ _ => rfl

theorem Stmt.eachSpelledBy_eq : ∀ ss, Stmt.EachSpelledBy ss = List.Forall₂ Stmt.SpelledBy ss :=
  Spelling.each_eq rfl fun _ _ => rfl

theorem Branch.eachSpelledBy_eq : ∀ bs, Branch.EachSpelledBy bs = List.Forall₂ Branch.SpelledBy bs :=
  Spelling.each_eq rfl fun _ _ => rfl

end Dana
