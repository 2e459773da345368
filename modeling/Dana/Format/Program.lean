import Dana.Format.Signature
import Dana.Program

/-!
# Programs as JSON values

Writing gives every field. Reading takes the fields with a default as missing
too, and each operator in all its spellings.
-/

namespace Dana

/-! ## Writing -/

mutual

def Expr.toJson : Expr → Json
  | ⟨form, line⟩ => .obj [("kind", form.toJson), ("line", .ofWord line)]

def ExprForm.toJson : ExprForm → Json
  | .const value => .obj [("const", .int value.toInt)]
  | .hex value => .obj [("hex", .int value.toInt)]
  | .bool value => .obj [("bool", .bool value)]
  | .place p => .obj [("l_value", p.toJson)]
  | .call c => .obj [("call", c.toJson)]
  | .not operand => .obj [("not", .obj [("operand", Expr.toJson? operand)])]
  | .arith op left right => .obj [("arithmetic",
      .obj [("op", op.toJson), ("left", Expr.toJson? left), ("right", Expr.toJson? right)])]
  | .rel op left right => .obj [("relational",
      .obj [("op", op.toJson), ("left", Expr.toJson? left), ("right", Expr.toJson? right)])]
  | .logic op left right => .obj [("logical",
      .obj [("op", op.toJson), ("left", Expr.toJson? left), ("right", Expr.toJson? right)])]

def Place.toJson : Place → Json
  | ⟨ident, indices, isString, line⟩ =>
    .obj [("ident", ident.toJson), ("indices", .arr (Expr.listToJson indices)),
      ("is_string", .bool isString), ("line", .ofWord line)]

def Call.toJson : Call → Json
  | ⟨callee, args, line⟩ =>
    .obj [("callee", callee.toJson), ("args", .arr (Expr.listToJson args)), ("line", .ofWord line)]

def Expr.toJson? : Option Expr → Json
  | none => .null
  | some e => e.toJson

def Expr.listToJson : List Expr → List Json
  | [] => []
  | e :: es => e.toJson :: Expr.listToJson es

end

mutual

def Stmt.toJson : Stmt → Json
  | ⟨form, line⟩ => .obj [("kind", form.toJson), ("line", .ofWord line)]

def StmtForm.toJson : StmtForm → Json
  | .assign target value => .obj [("assign", .obj [("target", target.toJson), ("value", value.toJson)])]
  | .skip => .str "skip"
  | .exit => .str "exit"
  | .ret value => .obj [("return", Expr.toJson? value)]
  | .brk label => .obj [("break", .ofOption .str label)]
  | .cont label => .obj [("continue", .ofOption .str label)]
  | .cond branches => .obj [("if", .arr (Branch.listToJson branches))]
  | .loop label body =>
    .obj [("loop", .obj [("label", .ofOption .str label), ("body", .arr (Stmt.listToJson body))])]
  | .proc call => .obj [("proc_call", call.toJson)]
  | .define d => .obj [("func_def", d.toJson)]
  | .declare h => .obj [("func_decl", h.toJson)]
  | .vars names ty => .obj [("var_decl", .obj [("names", .arr (names.map .str)), ("ty", ty.toJson)])]

def Branch.toJson : Branch → Json
  | ⟨condition, body, line⟩ =>
    .obj [("condition", Expr.toJson? condition), ("body", .arr (Stmt.listToJson body)),
      ("line", .ofWord line)]

def Definition.toJson : Definition → Json
  | ⟨header, body, line⟩ =>
    .obj [("header", header.toJson), ("body", .arr (Stmt.listToJson body)), ("line", .ofWord line)]

def Stmt.listToJson : List Stmt → List Json
  | [] => []
  | s :: ss => s.toJson :: Stmt.listToJson ss

def Branch.listToJson : List Branch → List Json
  | [] => []
  | b :: bs => b.toJson :: Branch.listToJson bs

end

def Program.toJson (p : Program) : Json :=
  .arr (Stmt.listToJson p)

/-! ## Reading -/

/-- The record of a binary operator, whose operands may be absent. -/
def Json.binary {α β : Type} (make : α → Option β → Option β → ExprForm)
    (op : Json → Decoded α) (operand : Json → Decoded β) (j : Json) : Decoded ExprForm :=
  j.record ["op", "left", "right"] fun r =>
    make <$> r.required "op" op <*> r.optional "left" operand <*> r.optional "right" operand

mutual

def Expr.ofJson : (room : Nat) → Json → Decoded Expr
  | 0, _ => .error .form
  | room + 1, j => j.record ["kind", "line"] fun r =>
    .mk <$> r.required "kind" (ExprForm.ofJson room) <*> r.defaulted "line" 0 Json.word

def ExprForm.ofJson : (room : Nat) → Json → Decoded ExprForm
  | 0, _ => .error .form
  | room + 1, j => j.tagged (fun _ => .error .form) fun
    | "const", j => .const <$> j.signedWord
    | "hex", j => .hex <$> j.signedWord
    | "bool", j => .bool <$> j.flag
    | "l_value", j => .place <$> Place.ofJson room j
    | "call", j => .call <$> Call.ofJson room j
    | "not", j => ExprForm.notOfJson room j
    | "arithmetic", j => ExprForm.arithOfJson room j
    | "relational", j => ExprForm.relOfJson room j
    | "logical", j => ExprForm.logicOfJson room j
    | _, _ => .error .form

def ExprForm.notOfJson : (room : Nat) → Json → Decoded ExprForm
  | 0, _ => .error .form
  | room + 1, j => j.record ["operand"] fun r =>
    .not <$> r.optional "operand" (Expr.ofJson room)

def ExprForm.arithOfJson : (room : Nat) → Json → Decoded ExprForm
  | 0, _ => .error .form
  | room + 1, j => j.binary .arith ArithOp.ofJson (Expr.ofJson room)

def ExprForm.relOfJson : (room : Nat) → Json → Decoded ExprForm
  | 0, _ => .error .form
  | room + 1, j => j.binary .rel RelOp.ofJson (Expr.ofJson room)

def ExprForm.logicOfJson : (room : Nat) → Json → Decoded ExprForm
  | 0, _ => .error .form
  | room + 1, j => j.binary .logic LogicOp.ofJson (Expr.ofJson room)

def Place.ofJson : (room : Nat) → Json → Decoded Place
  | 0, _ => .error .form
  | room + 1, j => j.record ["ident", "indices", "is_string", "line"] fun r =>
    .mk <$> r.required "ident" (Ident.ofJson room)
      <*> r.defaulted "indices" [] (Expr.listOfJson room)
      <*> r.defaulted "is_string" false Json.flag
      <*> r.defaulted "line" 0 Json.word

def Call.ofJson : (room : Nat) → Json → Decoded Call
  | 0, _ => .error .form
  | room + 1, j => j.record ["callee", "args", "line"] fun r =>
    .mk <$> r.required "callee" (Ident.ofJson room)
      <*> r.defaulted "args" [] (Expr.listOfJson room)
      <*> r.defaulted "line" 0 Json.word

def Expr.listOfJson : (room : Nat) → Json → Decoded (List Expr)
  | 0, _ => .error .form
  | room + 1, j => j.items (Expr.ofJson room)

end

/-- The statements that are a tag alone. -/
def StmtForm.ofTag : String → Decoded StmtForm
  | "skip" => .ok .skip
  | "exit" => .ok .exit
  | _ => .error .form

/-- A tag that needs no payload, with `null` for one. -/
def StmtForm.ofTagNull (tag : String) : Json → Decoded StmtForm
  | .null => StmtForm.ofTag tag
  | _ => .error .form

mutual

def Stmt.ofJson : (room : Nat) → Json → Decoded Stmt
  | 0, _ => .error .form
  | room + 1, j => j.record ["kind", "line"] fun r =>
    .mk <$> r.required "kind" (StmtForm.ofJson room) <*> r.defaulted "line" 0 Json.word

def StmtForm.ofJson : (room : Nat) → Json → Decoded StmtForm
  | 0, j => j.tagged StmtForm.ofTag fun _ _ => .error .form
  | room + 1, j => j.tagged StmtForm.ofTag fun
    | "assign", j => StmtForm.assignOfJson room j
    | "return", j => .ret <$> j.nullable (Expr.ofJson room)
    | "break", j => .brk <$> j.nullable Json.text
    | "continue", j => .cont <$> j.nullable Json.text
    | "if", j => .cond <$> Branch.listOfJson room j
    | "loop", j => StmtForm.loopOfJson room j
    | "proc_call", j => .proc <$> Expr.ofJson room j
    | "func_def", j => .define <$> Definition.ofJson room j
    | "func_decl", j => .declare <$> Header.ofJson room j
    | "var_decl", j => StmtForm.varsOfJson room j
    | tag, j => StmtForm.ofTagNull tag j

def StmtForm.assignOfJson : (room : Nat) → Json → Decoded StmtForm
  | 0, _ => .error .form
  | room + 1, j => j.record ["target", "value"] fun r =>
    .assign <$> r.required "target" (Place.ofJson room) <*> r.required "value" (Expr.ofJson room)

def StmtForm.loopOfJson : (room : Nat) → Json → Decoded StmtForm
  | 0, _ => .error .form
  | room + 1, j => j.record ["label", "body"] fun r =>
    .loop <$> r.defaulted "label" none (Json.nullable Json.text) <*> r.required "body" (Stmt.listOfJson room)

def StmtForm.varsOfJson : (room : Nat) → Json → Decoded StmtForm
  | 0, _ => .error .form
  | room + 1, j => j.record ["names", "ty"] fun r =>
    .vars <$> r.required "names" (Json.list (fun _ => Json.text) room) <*> r.required "ty" (Ty.ofJson room)

def Branch.ofJson : (room : Nat) → Json → Decoded Branch
  | 0, _ => .error .form
  | room + 1, j => j.record ["condition", "body", "line"] fun r =>
    .mk <$> r.defaulted "condition" none (Json.nullable (Expr.ofJson room))
      <*> r.defaulted "body" [] (Stmt.listOfJson room)
      <*> r.defaulted "line" 0 Json.word

def Definition.ofJson : (room : Nat) → Json → Decoded Definition
  | 0, _ => .error .form
  | room + 1, j => j.record ["header", "body", "line"] fun r =>
    .mk <$> r.required "header" (Header.ofJson room)
      <*> r.defaulted "body" [] (Stmt.listOfJson room)
      <*> r.defaulted "line" 0 Json.word

def Stmt.listOfJson : (room : Nat) → Json → Decoded (List Stmt)
  | 0, _ => .error .form
  | room + 1, j => j.items (Stmt.ofJson room)

def Branch.listOfJson : (room : Nat) → Json → Decoded (List Branch)
  | 0, _ => .error .form
  | room + 1, j => j.items (Branch.ofJson room)

end

def Program.ofJson : (room : Nat) → Json → Decoded Program :=
  Stmt.listOfJson

/-- Reads a value however deep it nests. -/
def Json.decode {α : Type} (read : (room : Nat) → Json → Decoded α) (j : Json) : Decoded α :=
  read j.depth j

end Dana
