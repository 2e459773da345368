import Dana.Fault
import Dana.Format.Record
import Dana.Operator

/-!
# Types, operators and headers as JSON values
-/

namespace Dana

/-- The message of a fault in a value, where it has one of its own. -/
def DecodeError.message? : DecodeError → Option String
  | .form => none
  | .unknownOperator symbol => some (Fault.unknownOperator symbol).message

/-! ## Operators -/

/-- Reads an operator by its symbol. -/
def Json.operator {α : Type} (read : String → Option α) : Json → Decoded α
  | .str symbol =>
    match read symbol with
    | some op => .ok op
    | none => .error (.unknownOperator symbol)
  | _ => .error .form

def ArithOp.ofJson : Json → Decoded ArithOp :=
  Json.operator ArithOp.ofSymbol?

def RelOp.ofJson : Json → Decoded RelOp :=
  Json.operator RelOp.ofSymbol?

def LogicOp.ofJson : Json → Decoded LogicOp :=
  Json.operator LogicOp.ofSymbol?

def ArithOp.toJson (op : ArithOp) : Json :=
  .str op.symbol

def RelOp.toJson (op : RelOp) : Json :=
  .str op.symbol

def LogicOp.toJson (op : LogicOp) : Json :=
  .str op.symbol

/-! ## Types -/

def Json.ofWord (n : UInt32) : Json :=
  .int n.toNat

namespace Ty

def toJson : Ty → Json
  | .scalar s => .obj [("scalar", .str s.text)]
  | .array elem size => .obj [("array", .obj [("elem", elem.toJson), ("size", .ofOption .ofWord size)])]
  | .reference base => .obj [("reference", base.toJson)]

mutual

def ofJson : (room : Nat) → Json → Decoded Ty
  | 0, _ => .error .form
  | room + 1, j => j.tagged (fun _ => .error .form) fun
    | "scalar", j => .scalar <$> j.named Scalar.ofText? room
    | "array", j => arrayOfJson room j
    | "reference", j => .reference <$> ofJson room j
    | _, _ => .error .form

/-- An array type from its record of element and size. -/
def arrayOfJson : (room : Nat) → Json → Decoded Ty
  | 0, _ => .error .form
  | room + 1, j => j.record ["elem", "size"] fun r =>
    .array <$> r.required "elem" (ofJson room) <*> r.defaulted "size" none (Json.nullable Json.word)

end

end Ty

/-! ## Headers -/

namespace Ident

def toJson (x : Ident) : Json :=
  .obj [("name", .str x.name), ("line", .ofWord x.line)]

def ofJson : (room : Nat) → Json → Decoded Ident
  | 0, _ => .error .form
  | _ + 1, j => j.record ["name", "line"] fun r =>
    .mk <$> r.required "name" Json.text <*> r.defaulted "line" 0 Json.word

end Ident

namespace Group

def toJson (g : Group) : Json :=
  .obj [("names", .arr (g.names.map .str)), ("ty", g.ty.toJson), ("by_ref", .bool g.byRef),
    ("line", .ofWord g.line)]

def ofJson : (room : Nat) → Json → Decoded Group
  | 0, _ => .error .form
  | room + 1, j => j.record ["names", "ty", "by_ref", "line"] fun r =>
    .mk <$> r.required "names" (Json.list (fun _ => Json.text) room)
      <*> r.required "ty" (Ty.ofJson room)
      <*> r.defaulted "by_ref" false Json.flag
      <*> r.defaulted "line" 0 Json.word

end Group

namespace Header

def toJson (h : Header) : Json :=
  .obj [("name", h.ident.toJson), ("ret_type", .ofOption Ty.toJson h.result),
    ("params", .arr (h.groups.map Group.toJson)), ("line", .ofWord h.line)]

def ofJson : (room : Nat) → Json → Decoded Header
  | 0, _ => .error .form
  | room + 1, j => j.record ["name", "ret_type", "params", "line"] fun r =>
    .mk <$> r.required "name" (Ident.ofJson room)
      <*> r.defaulted "ret_type" none (Json.nullable (Ty.ofJson room))
      <*> r.defaulted "params" [] (Json.list Group.ofJson room)
      <*> r.defaulted "line" 0 Json.word

end Header

end Dana
