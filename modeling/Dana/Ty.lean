/-!
# Types

The language has four scalar types, arrays and references. An array may leave
its size open; a reference is what a by-reference parameter holds.

Checking compares types by `kind` only, which looks through references and
sees every array alike.
-/

namespace Dana

inductive Scalar
  | int
  | byte
  | void
  | bool
deriving DecidableEq, Repr, Inhabited

namespace Scalar

/-- The keyword of the scalar. -/
def text : Scalar → String
  | .int => "int"
  | .byte => "byte"
  | .void => "void"
  | .bool => "bool"

def ofText? : String → Option Scalar
  | "int" => some .int
  | "byte" => some .byte
  | "void" => some .void
  | "bool" => some .bool
  | _ => none

end Scalar

inductive Ty
  | scalar (s : Scalar)
  | array (elem : Ty) (size : Option UInt32)
  | reference (base : Ty)
deriving DecidableEq, Repr, Inhabited

/-- What checking compares: the scalar, or that it is an array. -/
inductive Kind
  | scalar (s : Scalar)
  | array
deriving DecidableEq, Repr, Inhabited

namespace Ty

@[match_pattern] abbrev int : Ty := .scalar .int

@[match_pattern] abbrev byte : Ty := .scalar .byte

@[match_pattern] abbrev void : Ty := .scalar .void

@[match_pattern] abbrev bool : Ty := .scalar .bool

/-- The type of a string literal: bytes, of no fixed number. -/
def string : Ty := .array .byte none

/-- The type held by a parameter passed by reference. A reference stays as it is. -/
def byReference : Ty → Ty
  | .reference t => .reference t
  | t => .reference t

/-- The type under one reference. -/
def deref : Ty → Ty
  | .reference t => t
  | t => t

def isReference : Ty → Bool
  | .reference _ => true
  | _ => false

/-- An array, or a reference to one. -/
def isArray (t : Ty) : Bool :=
  match t.deref with
  | .array _ _ => true
  | _ => false

/-- An array without a size, or a reference to one. Size 0 counts as none. -/
def isUnsized (t : Ty) : Bool :=
  match t.deref with
  | .array _ none => true
  | .array _ (some n) => n = 0
  | _ => false

/-- The type one layer in: an array's element, a reference's target. -/
def inner? : Ty → Option Ty
  | .scalar _ => none
  | .array elem _ => some elem
  | .reference base => some base

def kind : Ty → Kind
  | .scalar s => .scalar s
  | .array _ _ => .array
  | .reference base => base.kind

/-- Two types agree when they have the same kind. -/
def agrees (t u : Ty) : Bool :=
  t.kind = u.kind

/-- Agreement of types that may be absent: an absent type agrees with none. -/
def agrees? : Option Ty → Option Ty → Bool
  | some t, some u => t.agrees u
  | _, _ => false

/-! ## Text -/

/-- One dimension in brackets; no size and size 0 leave them empty. -/
def dimText : Option UInt32 → String
  | none => "[]"
  | some n => if n = 0 then "[]" else "[" ++ n.toNat.repr ++ "]"

/-- The text of a type with the dimensions `dims` of the arrays round it.
Dimensions stand after the element type, the outermost first. -/
def textWith (dims : String) : Ty → String
  | .scalar s => s.text ++ dims
  | .array elem size => elem.textWith (dims ++ dimText size)
  | .reference base => "ref " ++ base.textWith "" ++ dims

def text (t : Ty) : String :=
  t.textWith ""

end Ty

end Dana
