/-!
# Operators

Binary operators come in three families. Each operator has one symbol it is
written with; some have a second spelling that is read as well.
-/

namespace Dana

inductive ArithOp
  | add
  | sub
  | mul
  | div
  | mod
deriving DecidableEq, Repr, Inhabited

inductive RelOp
  | eq
  | ne
  | lt
  | gt
  | le
  | ge
deriving DecidableEq, Repr, Inhabited

inductive LogicOp
  | and
  | or
deriving DecidableEq, Repr, Inhabited

def ArithOp.symbol : ArithOp → String
  | .add => "+"
  | .sub => "-"
  | .mul => "*"
  | .div => "/"
  | .mod => "%"

def ArithOp.ofSymbol? : String → Option ArithOp
  | "+" => some .add
  | "-" => some .sub
  | "*" => some .mul
  | "/" => some .div
  | "%" => some .mod
  | _ => none

def RelOp.symbol : RelOp → String
  | .eq => "="
  | .ne => "<>"
  | .lt => "<"
  | .gt => ">"
  | .le => "<="
  | .ge => ">="

def RelOp.ofSymbol? : String → Option RelOp
  | "=" | "==" => some .eq
  | "<>" | "!=" => some .ne
  | "<" => some .lt
  | ">" => some .gt
  | "<=" => some .le
  | ">=" => some .ge
  | _ => none

def LogicOp.symbol : LogicOp → String
  | .and => "and"
  | .or => "or"

def LogicOp.ofSymbol? : String → Option LogicOp
  | "and" | "&" => some .and
  | "or" | "|" => some .or
  | _ => none

end Dana
