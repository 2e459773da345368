import Dana.Header

/-!
# Faults

A fault is what stops a check: a cause and the line it is reported at. The
message, the name of the kind and the code are functions of the cause.
-/

namespace Dana

inductive Cause
  | redeclaration (what name : String)
  | undeclaredVariable (name : String)
  | undefinedFunction (name : String)
  | arity (function : String) (expected got : Nat)
  | argumentType (function param : String) (expected got : Ty)
  | typeMismatch (context : String) (expected got : Ty)
  | arrayAssignment (reason : String)
  | conditionType (got : Ty)
  | notAnArray (name : String)
  | indexType (name : String) (got : Ty)
  | loopContext (keyword : String)
  | nullOperand (operator : String)
  | malformed (what : String)
  | internal (message : String)
deriving DecidableEq, Repr, Inhabited

structure Fault where
  cause : Cause
  line : Line
deriving DecidableEq, Repr, Inhabited

/-- The text between single quotes. -/
def quoted (s : String) : String :=
  "'" ++ s ++ "'"

namespace Cause

def message : Cause → String
  | .redeclaration what name => "Redeclaration of " ++ what ++ " " ++ quoted name
  | .undeclaredVariable name => "Undeclared variable " ++ quoted name
  | .undefinedFunction name => "Undefined function " ++ quoted name
  | .arity function expected got =>
    "Function " ++ quoted function ++ " expects " ++ expected.repr ++ " args, got " ++ got.repr
  | .argumentType function param expected got =>
    "Type mismatch in argument " ++ quoted param ++ " of " ++ quoted function
      ++ ": expected " ++ expected.text ++ ", got " ++ got.text
  | .typeMismatch context expected got =>
    "Type mismatch in " ++ context ++ ": " ++ expected.text ++ " and " ++ got.text
  | .arrayAssignment reason => "Invalid assignment: " ++ reason
  | .conditionType got => "Condition must be of boolean type, got " ++ got.text
  | .notAnArray name => "Variable " ++ quoted name ++ " is not an array"
  | .indexType name got => "Array index for " ++ quoted name ++ " must be int, got " ++ got.text
  | .loopContext keyword => quoted keyword ++ " used outside of any loop"
  | .nullOperand operator => "Null operand for operator " ++ quoted operator
  | .malformed what => "Malformed " ++ what
  | .internal message => "Internal error: " ++ message

def kindName : Cause → String
  | .redeclaration .. => "RedeclarationError"
  | .undeclaredVariable .. => "UndeclaredVariableError"
  | .undefinedFunction .. => "UndefinedFunctionError"
  | .arity .. => "ArityError"
  | .argumentType .. => "ArgumentTypeError"
  | .typeMismatch .. => "TypeMismatchError"
  | .arrayAssignment .. => "ArrayAssignmentError"
  | .conditionType .. => "ConditionTypeError"
  | .notAnArray .. => "NotAnArrayError"
  | .indexType .. => "IndexTypeError"
  | .loopContext .. => "LoopContextError"
  | .nullOperand .. => "NullOperandError"
  | .malformed .. => "MalformedNodeError"
  | .internal .. => "InternalError"

def code : Cause → String
  | .redeclaration .. => "E0001"
  | .undeclaredVariable .. => "E0002"
  | .undefinedFunction .. => "E0003"
  | .arity .. => "E0004"
  | .argumentType .. => "E0005"
  | .typeMismatch .. => "E0006"
  | .arrayAssignment .. => "E0007"
  | .conditionType .. => "E0008"
  | .notAnArray .. => "E0009"
  | .indexType .. => "E0010"
  | .loopContext .. => "E0011"
  | .nullOperand .. => "E0012"
  | .malformed .. => "E0013"
  | .internal .. => "E0014"

end Cause

namespace Fault

def message (f : Fault) : String :=
  f.cause.message

def kindName (f : Fault) : String :=
  f.cause.kindName

def code (f : Fault) : String :=
  f.cause.code

/-- The line for a reader; line 0 is none. -/
def line? (f : Fault) : Option Line :=
  if f.line = 0 then none else some f.line

/-- The fault of a symbol that no operator of the family has. -/
def unknownOperator (symbol : String) : Fault :=
  ⟨.internal ("Unknown expression operator " ++ quoted symbol), 0⟩

end Fault

/-- The text of a line in a message. -/
def lineText (line : Line) : String :=
  "line " ++ line.toNat.repr

end Dana
