/-!
# JSON values

Values as a JSON text writes them. An object keeps its members in order and
may repeat a name, and a number is an integer only if it is written as one.
-/

namespace Dana

inductive Json
  | null
  | bool (b : Bool)
  | int (n : Int)
  /-- A number written with a fraction, an exponent or as minus zero. -/
  | real (literal : String)
  | str (s : String)
  | arr (items : List Json)
  | obj (members : List (String × Json))
  /-- A string with half a surrogate pair in it, or an object with such a name.
  The text is well formed, but there is no value to speak of. -/
  | garbled
deriving Inhabited, Repr

namespace Json

mutual

/-- How deep arrays and objects nest. -/
def depth : Json → Nat
  | .arr items => depthItems items + 1
  | .obj members => depthMembers members + 1
  | _ => 0

def depthItems : List Json → Nat
  | [] => 0
  | j :: js => max j.depth (depthItems js)

def depthMembers : List (String × Json) → Nat
  | [] => 0
  | (_, j) :: ms => max j.depth (depthMembers ms)

end

/-- A value that may be absent; absence is written `null`. -/
def ofOption {α : Type} (write : α → Json) : Option α → Json
  | none => .null
  | some a => write a

end Json

end Dana
