import Dana.Fault

/-!
# Events

The records that a check writes to its journal.
-/

namespace Dana

/-- A record of the journal. Depths are those after the change. -/
inductive Event
  | checkingProgram (count : Nat)
  | programPassed
  | registered (h : Header)
  | checkingFunction (h : Header)
  | labelledLoop (label : String) (line : Line)
  | scopeOpened (depth : Nat)
  | scopeClosed (depth : Nat)
  | loopOpened (depth : Nat)
  | loopClosed (depth : Nat)
deriving DecidableEq, Repr

namespace Event

/-- The level of a record: changes of depth are traced, all else is for debugging. -/
def level : Event → String
  | .scopeOpened _ | .scopeClosed _ | .loopOpened _ | .loopClosed _ => "TRACE"
  | _ => "DEBUG"

def message : Event → String
  | .checkingProgram count => "checking " ++ count.repr ++ " top-level declarations"
  | .programPassed => "semantic check passed"
  | .registered h => "registered function " ++ h.text
  | .checkingFunction h => "checking function " ++ h.text
  | .labelledLoop label line => "entering loop " ++ quoted label ++ " at " ++ lineText line
  | .scopeOpened depth => "enter scope (depth " ++ depth.repr ++ ")"
  | .scopeClosed depth => "exit scope (depth " ++ depth.repr ++ ")"
  | .loopOpened depth => "enter loop (depth " ++ depth.repr ++ ")"
  | .loopClosed depth => "exit loop (depth " ++ depth.repr ++ ")"

def text (e : Event) : String :=
  e.level ++ " " ++ e.message

end Event

end Dana
