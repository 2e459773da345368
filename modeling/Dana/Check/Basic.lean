import Dana.Event
import Dana.Table

/-!
# Actions on the symbol table

A check goes over a program, changes the table and writes a journal. An action
`Check α` takes a table and gives an `Outcome`: a result or a fault, the table
as it was left, and what was written. A fault ends the action but takes
nothing back, so scopes and loops that were open stay open.
-/

namespace Dana

structure Outcome (α : Type) where
  result : Except Fault α
  table : Table
  journal : List Event

def Check (α : Type) := Table → Outcome α

namespace Check

variable {α β : Type}

def run (m : Check α) (t : Table) : Outcome α :=
  m t

protected def pure (a : α) : Check α :=
  fun t => ⟨.ok a, t, []⟩

protected def bind (m : Check α) (f : α → Check β) : Check β := fun t =>
  match m.run t with
  | ⟨.ok a, t', journal⟩ =>
    let o := (f a).run t'
    { o with journal := journal ++ o.journal }
  | ⟨.error e, t', journal⟩ => ⟨.error e, t', journal⟩

instance : Monad Check where
  pure := Check.pure
  bind := Check.bind

theorem run_bind_ok {m : Check α} {k : α → Check β} {t u : Table} {a : α} {j : List Event}
    (h : m.run t = ⟨.ok a, u, j⟩) :
    (m >>= k).run t = ⟨((k a).run u).result, ((k a).run u).table, j ++ ((k a).run u).journal⟩ := by
  have h' : m t = ⟨.ok a, u, j⟩ := h
  simp only [bind, Check.bind, run, h']

theorem run_bind_error {m : Check α} {k : α → Check β} {t u : Table} {f : Fault} {j : List Event}
    (h : m.run t = ⟨.error f, u, j⟩) : (m >>= k).run t = ⟨.error f, u, j⟩ := by
  have h' : m t = ⟨.error f, u, j⟩ := h
  simp only [bind, Check.bind, run, h']

instance : LawfulMonad Check := LawfulMonad.mk' Check
  (by
    intro α m
    funext t
    show (m >>= pure).run t = m.run t
    rcases hm : m.run t with ⟨f | a, u, j⟩
    · exact run_bind_error hm
    · rw [run_bind_ok hm]
      show (⟨.ok a, u, j ++ []⟩ : Outcome α) = _
      rw [List.append_nil])
  (fun _ _ => rfl)
  (by
    intro α β γ m k l
    funext t
    show (m >>= k >>= l).run t = (m >>= fun a => k a >>= l).run t
    rcases hm : m.run t with ⟨f | a, u, j⟩
    · rw [run_bind_error hm, run_bind_error (run_bind_error hm)]
    · have hmk := run_bind_ok hm (k := k)
      rw [run_bind_ok hm]
      rcases hk : (k a).run u with ⟨f | b, v, j'⟩
      · rw [hk] at hmk
        rw [run_bind_error hk, run_bind_error hmk]
      · rw [hk] at hmk
        rw [run_bind_ok hk, run_bind_ok hmk, List.append_assoc])

def fail (cause : Cause) (line : Line) : Check α :=
  fun t => ⟨.error ⟨cause, line⟩, t, []⟩

/-- Asks the table, which stays as it is. -/
def ask (f : Table → Except Fault α) : Check α :=
  fun t => ⟨f t, t, []⟩

/-- Writes a record. -/
def note (e : Event) : Check Unit :=
  fun t => ⟨.ok (), t, [e]⟩

/-- Changes the table, unless that is a fault, and writes a record of the new one. -/
def change (f : Table → Except Fault Table) (record : Table → List Event) : Check Unit := fun t =>
  match f t with
  | .ok t' => ⟨.ok (), t', record t'⟩
  | .error e => ⟨.error e, t, []⟩

/-! ## Scopes and loops -/

def openScope : Check Unit :=
  change (fun t => .ok t.openScope) fun t => [.scopeOpened t.depth]

def closeScope : Check Unit :=
  change Table.closeScope fun t => [.scopeClosed t.depth]

def openLoop : Check Unit :=
  change (fun t => .ok t.openLoop) fun t => [.loopOpened t.loopDepth]

def closeLoop : Check Unit :=
  change (fun t => .ok t.closeLoop) fun t => [.loopClosed t.loopDepth]

/-! ## Declarations -/

/-- Binds a name in the innermost scope. -/
def bindName (role : Role) (name : String) (ty : Ty) (line : Line) : Check Unit :=
  change (·.declare (.ofBinding role name ty line)) fun _ => []

/-- Enters a function into the global scope. -/
def register (h : Header) : Check Unit :=
  if h.name = "" then fail (.malformed "function header") h.line
  else change (·.declareGlobal (.ofHeader h)) fun _ => [.registered h]

end Check

end Dana
