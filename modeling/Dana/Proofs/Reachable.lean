import Mathlib.Logic.Relation
import Dana.Proofs.Run

/-!
# Reachable tables

A session starts with the empty table and goes on with any operation, whether
the one before passed or not. Whatever the checker does to a table it does by a
few changes (`Table.Step`), so what these keep holds of every reachable table:
functions, for one, are found in the global scope only.
-/

namespace Dana

open Relation

/-! ## Steps -/

inductive Table.Step : Table → Table → Prop
  | openScope {t} : Step t t.openScope
  | closeScope {t u} : t.closeScope = .ok u → Step t u
  | openLoop {t} : Step t t.openLoop
  | closeLoop {t} : Step t t.closeLoop
  | bind {t u role name ty line} : t.declare (.ofBinding role name ty line) = .ok u → Step t u
  | register {t u h} : h.name ≠ "" → t.declareGlobal (.ofHeader h) = .ok u → Step t u

namespace Check

variable {α β : Type}

/-- Whether it ends well or not, the action has taken the table through steps. -/
def Walks (m : Check α) : Prop :=
  ∀ t, ReflTransGen Table.Step t (m.run t).table

theorem walks_pure {a : α} : (pure a : Check α).Walks := fun _ => .refl

theorem walks_fail {cause : Cause} {line : Line} : (fail cause line : Check α).Walks := fun _ => .refl

theorem walks_ask {g : Table → Except Fault α} : (ask g).Walks := fun _ => .refl

theorem walks_note {e : Event} : (note e).Walks := fun _ => .refl

theorem walks_bind {m : Check α} {k : α → Check β} (hm : m.Walks) (hk : ∀ a, (k a).Walks) : (m >>= k).Walks := by
  intro t
  have hm := hm t
  rcases h : m.run t with ⟨f | a, u, j⟩
  · rw [h] at hm
    rw [run_bind_error h]
    exact hm
  · rw [h] at hm
    rw [run_bind_ok h]
    exact hm.trans (hk a u)

theorem walks_change {g : Table → Except Fault Table} {r : Table → List Event}
    (hg : ∀ t u, g t = .ok u → Table.Step t u) : (change g r).Walks := by
  intro t
  simp only [run, change]
  cases h : g t with
  | error f => exact .refl
  | ok u => exact .single (hg t u h)

theorem walks_openScope : openScope.Walks :=
  walks_change fun _ _ h => by cases h; exact .openScope

theorem walks_closeScope : closeScope.Walks :=
  walks_change fun _ _ h => .closeScope h

theorem walks_openLoop : openLoop.Walks :=
  walks_change fun _ _ h => by cases h; exact .openLoop

theorem walks_closeLoop : closeLoop.Walks :=
  walks_change fun _ _ h => by cases h; exact .closeLoop

theorem walks_bindName {role : Role} {name : String} {ty : Ty} {line : Line} : (bindName role name ty line).Walks :=
  walks_change fun _ _ h => .bind h

theorem walks_register {h : Header} : (register h).Walks := by
  unfold register
  split
  · exact walks_fail
  · rename_i hn
    exact walks_change fun _ _ hd => .register hn hd

theorem walks_forM {m : α → Check Unit} (hm : ∀ a, (m a).Walks) : ∀ as : List α, (as.forM m).Walks
  | [] => walks_pure
  | a :: as => walks_bind (hm a) fun _ => walks_forM hm as

end Check

open Check

theorem Task.check_walks (w : Task) : w.check.Walks := by
  induction w with
  | assign target value line => exact walks_ask
  | skip line | exit line | nil | noBranch => exact walks_pure
  | ret value line =>
    cases value with
    | none => exact walks_pure
    | some e => exact walks_bind walks_ask fun _ => walks_pure
  | brk label line | cont label line => exact walks_ask
  | cond bs line ih =>
    simp only [check, Stmt.check]
    split
    · exact walks_fail
    · exact walks_bind walks_openScope fun _ => walks_bind ih fun _ => walks_closeScope
  | loop label body line ih =>
    have hlabel : (noteLabel line label).Walks := by
      cases label with
      | none => exact walks_pure
      | some l => exact walks_note
    exact walks_bind hlabel fun _ => walks_bind walks_openLoop fun _ => walks_bind walks_openScope fun _ =>
      walks_bind ih fun _ => walks_bind walks_closeScope fun _ => walks_closeLoop
  | proc call line => exact walks_bind walks_openScope fun _ => walks_bind walks_ask fun _ => walks_closeScope
  | define d line ih => exact ih
  | declare h line =>
    refine walks_bind walks_ask fun g => ?_
    cases g with
    | none => exact walks_register
    | some g => exact walks_fail
  | vars names ty line =>
    simp only [check, Stmt.check]
    split
    · exact walks_fail
    · exact walks_forM (fun _ => walks_bindName) names
  | cons s ss ih ihs | consBranch s ss ih ihs => exact walks_bind ih fun _ => ihs
  | branch condition body line ih =>
    have hcond : (Branch.checkCondition condition).Walks := by
      cases condition with
      | none => exact walks_pure
      | some e => exact walks_ask
    exact walks_bind hcond fun _ => walks_bind walks_openScope fun _ => walks_bind ih fun _ => walks_closeScope
  | definition header body line ih =>
    have hreg : header.ensureRegistered.Walks := by
      refine walks_bind walks_ask fun g => ?_
      cases g with
      | none => exact walks_register
      | some g => exact walks_pure
    simp only [check, Definition.check]
    split
    · exact walks_fail
    · exact walks_bind hreg fun _ => walks_bind walks_note fun _ => walks_bind walks_openScope fun _ =>
        walks_bind (walks_forM (fun _ => walks_bindName) _) fun _ => walks_bind ih fun _ => walks_closeScope

/-! ## Sessions -/

/-- What can be done with a table in a session. -/
inductive Operation
  | openScope
  | closeScope
  | openLoop
  | closeLoop
  | bind (role : Role) (name : String) (ty : Ty) (line : Line)
  | register (h : Header)
  | registerLibrary
  | program (p : Program)
  | statements (ss : List Stmt)
  | statement (s : Stmt)
  | definition (d : Definition)
  | expression (e : Expr)
  | place (p : Place)

def Operation.action : Operation → Check Unit
  | .openScope => Check.openScope
  | .closeScope => Check.closeScope
  | .openLoop => Check.openLoop
  | .closeLoop => Check.closeLoop
  | .bind role name ty line => bindName role name ty line
  | .register h => Check.register h
  | .registerLibrary => Builtin.registerAll
  | .program p => p.check
  | .statements ss => Stmt.checkAll ss
  | .statement s => s.check
  | .definition d => d.check
  | .expression e => do let _ ← e.check
  | .place p => do let _ ← p.check

theorem Operation.walks : ∀ op : Operation, op.action.Walks
  | .openScope => walks_openScope
  | .closeScope => walks_closeScope
  | .openLoop => walks_openLoop
  | .closeLoop => walks_closeLoop
  | .bind .. => walks_bindName
  | .register _ => walks_register
  | .registerLibrary => walks_forM (fun _ => walks_register) _
  | .program p => walks_bind walks_note fun _ => walks_bind (Task.check_walks (.block p)) fun _ => walks_note
  | .statements ss => Task.check_walks (.block ss)
  | .statement s => Task.check_walks (.stmt s)
  | .definition d => Task.check_walks (.definition d)
  | .expression _ => walks_bind walks_ask fun _ => walks_pure
  | .place _ => walks_bind walks_ask fun _ => walks_pure

/-- The tables of a session: from the empty one by any operations, each going on
from what the one before has left. -/
inductive Table.Reachable : Table → Prop
  | empty : Reachable .empty
  | after {t} (op : Operation) : Reachable t → Reachable (op.action.run t).table

/-- To hold of every reachable table it is enough to hold of the empty one and to
be kept by each step. -/
theorem Table.Reachable.invariant {P : Table → Prop} (hempty : P .empty)
    (hstep : ∀ {t u}, t.Step u → P t → P u) {t : Table} (h : t.Reachable) : P t := by
  induction h with
  | empty => exact hempty
  | @after t op _ ih =>
    have hw := op.walks t
    generalize (op.action.run t).table = u at hw ⊢
    induction hw with
    | refl => exact ih
    | tail _ hs ih => exact hstep hs ih

/-! ## Functions are global -/

/-- Scopes inside the global one hold no function. -/
def Table.FunctionsGlobal (t : Table) : Prop :=
  ∀ s ∈ t.scopes.dropLast, ∀ e ∈ s.entries, e.header? = none

theorem Table.Step.functionsGlobal {t u : Table} (h : t.Step u) (ht : t.FunctionsGlobal) : u.FunctionsGlobal := by
  cases h with
  | openScope =>
    cases hs : t.scopes with
    | nil => simp [FunctionsGlobal, Table.openScope, hs]
    | cons s outer =>
      intro s' hm e he
      simp only [Table.openScope, hs, List.dropLast_cons_of_ne_nil (List.cons_ne_nil s outer), List.mem_cons] at hm
      rcases hm with rfl | hm
      · cases he
      · exact ht s' (hs ▸ hm) e he
  | closeScope h =>
    obtain ⟨s, hs, -⟩ := closeScope_ok.mp h
    intro s' hm e he
    refine ht s' ?_ e he
    cases hu : u.scopes with
    | nil => simp [hu] at hm
    | cons s₁ outer =>
      rw [hs, hu, List.dropLast_cons_of_ne_nil (List.cons_ne_nil s₁ outer)]
      exact List.mem_cons_of_mem _ (hu ▸ hm)
  | openLoop => exact ht
  | closeLoop => exact ht
  | bind h =>
    obtain ⟨s, outer, hs, -, rfl⟩ := declare_ok.mp h
    cases outer with
    | nil => simp [FunctionsGlobal]
    | cons s₁ outer =>
      unfold FunctionsGlobal at ht ⊢
      rw [hs, List.dropLast_cons_of_ne_nil (List.cons_ne_nil s₁ outer), List.forall_mem_cons] at ht
      rw [List.dropLast_cons_of_ne_nil (List.cons_ne_nil s₁ outer), List.forall_mem_cons]
      exact ⟨Scope.forall_mem_insert ht.1 rfl, ht.2⟩
  | register _ h =>
    obtain ⟨inner, g, hs, -, rfl⟩ := declareGlobal_ok.mp h
    simpa [FunctionsGlobal, hs] using ht

theorem Table.Reachable.functionsGlobal {t : Table} (h : t.Reachable) : t.FunctionsGlobal :=
  h.invariant (by simp [FunctionsGlobal, Table.empty]) Step.functionsGlobal

end Dana
